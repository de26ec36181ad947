import Voyager.Kademlia.PSlice
import Mathlib.Algebra.Order.BigOperators.Group.List
import Mathlib.Algebra.Order.Ring.Nat

/-!
# Neighbourhood depth and bin saturation

`recalcDepth` and `binSaturated` (`pkg/kademlia/kademlia_test.go:1638-1690`).
`recalcDepth` walks the slice deepest bin first until it has met `nnLowWatermark`
peers and takes that peer's bin as its candidate; it returns the lower of the
candidate and the shallowest empty bin, and `0` for a slice of at most
`nnLowWatermark` peers. `specDepth` is the spec's definition (§3), which says
"fewer than" where the code says "at most"; `recalcDepth_eq_specDepth` shows the two
agree on every slice, and that the result leaves no empty bin below it and, past two
peers, two peers at or above it.
-/

namespace Voyager.Kademlia
open Voyager.Infinity

/-- `nnLowWatermark`: the peers in the deepest bins that make up the neighbourhood. -/
def nnLowWatermark : Nat := 2

/-- `saturationPeers`. -/
def saturationPeers : Nat := 4

/-- `overSaturationPeers`. -/
def overSaturationPeers : Nat := 16

/-- `recalcDepth`'s closure: count the peers met; at the `nnLowWatermark`-th keep its
bin as the candidate and stop. -/
def depthWalk (acc : Nat × Nat) (_ : Address) (po : Nat) : (Nat × Nat) × Bool × Bool × Option Empty :=
  if nnLowWatermark ≤ acc.1 + 1 then ((acc.1 + 1, po), true, false, none)
  else ((acc.1 + 1, acc.2), false, false, none)

/-- `recalcDepth` (`kademlia_test.go:1665`). -/
def recalcDepth (peers : PSlice) : Nat :=
  if peers.length ≤ nnLowWatermark then 0
  else
    let candidate := (peers.eachBin depthWalk (0, 0)).1.2
    let shallowest := peers.shallowestEmpty
    if shallowest.2 || candidate < shallowest.1 then candidate else shallowest.1

/-- `binSaturated`'s closure: count the connected peers of `bin`. -/
def binCount (bin : Nat) (size : Nat) (_ : Address) (po : Nat) : Nat × Bool × Bool × Option Empty :=
  (if po = bin then size + 1 else size, false, false, none)

/-- `binSaturated` (`kademlia_test.go:1638`): `(saturated, oversaturated)`. -/
def binSaturated (bin : Nat) (peers connected : PSlice) : Bool × Bool :=
  if recalcDepth peers ≤ bin then (false, false)
  else
    let size := (connected.eachBin (binCount bin) 0).1
    (decide (saturationPeers ≤ size), decide (overSaturationPeers ≤ size))

/-! ## The spec's depth -/

/-- The shallowest empty bin of `s`, or the bin count (`MaxPO + 1` for a slice of
`MaxBins` bins) when no bin is empty. -/
def lowestEmpty (s : PSlice) : Nat :=
  ((List.range s.bins.length).find? fun i => (s.bin i).isEmpty).getD s.bins.length

/-- The spec's depth (§3): `0` when `s` has fewer than `nnLowWatermark` peers, else the
lower of `lowestEmpty s` and the bin of the `nnLowWatermark`-th peer met deepest bin
first. -/
def specDepth (s : PSlice) : Nat :=
  if s.length < nnLowWatermark then 0
  else min (lowestEmpty s) ((s.entriesDeep[nnLowWatermark - 1]?.map Prod.snd).getD 0)

namespace PSlice

theorem emptyFrom_eq : ∀ (i : Nat) (bs : List (List Address)),
    emptyFrom i bs = ((List.range bs.length).find? fun k => (bs.getD k []).isEmpty).map (i + ·)
  | _, [] => rfl
  | i, b :: bs => by
    rw [emptyFrom, emptyFrom_eq (i + 1) bs, List.length_cons, List.range_succ_eq_map,
      List.find?_cons]
    cases b with
    | nil => simp
    | cons x b =>
      simp only [List.getD_cons_zero, List.isEmpty_cons, reduceCtorEq, if_false, List.find?_map,
        Option.map_map]
      congr 1
      funext k; simp only [Function.comp, List.getD_cons_succ]; omega

theorem emptyFrom_zero (s : PSlice) :
    emptyFrom 0 s.bins = (List.range s.bins.length).find? fun k => (s.bin k).isEmpty := by
  simp [emptyFrom_eq, bin]

theorem bin_of_length_le {s : PSlice} {k : Nat} (h : s.bins.length ≤ k) : s.bin k = [] := by
  simp [bin, List.getD_eq_getElem?_getD, List.getElem?_eq_none h]

theorem lt_of_mem_entriesDeep {s : PSlice} {e : Address × Nat} (h : e ∈ s.entriesDeep) :
    e.2 < s.bins.length := by
  have := mem_entriesDeep.1 h
  by_contra hk
  rw [bin_of_length_le (by omega)] at this
  simp at this

theorem le_of_mem_entriesDeepFrom {e : Address × Nat} {i : Nat} {bs : List (List Address)}
    (h : e ∈ entriesDeepFrom i bs) : i ≤ e.2 :=
  (mem_entriesFrom.1 ((entriesDeepFrom_perm i bs).subset h)).1

/-- `EachBin` meets bins in non-increasing order. -/
theorem sorted_entriesDeepFrom : ∀ (i : Nat) (bs : List (List Address)),
    (entriesDeepFrom i bs).Pairwise fun x y => y.2 ≤ x.2
  | _, [] => .nil
  | i, b :: bs => by
    rw [entriesDeepFrom, List.pairwise_append]
    refine ⟨sorted_entriesDeepFrom (i + 1) bs, ?_, ?_⟩
    · rw [List.pairwise_map]; exact List.pairwise_of_forall (fun _ _ => le_refl _)
    · intro x hx y hy
      obtain ⟨_, _, rfl⟩ := List.mem_map.1 hy
      have := le_of_mem_entriesDeepFrom hx
      simp only; omega

/-- With bin `0` occupied, `EachBin` ends in bin `0`. -/
theorem getLast_entriesDeep {s : PSlice} (h : s.bin 0 ≠ []) :
    ∀ e ∈ s.entriesDeep.getLast?, e.2 = 0 := by
  cases hb : s.bins with
  | nil => simp [bin, hb] at h
  | cons b bs =>
    have hb0 : b ≠ [] := by simpa [bin, hb] using h
    have hne : (b.map (·, 0)) ≠ [] := by simpa using hb0
    intro e he
    rw [Option.mem_def, entriesDeep, hb, entriesDeepFrom, List.getLast?_append,
      List.getLast?_eq_getLast _ hne] at he
    simp only [Option.or_some, Option.some.injEq] at he
    subst he
    obtain ⟨_, _, h⟩ := List.mem_map.1 (List.getLast_mem hne)
    rw [← h]

end PSlice

/-! ## Code and spec agree -/

theorem depthWalk_second (e₀ e₁ : Address × Nat) (rest : List (Address × Nat)) (c : Nat) :
    (iterate depthWalk none (e₀ :: e₁ :: rest) (0, c)).1.2 = e₁.2 := by
  obtain ⟨p₀, b₀⟩ := e₀; obtain ⟨p₁, b₁⟩ := e₁
  simp [iterate, depthWalk, nnLowWatermark]

theorem lt_lowestEmpty {s : PSlice} {i : Nat} (hi : i < lowestEmpty s) : s.bin i ≠ [] := by
  unfold lowestEmpty at hi
  cases h : (List.range s.bins.length).find? fun i => (s.bin i).isEmpty with
  | none =>
    rw [h] at hi
    simpa using List.find?_eq_none.1 h i (List.mem_range.2 hi)
  | some k =>
    rw [h] at hi
    obtain ⟨-, _, hbefore⟩ := List.find?_range_eq_some.1 h
    simpa using hbefore i (by simpa using hi)

/-- `recalcDepth` against the spec on a slice of more than `nnLowWatermark` peers. -/
theorem recalcDepth_of_lt {s : PSlice} (h : nnLowWatermark < s.length) :
    recalcDepth s = min (lowestEmpty s) ((s.entriesDeep[1]?.map Prod.snd).getD 0) := by
  have hlen := s.length_entriesDeep
  obtain ⟨e₀, e₁, rest, he⟩ : ∃ e₀ e₁ rest, s.entriesDeep = e₀ :: e₁ :: rest := by
    match hs : s.entriesDeep, hlen with
    | e₀ :: e₁ :: rest, _ => exact ⟨e₀, e₁, rest, rfl⟩
    | [], hl | [_], hl => simp [nnLowWatermark] at hl h; omega
  have hcand : (s.eachBin depthWalk (0, 0)).1.2 = e₁.2 := by
    rw [PSlice.eachBin, he, depthWalk_second]
  have hbound : e₁.2 < s.bins.length := PSlice.lt_of_mem_entriesDeep (by simp [he])
  unfold recalcDepth PSlice.shallowestEmpty lowestEmpty
  rw [if_neg (by omega), hcand, he, PSlice.emptyFrom_zero]
  cases (List.range s.bins.length).find? fun k => (s.bin k).isEmpty with
  | none => simp; omega
  | some i => simp only [Bool.false_or, decide_eq_true_eq, Option.getD_some, List.getElem?_cons_succ,
      List.getElem?_cons_zero, Option.map_some', Option.getD_some]; split <;> omega

theorem specDepth_of_two {s : PSlice} (h : s.length = nnLowWatermark) : specDepth s = 0 := by
  unfold specDepth
  rw [if_neg (by omega)]
  by_cases h0 : s.bin 0 = []
  · have : lowestEmpty s = 0 := by
      obtain ⟨n, hn⟩ : ∃ n, s.bins.length = n + 1 := by
        cases hb : s.bins with
        | nil => simp [PSlice.length, PSlice.peers, hb, nnLowWatermark] at h
        | cons _ bs => exact ⟨bs.length, rfl⟩
      unfold lowestEmpty
      rw [hn, List.range_succ_eq_map]
      simp [List.find?_cons, h0]
    simp [this]
  · have hlast := PSlice.getLast_entriesDeep h0
    rw [List.getLast?_eq_getElem?, s.length_entriesDeep, h] at hlast
    cases he : s.entriesDeep[nnLowWatermark - 1]? with
    | none => simp
    | some e => simp [hlast e (Option.mem_def.2 he)]

/-- **`recalcDepth` is the spec's depth.** On every slice it equals `specDepth`; every
bin below it is occupied, and past two peers, two peers lie in bins at or above it. -/
theorem recalcDepth_eq_specDepth (s : PSlice) :
    recalcDepth s = specDepth s ∧ (∀ i < recalcDepth s, s.bin i ≠ []) ∧
      (2 < s.length → 2 ≤ (s.entriesDeep.filter fun e => recalcDepth s ≤ e.2).length) := by
  by_cases h : s.length ≤ nnLowWatermark
  · have h0 : recalcDepth s = 0 := by simp [recalcDepth, h]
    refine ⟨?_, by simp [h0], fun h2 => by simp [nnLowWatermark] at h; omega⟩
    rw [h0]
    rcases Nat.lt_or_eq_of_le h with hlt | heq
    · simp [specDepth, hlt]
    · exact (specDepth_of_two heq).symm
  · have hd := recalcDepth_of_lt (s := s) (by omega)
    refine ⟨by rw [hd, specDepth, if_neg (by omega)]; rfl, fun i hi => ?_, fun _ => ?_⟩
    · exact lt_lowestEmpty (by rw [hd] at hi; omega)
    · have hlen := s.length_entriesDeep
      have hsort := PSlice.sorted_entriesDeepFrom 0 s.bins
      match he : s.entriesDeep, hlen with
      | e₀ :: e₁ :: rest, _ =>
        rw [PSlice.entriesDeep] at he
        rw [he, List.pairwise_cons] at hsort
        have h10 : e₁.2 ≤ e₀.2 := hsort.1 e₁ (by simp)
        rw [hd, PSlice.entriesDeep, he]
        simp only [List.getElem?_cons_succ, List.getElem?_cons_zero, Option.map_some',
          Option.getD_some]
        rw [List.filter_cons_of_pos (by simpa using le_trans (min_le_right _ _) h10),
          List.filter_cons_of_pos (by simp)]
        simp
      | [], hl | [_], hl => simp [nnLowWatermark] at hl h; omega

/-! ## The depth read off the bin sizes

`recalcDepth` sees a slice only through the number of peers in each bin. On those
sizes it is `depthOfSizes`, which grows with every size (`depthOfSizes_mono`) and does
not move when a bin below it gains a peer (`depthOfSizes_modify_succ`).
-/

/-- The shallowest zero among the bin sizes, or their count when no bin is empty. -/
def lowestZero : List Nat → Nat
  | [] => 0
  | a :: rest => if a = 0 then 0 else lowestZero rest + 1

/-- The bin of the `nnLowWatermark`-th peer met deepest bin first: the deepest bin from
which on the bins hold `nnLowWatermark` peers. -/
def secondDeepest : List Nat → Nat
  | [] => 0
  | _ :: rest => if nnLowWatermark ≤ rest.sum then secondDeepest rest + 1 else 0

/-- The spec's depth of a slice whose bins hold `sizes` peers. -/
def depthOfSizes (sizes : List Nat) : Nat :=
  if sizes.sum ≤ nnLowWatermark then 0 else min (lowestZero sizes) (secondDeepest sizes)

/-- The number of peers in each bin. -/
def PSlice.sizes (s : PSlice) : List Nat := s.bins.map List.length

namespace PSlice

theorem length_eq_sum_sizes (s : PSlice) : s.length = s.sizes.sum := by
  simp [PSlice.length, peers, sizes, List.length_flatten]

theorem emptyFrom_getD : ∀ (i : Nat) (bs : List (List Address)),
    (emptyFrom i bs).getD (i + bs.length) = i + lowestZero (bs.map List.length)
  | i, [] => by simp [emptyFrom, lowestZero]
  | i, b :: bs => by
    rw [emptyFrom, List.map_cons, lowestZero]
    by_cases hb : b = []
    · simp [hb]
    · rw [if_neg hb, if_neg (by simpa using hb), List.length_cons,
        show i + (bs.length + 1) = i + 1 + bs.length by omega, emptyFrom_getD (i + 1) bs]
      omega

theorem length_entriesDeepFrom : ∀ (i : Nat) (bs : List (List Address)),
    (entriesDeepFrom i bs).length = (bs.map List.length).sum
  | _, [] => rfl
  | i, b :: bs => by simp [entriesDeepFrom, length_entriesDeepFrom (i + 1) bs, Nat.add_comm]

/-- The second entry met deepest bin first lies in bin `i + secondDeepest`. -/
theorem second_entriesDeepFrom : ∀ (i : Nat) (bs : List (List Address)),
    nnLowWatermark ≤ (bs.map List.length).sum →
      ((entriesDeepFrom i bs)[1]?.map Prod.snd).getD 0 = i + secondDeepest (bs.map List.length)
  | _, [], h => by simp [nnLowWatermark] at h
  | i, b :: bs, h => by
    have hlen := length_entriesDeepFrom (i + 1) bs
    rw [List.map_cons, List.sum_cons] at h
    rw [entriesDeepFrom, List.map_cons, secondDeepest]
    by_cases hrest : nnLowWatermark ≤ (bs.map List.length).sum
    · rw [if_pos hrest, List.getElem?_append_left (by unfold nnLowWatermark at hrest; omega),
        second_entriesDeepFrom (i + 1) bs hrest]
      omega
    · have hb : 1 - (entriesDeepFrom (i + 1) bs).length < b.length := by
        unfold nnLowWatermark at h hrest; omega
      rw [if_neg hrest, List.getElem?_append_right (by unfold nnLowWatermark at hrest; omega)]
      simp [List.getElem?_eq_getElem hb]

end PSlice

theorem lowestEmpty_eq_lowestZero (s : PSlice) : lowestEmpty s = lowestZero s.sizes := by
  rw [lowestEmpty, ← PSlice.emptyFrom_zero]
  simpa using PSlice.emptyFrom_getD 0 s.bins

/-- `recalcDepth` depends on the bin sizes only. -/
theorem recalcDepth_eq_depthOfSizes (s : PSlice) : recalcDepth s = depthOfSizes s.sizes := by
  unfold depthOfSizes
  rw [← s.length_eq_sum_sizes]
  by_cases h : s.length ≤ nnLowWatermark
  · simp [recalcDepth, h]
  · rw [if_neg h, recalcDepth_of_lt (by omega), lowestEmpty_eq_lowestZero, PSlice.entriesDeep,
      PSlice.second_entriesDeepFrom 0 s.bins (by rw [← PSlice.sizes, ← s.length_eq_sum_sizes]; omega),
      Nat.zero_add]
    rfl

theorem lowestZero_mono {l l' : List Nat} (h : List.Forall₂ (· ≤ ·) l l') :
    lowestZero l ≤ lowestZero l' := by
  induction h with
  | nil => exact le_refl _
  | cons _ _ ih => simp only [lowestZero]; split <;> split <;> omega

theorem secondDeepest_mono {l l' : List Nat} (h : List.Forall₂ (· ≤ ·) l l') :
    secondDeepest l ≤ secondDeepest l' := by
  induction h with
  | nil => exact le_refl _
  | cons _ hl ih =>
    have := hl.sum_le_sum
    simp only [secondDeepest]; split <;> split <;> omega

/-- The depth grows with every bin size. -/
theorem depthOfSizes_mono {l l' : List Nat} (h : List.Forall₂ (· ≤ ·) l l') :
    depthOfSizes l ≤ depthOfSizes l' := by
  have := h.sum_le_sum
  have := lowestZero_mono h
  have := secondDeepest_mono h
  unfold depthOfSizes; split <;> split <;> omega

theorem forall₂_le_modify {f : Nat → Nat} (hf : ∀ a, a ≤ f a) :
    ∀ (l : List Nat) (q : Nat), List.Forall₂ (· ≤ ·) l (l.modify f q)
  | [], q => by rw [List.modify_nil]; exact .nil
  | a :: l, 0 => .cons (hf a) (List.forall₂_refl l)
  | a :: l, q + 1 => .cons (le_refl a) (forall₂_le_modify hf l q)

theorem lowestZero_modify_succ : ∀ {l : List Nat} {q : Nat}, q < lowestZero l →
    lowestZero (l.modify (· + 1) q) = lowestZero l
  | [], _, h => by simp [lowestZero] at h
  | a :: l, 0, h => by
    simp only [lowestZero] at h ⊢; split at h <;> simp_all
  | a :: l, q + 1, h => by
    rw [List.modify_succ_cons]
    simp only [lowestZero] at h ⊢
    split at h
    · omega
    · rw [if_neg ‹_›, if_neg ‹_›, lowestZero_modify_succ (by omega)]

theorem secondDeepest_modify_succ : ∀ {l : List Nat} {q : Nat}, q < secondDeepest l →
    secondDeepest (l.modify (· + 1) q) = secondDeepest l
  | [], _, h => by simp [secondDeepest] at h
  | a :: l, 0, h => by simp only [List.modify_zero_cons, secondDeepest]
  | a :: l, q + 1, h => by
    rw [List.modify_succ_cons]
    simp only [secondDeepest] at h ⊢
    split at h
    · have hsum := (forall₂_le_modify (fun a => Nat.le_add_right a 1) l q).sum_le_sum
      rw [if_pos (le_trans ‹_› hsum), if_pos ‹_›, secondDeepest_modify_succ (by omega)]
    · omega

/-- A bin below the depth gaining a peer leaves the depth where it is. -/
theorem depthOfSizes_modify_succ {l : List Nat} {q : Nat} (hq : q < depthOfSizes l) :
    depthOfSizes (l.modify (· + 1) q) = depthOfSizes l := by
  unfold depthOfSizes at hq ⊢
  split at hq
  · omega
  · have hsum := (forall₂_le_modify (fun a => Nat.le_add_right a 1) l q).sum_le_sum
    rw [if_neg (by omega), if_neg ‹_›, lowestZero_modify_succ (by omega),
      secondDeepest_modify_succ (by omega)]

namespace PSlice

theorem sizes_add_of_not_mem {s : PSlice} {a : Address} (h : a ∉ s) (po : Nat) :
    (s.add a po).sizes = s.sizes.modify (· + 1) po := by
  simp only [add, h, if_false, sizes]
  induction s.bins generalizing po with
  | nil => simp
  | cons b bs ih => cases po <;> simp [ih]

theorem sizes_remove_le (s : PSlice) (a : Address) (po : Nat) :
    List.Forall₂ (· ≤ ·) (s.remove a po).sizes s.sizes := by
  simp only [remove, sizes]
  induction s.bins generalizing po with
  | nil => rw [List.modify_nil]; exact .nil
  | cons b bs ih =>
    cases po with
    | zero => exact .cons (List.length_filter_le _ _) (List.forall₂_refl _)
    | succ po => exact .cons (le_refl _) (ih po)

end PSlice

/-- **Adding a peer never lowers `recalcDepth`**, and adding one below the depth leaves
it unchanged. -/
theorem recalcDepth_add (s : PSlice) (p : Address) (po : Nat) :
    recalcDepth s ≤ recalcDepth (s.add p po) ∧
      (po < recalcDepth s → recalcDepth (s.add p po) = recalcDepth s) := by
  by_cases hp : p ∈ s
  · simp [PSlice.add, hp]
  · rw [recalcDepth_eq_depthOfSizes, recalcDepth_eq_depthOfSizes, PSlice.sizes_add_of_not_mem hp]
    exact ⟨depthOfSizes_mono (forall₂_le_modify (fun a => Nat.le_add_right a 1) _ _),
      depthOfSizes_modify_succ⟩

/-- Removing a peer never raises `recalcDepth`. -/
theorem recalcDepth_remove_le (s : PSlice) (p : Address) (po : Nat) :
    recalcDepth (s.remove p po) ≤ recalcDepth s := by
  rw [recalcDepth_eq_depthOfSizes, recalcDepth_eq_depthOfSizes]
  exact depthOfSizes_mono (s.sizes_remove_le p po)

end Voyager.Kademlia
