import Voyager.Infinity.Address

/-!
# Proximity-order slices

`pkg/kademlia/pslice` is not in the repository. Following the spec (§3, "Topology
bins"), a `PSlice` is a sequence of sets of overlays indexed by proximity order,
bin `po` at index `po`. `Add` does nothing for a peer already present and puts a
new one at the front of its bin, `Remove(addr, po)` takes `addr` out of bin `po`,
`EachBin` visits bins deepest first and `EachBinRev` shallowest first, each over
the peers present when the walk starts. Callers hand both walks a
`topology.EachPeerFunc`; `iterate` runs one over the visiting order, threading the
variables the Go closure captures.
-/

namespace Voyager.Kademlia
open Voyager.Infinity

/-- Modelled from the spec: `pslice.PSlice`, the peers of each bin. -/
structure PSlice where
  bins : List (List Address)

namespace PSlice

/-- `pslice.New(maxBins)`. -/
def new (maxBins : Nat) : PSlice := ⟨List.replicate maxBins []⟩

/-- The peers of bin `i`. -/
def bin (s : PSlice) (i : Nat) : List Address := s.bins.getD i []

/-- Every peer, bin by bin. -/
def peers (s : PSlice) : List Address := s.bins.flatten

instance : Membership Address PSlice := ⟨fun s a => a ∈ s.peers⟩

instance (a : Address) (s : PSlice) : Decidable (a ∈ s) :=
  inferInstanceAs (Decidable (a ∈ s.peers))

/-- `Length()`. -/
def length (s : PSlice) : Nat := s.peers.length

/-- `Add(addr, po)`: nothing when `addr` is present, else `addr` joins bin `po`. -/
def add (s : PSlice) (a : Address) (po : Nat) : PSlice :=
  if a ∈ s then s else ⟨s.bins.modify (a :: ·) po⟩

/-- `Remove(addr, po)`: `addr` leaves bin `po`. -/
def remove (s : PSlice) (a : Address) (po : Nat) : PSlice :=
  ⟨s.bins.modify (·.filter (· ≠ a)) po⟩

/-- The peers of bins `i, i + 1, …` with their bins, shallowest first. -/
def entriesFrom : Nat → List (List Address) → List (Address × Nat)
  | _, [] => []
  | i, b :: bs => b.map (·, i) ++ entriesFrom (i + 1) bs

/-- The peers of bins `i, i + 1, …` with their bins, deepest first. -/
def entriesDeepFrom : Nat → List (List Address) → List (Address × Nat)
  | _, [] => []
  | i, b :: bs => entriesDeepFrom (i + 1) bs ++ b.map (·, i)

/-- `EachBinRev`'s order: shallowest bin first. -/
def entries (s : PSlice) : List (Address × Nat) := entriesFrom 0 s.bins

/-- `EachBin`'s order: deepest bin first. -/
def entriesDeep (s : PSlice) : List (Address × Nat) := entriesDeepFrom 0 s.bins

/-- The first empty bin from index `i` on. -/
def emptyFrom : Nat → List (List Address) → Option Nat
  | _, [] => none
  | i, b :: bs => if b = [] then some i else emptyFrom (i + 1) bs

/-- `ShallowestEmpty()`: the shallowest empty bin, or `(0, true)` when none is empty. -/
def shallowestEmpty (s : PSlice) : Nat × Bool :=
  match emptyFrom 0 s.bins with
  | some i => (i, false)
  | none => (0, true)

end PSlice

/-- A `topology.EachPeerFunc` run by `EachBin` or `EachBinRev` over `peers`: `f` reads
and updates the captured variables `σ` and answers `(stop, jumpToNext, err)`; after a
jump the rest of the bin is skipped. -/
def iterate {σ ε : Type} (f : σ → Address → Nat → σ × Bool × Bool × Option ε) :
    Option Nat → List (Address × Nat) → σ → σ × Option ε
  | _, [], s => (s, none)
  | skip, (p, po) :: rest, s =>
    if skip = some po then iterate f skip rest s
    else
      match f s p po with
      | (s', _, _, some e) => (s', some e)
      | (s', true, _, none) => (s', none)
      | (s', false, jump, none) => iterate f (if jump then some po else none) rest s'

/-! ## Walks -/

/-- A walk whose callback never stops, jumps or fails is a left fold. -/
theorem iterate_of_continue {σ ε : Type} {f : σ → Address → Nat → σ × Bool × Bool × Option ε}
    (hf : ∀ s p po, (f s p po).2 = (false, false, none)) :
    ∀ (l : List (Address × Nat)) (s : σ),
      iterate f none l s = (l.foldl (fun s e => (f s e.1 e.2).1) s, none)
  | [], _ => rfl
  | (p, po) :: rest, s => by
    have e : f s p po = ((f s p po).1, false, false, none) := by rw [← hf s p po]
    rw [iterate, if_neg (by simp), e]
    exact iterate_of_continue hf rest _

/-- What a walk's callback keeps of its variables `s` and of the entries still to come
holds at the end of the walk, and an error the callback returns satisfies `Q`. -/
theorem iterate_inv {σ ε : Type} {f : σ → Address → Nat → σ × Bool × Bool × Option ε}
    (P : σ → List (Address × Nat) → Prop) (Q : σ → ε → Prop)
    (hskip : ∀ s e rest, P s (e :: rest) → P s rest)
    (hstep : ∀ s p po rest, P s ((p, po) :: rest) →
      P (f s p po).1 rest ∧ ∀ e, (f s p po).2.2.2 = some e → Q (f s p po).1 e) :
    ∀ (skip : Option Nat) (l : List (Address × Nat)) (s : σ), P s l →
      (∃ l', P (iterate f skip l s).1 l') ∧
        ∀ e, (iterate f skip l s).2 = some e → Q (iterate f skip l s).1 e
  | _, [], s, h => ⟨⟨[], h⟩, by simp [iterate]⟩
  | skip, (p, po) :: rest, s, h => by
    unfold iterate
    split
    · exact iterate_inv P Q hskip hstep skip rest s (hskip _ _ _ h)
    · obtain ⟨hP, hQ⟩ := hstep s p po rest h
      rcases hf : f s p po with ⟨s', stop, jump, _ | e⟩
      all_goals rw [hf] at hP hQ
      · cases stop
        · exact iterate_inv P Q hskip hstep _ rest s' hP
        · exact ⟨⟨rest, hP⟩, by simp⟩
      · cases stop <;> cases jump <;> exact ⟨⟨rest, hP⟩, fun e' he' => by cases he'; exact hQ e rfl⟩

namespace PSlice

/-- `EachBin(f)`, deepest bin first. -/
def eachBin {σ ε : Type} (s : PSlice) (f : σ → Address → Nat → σ × Bool × Bool × Option ε)
    (init : σ) : σ × Option ε :=
  iterate f none s.entriesDeep init

/-- `EachBinRev(f)`, shallowest bin first. -/
def eachBinRev {σ ε : Type} (s : PSlice) (f : σ → Address → Nat → σ × Bool × Bool × Option ε)
    (init : σ) : σ × Option ε :=
  iterate f none s.entries init

/-! ## Membership -/

theorem mem_iff {a : Address} {s : PSlice} : a ∈ s ↔ a ∈ s.peers := Iff.rfl

theorem mem_entriesFrom {a : Address} {k : Nat} :
    ∀ {i : Nat} {bs : List (List Address)},
      (a, k) ∈ entriesFrom i bs ↔ i ≤ k ∧ a ∈ bs.getD (k - i) []
  | _, [] => by simp [entriesFrom]
  | i, b :: bs => by
    have hhead : (∃ x ∈ b, (x, i) = (a, k)) ↔ k = i ∧ a ∈ b :=
      ⟨fun ⟨x, hx, h⟩ => by cases h; exact ⟨rfl, hx⟩, fun ⟨h, ha⟩ => ⟨a, ha, h ▸ rfl⟩⟩
    rw [entriesFrom, List.mem_append, mem_entriesFrom, List.mem_map, hhead]
    rcases Nat.lt_or_ge i k with hlt | hle
    · rw [show k - i = k - (i + 1) + 1 by omega, List.getD_cons_succ]
      exact ⟨fun h => h.elim (fun h => absurd h.1 (by omega)) fun h => ⟨hlt.le, h.2⟩,
        fun h => .inr ⟨hlt, h.2⟩⟩
    · rw [Nat.sub_eq_zero_of_le hle, List.getD_cons_zero]
      exact ⟨fun h => h.elim (fun h => ⟨h.1 ▸ hle, h.2⟩) fun h => absurd h.1 (by omega),
        fun h => .inl ⟨by omega, h.2⟩⟩

theorem mem_entries {s : PSlice} {a : Address} {k : Nat} : (a, k) ∈ s.entries ↔ a ∈ s.bin k := by
  simp [entries, mem_entriesFrom, bin]

theorem entriesDeepFrom_perm : ∀ (i : Nat) (bs : List (List Address)),
    (entriesDeepFrom i bs).Perm (entriesFrom i bs)
  | _, [] => .refl _
  | i, b :: bs => by
    rw [entriesDeepFrom, entriesFrom]
    exact List.perm_append_comm.trans (List.Perm.append_left _ (entriesDeepFrom_perm _ bs))

theorem mem_entriesDeep {s : PSlice} {a : Address} {k : Nat} :
    (a, k) ∈ s.entriesDeep ↔ a ∈ s.bin k :=
  ((entriesDeepFrom_perm 0 s.bins).mem_iff).trans mem_entries

theorem mem_peers {s : PSlice} {a : Address} : a ∈ s ↔ ∃ k, a ∈ s.bin k := by
  simp only [mem_iff, peers, List.mem_flatten, bin]
  constructor
  · rintro ⟨b, hb, ha⟩
    obtain ⟨k, hk, rfl⟩ := List.getElem_of_mem hb
    exact ⟨k, by simpa [List.getD_eq_getElem?_getD, hk] using ha⟩
  · rintro ⟨k, hk⟩
    rcases h : s.bins[k]? with _ | b
    · simp [List.getD_eq_getElem?_getD, h] at hk
    · exact ⟨b, List.getElem?_mem h, by simpa [List.getD_eq_getElem?_getD, h] using hk⟩

theorem length_entries (s : PSlice) : s.entries.length = s.length := by
  suffices ∀ i (bs : List (List Address)), (entriesFrom i bs).length = bs.flatten.length from
    this 0 s.bins
  intro i bs
  induction bs generalizing i with
  | nil => rfl
  | cons b bs ih => simp [entriesFrom, ih]

theorem length_entriesDeep (s : PSlice) : s.entriesDeep.length = s.length :=
  (entriesDeepFrom_perm 0 s.bins).length_eq.trans s.length_entries

@[simp] theorem bin_remove (s : PSlice) (a : Address) (po i : Nat) :
    (s.remove a po).bin i = if i = po then (s.bin i).filter (· ≠ a) else s.bin i := by
  simp only [bin, remove, List.getD_eq_getElem?_getD, List.getElem?_modify]
  split <;> rename_i h
  · subst h; cases s.bins[po]? <;> simp
  · simp [Ne.symm h]

theorem bin_add_of_not_mem {s : PSlice} {a : Address} (h : a ∉ s) {po : Nat}
    (hpo : po < s.bins.length) (i : Nat) :
    (s.add a po).bin i = if i = po then a :: s.bin i else s.bin i := by
  simp only [add, h, if_false, bin, List.getD_eq_getElem?_getD, List.getElem?_modify]
  split <;> rename_i hi
  · subst hi; simp [List.getElem?_eq_getElem hpo]
  · simp [Ne.symm hi]

theorem length_bins_add (s : PSlice) (a : Address) (po : Nat) :
    (s.add a po).bins.length = s.bins.length := by
  unfold add; split <;> simp

@[simp] theorem length_bins_remove (s : PSlice) (a : Address) (po : Nat) :
    (s.remove a po).bins.length = s.bins.length := by
  simp [remove]

theorem flatten_modify_perm {bs : List (List Address)} {i : Nat} (hi : i < bs.length)
    (f : List Address → List Address) :
    (bs.modify f i).flatten = (bs.take i).flatten ++ f bs[i] ++ (bs.drop (i + 1)).flatten := by
  rw [List.modify_eq_take_cons_drop hi]; simp

theorem flatten_eq_take_drop {bs : List (List Address)} {i : Nat} (hi : i < bs.length) :
    bs.flatten = (bs.take i).flatten ++ bs[i] ++ (bs.drop (i + 1)).flatten := by
  conv_lhs => rw [← List.take_append_drop i bs, ← List.cons_getElem_drop_succ (h := hi)]
  simp only [List.flatten_append, List.flatten_cons, List.append_assoc]

/-- A new peer joins the slice: the peers are the old ones and `a`. -/
theorem peers_add_perm {s : PSlice} {a : Address} (h : a ∉ s) {po : Nat}
    (hpo : po < s.bins.length) : (s.add a po).peers.Perm (a :: s.peers) := by
  simp only [add, h, if_false, peers]
  rw [flatten_modify_perm hpo, flatten_eq_take_drop hpo, List.append_assoc, List.append_assoc]
  exact List.perm_middle.trans (by simp)

theorem peers_remove_sublist (s : PSlice) (a : Address) (po : Nat) :
    (s.remove a po).peers.Sublist s.peers := by
  simp only [remove, peers]
  by_cases hpo : po < s.bins.length
  · rw [flatten_modify_perm hpo, flatten_eq_take_drop hpo]
    exact ((List.filter_sublist _).append_left _).append_right _
  · rw [List.modify_eq_self (by omega)]

theorem mem_add {s : PSlice} {a b : Address} {po : Nat} (hpo : po < s.bins.length) :
    b ∈ s.add a po ↔ b = a ∨ b ∈ s := by
  by_cases h : a ∈ s
  · simp only [add, h, if_true]; exact ⟨.inr, fun hb => hb.elim (· ▸ h) id⟩
  · simp only [mem_iff, (peers_add_perm h hpo).mem_iff, List.mem_cons]

theorem mem_add_of_mem {s : PSlice} {a b : Address} (po : Nat) (hb : b ∈ s) : b ∈ s.add a po := by
  by_cases h : a ∈ s
  · simpa [add, h] using hb
  by_cases hpo : po < s.bins.length
  · exact (mem_add hpo).2 (.inr hb)
  · simp only [add, h, if_false]; rwa [List.modify_eq_self (by omega)]

theorem mem_of_mem_remove {s : PSlice} {a b : Address} {po : Nat} (h : b ∈ s.remove a po) :
    b ∈ s :=
  (peers_remove_sublist s a po).subset h

theorem mem_remove_of_ne {s : PSlice} {a b : Address} {po : Nat} (hb : b ∈ s) (hne : b ≠ a) :
    b ∈ s.remove a po := by
  obtain ⟨k, hk⟩ := mem_peers.1 hb
  refine mem_peers.2 ⟨k, ?_⟩
  rw [bin_remove]; split
  · simpa [hne] using hk
  · exact hk

/-- Removing a peer that is absent changes nothing. -/
theorem remove_of_not_mem {s : PSlice} {a : Address} (h : a ∉ s) (po : Nat) : s.remove a po = s := by
  obtain ⟨bins⟩ := s
  refine congrArg PSlice.mk (List.ext_getElem? fun i => ?_)
  by_cases hi : po = i
  · subst hi
    rw [List.getElem?_modify_eq]
    cases hb : bins[po]? with
    | none => rfl
    | some b =>
      refine congrArg some (List.filter_eq_self.2 fun x hx => ?_)
      simp only [ne_eq, decide_eq_true_eq]
      rintro rfl
      exact h (List.mem_flatten.2 ⟨b, List.getElem?_mem hb, hx⟩)
  · exact List.getElem?_modify_ne _ _ hi

theorem map_fst_entriesFrom : ∀ (i : Nat) (bs : List (List Address)),
    (entriesFrom i bs).map Prod.fst = bs.flatten
  | _, [] => rfl
  | i, b :: bs => by simp [entriesFrom, map_fst_entriesFrom (i + 1) bs, Function.comp_def]

theorem map_fst_entries (s : PSlice) : s.entries.map Prod.fst = s.peers :=
  map_fst_entriesFrom 0 s.bins

/-- A slice of `n` bins holding each peer once, in bin `binOf peer`. -/
structure Binned (binOf : Address → Nat) (n : Nat) (s : PSlice) : Prop where
  length_bins : s.bins.length = n
  bin_eq : ∀ {p i}, p ∈ s.bin i → i = binOf p
  nodup : s.peers.Nodup

section Binned
variable {binOf : Address → Nat} {n : Nat} {s : PSlice}

theorem Binned.new : Binned binOf n (PSlice.new n) where
  length_bins := by simp [PSlice.new]
  bin_eq := fun {p i} hp => by
    simp only [PSlice.new, bin, List.getD_eq_getElem?_getD, List.getElem?_replicate] at hp
    split at hp <;> simp at hp
  nodup := by simp [PSlice.new, peers]

theorem Binned.add (h : Binned binOf n s) (a : Address) (ha : binOf a < n) :
    Binned binOf n (s.add a (binOf a)) := by
  by_cases hm : a ∈ s
  · simpa [PSlice.add, hm] using h
  have hpo : binOf a < s.bins.length := h.length_bins ▸ ha
  refine ⟨(length_bins_add _ _ _).trans h.length_bins, fun {p i} hp => ?_, ?_⟩
  · rw [bin_add_of_not_mem hm hpo] at hp
    split at hp
    · rcases List.mem_cons.1 hp with rfl | hp
      · assumption
      · exact h.bin_eq hp
    · exact h.bin_eq hp
  · exact (peers_add_perm hm hpo).nodup_iff.2 (List.nodup_cons.2 ⟨hm, h.nodup⟩)

theorem Binned.remove (h : Binned binOf n s) (a : Address) (po : Nat) :
    Binned binOf n (s.remove a po) where
  length_bins := by simp [h.length_bins]
  bin_eq := fun {p i} hp => by
    rw [bin_remove] at hp
    split at hp
    · exact h.bin_eq (List.mem_of_mem_filter hp)
    · exact h.bin_eq hp
  nodup := h.nodup.sublist (peers_remove_sublist s a po)

/-- `Remove(a, binOf a)` takes `a` out of a binned slice and nothing else. -/
theorem Binned.mem_remove (h : Binned binOf n s) {a b : Address} :
    b ∈ s.remove a (binOf a) ↔ b ∈ s ∧ b ≠ a := by
  simp only [mem_peers, bin_remove]
  constructor
  · rintro ⟨k, hk⟩
    split at hk
    · simp only [List.mem_filter, decide_eq_true_eq] at hk; exact ⟨⟨k, hk.1⟩, hk.2⟩
    · exact ⟨⟨k, hk⟩, fun hba => by subst hba; exact absurd (h.bin_eq hk) ‹_›⟩
  · rintro ⟨⟨k, hk⟩, hne⟩
    refine ⟨k, ?_⟩
    split
    · simpa [hne] using hk
    · exact hk

theorem Binned.mem_of_mem_entries (h : Binned binOf n s) {e : Address × Nat}
    (he : e ∈ s.entries) : e.1 ∈ s ∧ e.2 = binOf e.1 :=
  ⟨mem_peers.2 ⟨e.2, mem_entries.1 he⟩, h.bin_eq (mem_entries.1 he)⟩

theorem Binned.nodup_entries (h : Binned binOf n s) : (s.entries.map Prod.fst).Nodup := by
  rw [map_fst_entries]; exact h.nodup

end Binned

end PSlice

end Voyager.Kademlia
