import Voyager.Kademlia.Monotone
import Mathlib.Algebra.Order.Ring.Nat

/-!
# The topology snapshot

`marshal` (`pkg/kademlia/kademlia_test.go:2089-2186`), behind `MarshalJSON` and
`String`, builds one `binInfo` per bin: a walk over the connected peers counts and
lists them in their bin, and a walk over the known peers counts them and lists those
its bin does not list as connected. The result reports `Bin0` to `Bin15` beside the
totals. A peer's `String()` is its hex encoding, one-to-one, so the lists here hold the
peers themselves, and the value is the one `json.Marshal` encodes, but for its
timestamp.

In every reachable state with `MaxPO = 15`, the value of the code, the snapshot does
not panic and agrees with the state: each bin lists its connected peers as connected
and its other known peers as disconnected, each once, its population is the sum of
the two, and the bins add up to the totals (`marshal_snapshot`).
-/

namespace Voyager.Kademlia
open Voyager.Infinity

/-- `binInfo` (`kademlia_test.go:2090`). -/
structure BinInfo where
  binPopulation : Nat
  binConnected : Nat
  disconnectedPeers : List Address
  connectedPeers : List Address
  deriving DecidableEq, Repr

/-- `kadParams` (`kademlia_test.go:2116`) but for its timestamp; `bins` holds `Bin0`,
…, `Bin15`. -/
structure KadParams where
  base : Address
  population : Nat
  connected : Nat
  nnLowWatermark : Nat
  depth : Nat
  bins : List BinInfo
  deriving DecidableEq, Repr

/-- `infos[po]` updated by `f`; `none` is Go's panic on an index out of range. -/
def updateInfo (f : BinInfo → BinInfo) (infos : List BinInfo) (po : Nat) : Option (List BinInfo) :=
  if po < infos.length then some (infos.modify f po) else none

/-- What the walk over the connected peers does to a peer's bin
(`kademlia_test.go:2128-2132`). -/
def connectedBin (addr : Address) (b : BinInfo) : BinInfo :=
  { b with binConnected := b.binConnected + 1, connectedPeers := b.connectedPeers ++ [addr] }

/-- What the walk over the known peers does to a peer's bin
(`kademlia_test.go:2135-2147`): count the peer, and list it unless the bin lists it as
connected. -/
def knownBin (addr : Address) (b : BinInfo) : BinInfo :=
  let b := { b with binPopulation := b.binPopulation + 1 }
  if addr ∈ b.connectedPeers then b else { b with disconnectedPeers := b.disconnectedPeers ++ [addr] }

/-- A walk's closure updating the bin of each peer with `f`; it never stops or fails. -/
def infoVisit (f : Address → BinInfo → BinInfo) (infos : Option (List BinInfo)) (addr : Address)
    (po : Nat) : Option (List BinInfo) × Bool × Bool × Option Empty :=
  (infos.bind (updateInfo (f addr) · po), false, false, none)

/-- `marshal` (`kademlia_test.go:2089`) with `MaxPO = maxPO`: the value it encodes;
`none` is a panic. -/
def Kad.marshal (maxPO : Nat) (k : Kad) : Option KadParams := do
  let infos ← (k.connectedPeers.eachBin (infoVisit connectedBin)
    (some (List.replicate (maxPO + 1) ⟨0, 0, [], []⟩))).1
  let infos ← (k.knownPeers.eachBin (infoVisit knownBin) (some infos)).1
  let bins ← if 16 ≤ infos.length then some (infos.take 16) else none
  pure ⟨k.base, k.knownPeers.length, k.connectedPeers.length, nnLowWatermark, k.neighborhoodDepth,
    bins⟩

/-! ## The walks, bin by bin -/

theorem eachBin_infoVisit (f : Address → BinInfo → BinInfo) (s : PSlice)
    (infos : Option (List BinInfo)) :
    (s.eachBin (infoVisit f) infos).1 =
      s.entriesDeep.foldl (fun infos e => infos.bind (updateInfo (f e.1) · e.2)) infos := by
  rw [PSlice.eachBin, iterate_of_continue (fun _ _ _ => rfl)]
  rfl

/-- A walk updating `infos[po]` for each entry `(addr, po)` in turn leaves in bin `i`
the initial bin updated by the entries of bin `i`, in order. -/
theorem foldl_updateInfo (f : Address → BinInfo → BinInfo) :
    ∀ (l : List (Address × Nat)) (infos : List BinInfo), (∀ e ∈ l, e.2 < infos.length) →
      ∃ infos', l.foldl (fun s e => s.bind (updateInfo (f e.1) · e.2)) (some infos) = some infos' ∧
        infos'.length = infos.length ∧
        ∀ i, infos'[i]? = infos[i]?.map fun b => (l.filter (·.2 = i)).foldl (fun b e => f e.1 b) b
  | [], infos, _ => ⟨infos, rfl, rfl, fun i => by cases infos[i]? <;> rfl⟩
  | (a, po) :: l, infos, h => by
    have hpo : po < infos.length := h (a, po) (.head _)
    obtain ⟨infos', hfold, hlen, hget⟩ := foldl_updateInfo f l (infos.modify (f a) po)
      fun e he => (List.length_modify _ _ _).symm ▸ h e (.tail _ he)
    refine ⟨infos', ?_, hlen.trans (List.length_modify _ _ _), fun i => ?_⟩
    · rw [List.foldl_cons, Option.some_bind, updateInfo, if_pos hpo]; exact hfold
    · rw [hget, List.getElem?_modify, List.filter_cons]
      cases infos[i]? with
      | none => rfl
      | some b => by_cases hi : po = i <;> simp [hi]

theorem foldl_connectedBin : ∀ (l : List (Address × Nat)) (b : BinInfo),
    l.foldl (fun b e => connectedBin e.1 b) b =
      { b with
        binConnected := b.binConnected + l.length
        connectedPeers := b.connectedPeers ++ l.map Prod.fst }
  | [], b => by simp
  | e :: l, b => by
    rw [List.foldl_cons, foldl_connectedBin l]
    simp only [connectedBin, List.length_cons, List.map_cons, List.append_assoc,
      List.singleton_append]
    congr 1; omega

theorem foldl_knownBin : ∀ (l : List (Address × Nat)) (b : BinInfo),
    l.foldl (fun b e => knownBin e.1 b) b =
      { b with
        binPopulation := b.binPopulation + l.length
        disconnectedPeers := b.disconnectedPeers ++ (l.map Prod.fst).filter (· ∉ b.connectedPeers) }
  | [], b => by simp
  | e :: l, b => by
    rw [List.foldl_cons, foldl_knownBin l]
    unfold knownBin
    dsimp only
    split
    · rename_i he
      simp only [List.length_cons, List.map_cons, List.filter_cons, he, not_true_eq_false,
        decide_False, Bool.false_eq_true, if_false]
      congr 1; omega
    · rename_i he
      simp only [List.length_cons, List.map_cons, List.filter_cons, he, not_false_eq_true,
        decide_True, if_true, List.append_assoc, List.singleton_append]
      congr 1; omega

/-- `EachBin` visits the peers of bin `i` in the bin's order. -/
theorem map_fst_filter_entriesDeepFrom (i : Nat) : ∀ (j : Nat) (bs : List (List Address)),
    ((PSlice.entriesDeepFrom j bs).filter (·.2 = i)).map Prod.fst =
      if j ≤ i then bs.getD (i - j) [] else []
  | _, [] => by simp [PSlice.entriesDeepFrom]
  | j, b :: bs => by
    rw [PSlice.entriesDeepFrom, List.filter_append, List.map_append,
      map_fst_filter_entriesDeepFrom i (j + 1) bs]
    by_cases hji : j = i
    · subst hji
      simp [List.filter_map, Function.comp_def]
    · have hfilter : (b.map (·, j)).filter (·.2 = i) = [] := by
        simp [List.filter_map, Function.comp_def, hji]
      rw [hfilter, List.map_nil, List.append_nil]
      by_cases hle : j ≤ i
      · rw [if_pos (by omega), if_pos hle, show i - j = i - (j + 1) + 1 by omega]
        rfl
      · rw [if_neg (by omega), if_neg hle]

theorem map_fst_filter_entriesDeep (s : PSlice) (i : Nat) :
    (s.entriesDeep.filter (·.2 = i)).map Prod.fst = s.bin i := by
  rw [PSlice.entriesDeep, map_fst_filter_entriesDeepFrom, if_pos (Nat.zero_le i), Nat.sub_zero]
  rfl

theorem length_filter_entriesDeep (s : PSlice) (i : Nat) :
    (s.entriesDeep.filter (·.2 = i)).length = (s.bin i).length := by
  rw [← map_fst_filter_entriesDeep s i, List.length_map]

theorem lt_of_mem_entriesDeep {s : PSlice} {e : Address × Nat} (he : e ∈ s.entriesDeep) :
    e.2 < s.bins.length := by
  have hb := PSlice.mem_entriesDeep.1 he
  unfold PSlice.bin at hb
  rw [List.getD_eq_getElem?_getD] at hb
  by_contra hge
  rw [List.getElem?_eq_none (by omega)] at hb
  cases hb

/-- A peer of a binned slice is in it exactly when it is in its own bin. -/
theorem PSlice.Binned.mem_iff_mem_bin {binOf : Address → Nat} {n : Nat} {s : PSlice}
    (h : s.Binned binOf n) {p : Address} : p ∈ s ↔ p ∈ s.bin (binOf p) := by
  refine ⟨fun hp => ?_, fun hp => PSlice.mem_peers.2 ⟨_, hp⟩⟩
  obtain ⟨i, hi⟩ := PSlice.mem_peers.1 hp
  rwa [← h.bin_eq hi]

/-- A slice of distinct peers held in a larger one: each bin of the larger is the
smaller's bin and the rest. -/
theorem length_bin_eq_add {s s' : PSlice} (hn : s.peers.Nodup) (hn' : s'.peers.Nodup)
    (hsub : ∀ p, p ∈ s.bin i → p ∈ s'.bin i) :
    (s'.bin i).length = (s.bin i).length + ((s'.bin i).filter (· ∉ s.bin i)).length := by
  have hperm : List.Perm ((s'.bin i).filter (· ∈ s.bin i)) (s.bin i) :=
    (List.perm_ext_iff_of_nodup ((PSlice.nodup_bin hn' i).filter _) (PSlice.nodup_bin hn i)).2
      fun p => by simpa using fun hp => hsub p hp
  rw [List.length_eq_length_filter_add (· ∈ s.bin i), hperm.length_eq]
  simp

/-! ## The snapshot of a consistent state -/

/-- Bin `i` of the snapshot of `k`: its known and connected peers counted, the
connected ones listed as connected and the other known ones as disconnected. -/
def Kad.snapshotBin (k : Kad) (i : Nat) : BinInfo :=
  ⟨(k.knownPeers.bin i).length, (k.connectedPeers.bin i).length,
    (k.knownPeers.bin i).filter (· ∉ k.connectedPeers), k.connectedPeers.bin i⟩

section
variable {maxPO : Nat}

/-- In a consistent state the two walks of `marshal` never index out of range, and
leave in bin `i` the snapshot of that bin. -/
theorem Kad.Consistent.marshal_walks {k : Kad} (h : k.Consistent maxPO) :
    ∃ infos₁ infos, (k.connectedPeers.eachBin (infoVisit connectedBin)
        (some (List.replicate (maxPO + 1) ⟨0, 0, [], []⟩))).1 = some infos₁ ∧
      (k.knownPeers.eachBin (infoVisit knownBin) (some infos₁)).1 = some infos ∧
      infos.length = maxPO + 1 ∧ ∀ i ≤ maxPO, infos[i]? = some (k.snapshotBin i) := by
  have hc := h.connected_binned
  have hk := h.known_binned
  obtain ⟨infos₁, h₁, hlen₁, hget₁⟩ := foldl_updateInfo connectedBin k.connectedPeers.entriesDeep
    (List.replicate (maxPO + 1) ⟨0, 0, [], []⟩) fun e he => by
      rw [List.length_replicate, ← hc.length_bins]; exact lt_of_mem_entriesDeep he
  obtain ⟨infos₂, h₂, hlen₂, hget₂⟩ := foldl_updateInfo knownBin k.knownPeers.entriesDeep infos₁
    fun e he => by
      rw [hlen₁, List.length_replicate, ← hk.length_bins]; exact lt_of_mem_entriesDeep he
  refine ⟨infos₁, infos₂, by rw [eachBin_infoVisit, h₁], by rw [eachBin_infoVisit, h₂],
    by rw [hlen₂, hlen₁, List.length_replicate], fun i hi => ?_⟩
  -- a known peer of bin `i` is connected exactly when bin `i` lists it as connected
  have hdis : (k.knownPeers.bin i).filter (· ∉ k.connectedPeers.bin i) =
      (k.knownPeers.bin i).filter (· ∉ k.connectedPeers) :=
    List.filter_congr fun p hp =>
      decide_eq_decide.2 (by rw [hc.mem_iff_mem_bin, ← hk.bin_eq hp])
  rw [hget₂, hget₁, List.getElem?_replicate, if_pos (Nat.lt_succ_of_le hi)]
  simp only [Option.map_some', foldl_connectedBin, foldl_knownBin, map_fst_filter_entriesDeep,
    length_filter_entriesDeep, Nat.zero_add, List.nil_append, Kad.snapshotBin, hdis]

/-- Each bin of a consistent state's snapshot counts its connected peers and its other
known peers, each once. -/
theorem Kad.Consistent.snapshotBin_population {k : Kad} (h : k.Consistent maxPO) (i : Nat) :
    (k.snapshotBin i).binPopulation =
      (k.snapshotBin i).binConnected + (k.snapshotBin i).disconnectedPeers.length := by
  have hsub : ∀ p, p ∈ k.connectedPeers.bin i → p ∈ k.knownPeers.bin i := fun p hp => by
    rw [h.connected_binned.bin_eq hp, ← h.known_binned.mem_iff_mem_bin]
    exact h.connected_subset p (PSlice.mem_peers.2 ⟨i, hp⟩)
  have hdis : (k.knownPeers.bin i).filter (· ∉ k.connectedPeers) =
      (k.knownPeers.bin i).filter (· ∉ k.connectedPeers.bin i) :=
    List.filter_congr fun p hp =>
      decide_eq_decide.2 (by rw [h.connected_binned.mem_iff_mem_bin, ← h.known_binned.bin_eq hp])
  simp only [Kad.snapshotBin, hdis]
  exact length_bin_eq_add h.connected_binned.nodup h.known_binned.nodup hsub

/-- The bins of a slice of `n` bins, read one by one, count all its peers. -/
theorem sum_length_bin {s : PSlice} {n : Nat} (hn : s.bins.length = n) :
    ((List.range n).map fun i => (s.bin i).length).sum = s.length := by
  have hbins : (List.range n).map (fun i => (s.bin i).length) = s.bins.map List.length := by
    refine List.ext_getElem (by simp [hn]) fun i h₁ h₂ => ?_
    simp only [List.getElem_map, List.getElem_range, PSlice.bin, List.getD_eq_getElem?_getD]
    rw [List.getElem?_eq_getElem (by simpa [hn] using h₁), Option.getD_some]
  rw [hbins, ← List.length_flatten]
  rfl

end

/-- **The topology snapshot agrees with the state.** In every reachable state of a
kademlia with `MaxPO = 15`, `marshal` does not panic. It reports `Bin0` to `Bin15`,
bin `i` listing the connected peers of bin `i` as connected and the known peers of
bin `i` that are not connected as disconnected. Each bin's population is its
connected count plus its disconnected peers, and the bins add up to the reported
population and connected count. -/
theorem marshal_snapshot {k : Kad} (h : Reachable 15 k) :
    ∃ p, k.marshal 15 = some p ∧ p.bins.length = 16 ∧
      (∀ i < 16, p.bins[i]? = some ⟨(k.knownPeers.bin i).length, (k.connectedPeers.bin i).length,
          (k.knownPeers.bin i).filter (· ∉ k.connectedPeers), k.connectedPeers.bin i⟩) ∧
      (∀ b ∈ p.bins, b.binPopulation = b.binConnected + b.disconnectedPeers.length) ∧
      (p.bins.map (·.binPopulation)).sum = p.population ∧
      (p.bins.map (·.binConnected)).sum = p.connected := by
  have hk := h.consistent
  obtain ⟨infos₁, infos, hwalk₁, hwalk, hlen, hget⟩ := hk.marshal_walks
  -- the snapshot's bins are the 16 bins the walks leave
  have hbins : infos = (List.range 16).map k.snapshotBin :=
    List.ext_getElem? fun i => by
      by_cases hi : i < 16
      · rw [hget i (by omega), List.getElem?_map, List.getElem?_range hi]; rfl
      · rw [List.getElem?_eq_none (by omega), List.getElem?_eq_none (by simp; omega)]
  have hmarshal : k.marshal 15 = some ⟨k.base, k.knownPeers.length, k.connectedPeers.length,
      nnLowWatermark, k.neighborhoodDepth, infos⟩ := by
    simp only [Kad.marshal, hwalk₁, Option.bind_eq_bind, Option.some_bind, hwalk, hlen,
      if_pos (le_refl 16), List.take_of_length_le (le_of_eq hlen)]
    rfl
  refine ⟨_, hmarshal, hlen, fun i hi => hget i (by omega), fun b hb => ?_, ?_, ?_⟩
  · rw [hbins, List.mem_map] at hb
    obtain ⟨i, -, rfl⟩ := hb
    exact hk.snapshotBin_population i
  · dsimp only
    rw [hbins, List.map_map]
    exact sum_length_bin hk.known_binned.length_bins
  · dsimp only
    rw [hbins, List.map_map]
    exact sum_length_bin hk.connected_binned.length_bins

/-- The snapshot of a new kademlia that connected one peer. -/
theorem marshal_snapshot_connected :
    let k := ((Kad.new 15 (Address.ofHead 0) ⟨none, [], false, false, 0⟩).step 15
      (.connected (Address.ofHead 128) true 0)).1
    Reachable 15 k ∧
      ∃ p, k.marshal 15 = some p ∧ p.bins.length = 16 ∧
        (∀ i < 16, p.bins[i]? = some ⟨(k.knownPeers.bin i).length,
          (k.connectedPeers.bin i).length, (k.knownPeers.bin i).filter (· ∉ k.connectedPeers),
          k.connectedPeers.bin i⟩) ∧
        (∀ b ∈ p.bins, b.binPopulation = b.binConnected + b.disconnectedPeers.length) ∧
        (p.bins.map (·.binPopulation)).sum = p.population ∧
        (p.bins.map (·.binConnected)).sum = p.connected :=
  ⟨.step _ (.new _ _), marshal_snapshot (.step _ (.new _ _))⟩

end Voyager.Kademlia
