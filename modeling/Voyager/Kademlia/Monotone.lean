import Voyager.Kademlia.Invariant
import Mathlib.Data.List.Perm.Subperm

/-!
# Depth and saturation grow with the slices

`recalcDepth` sees a slice only through its bin sizes (`recalcDepth_eq_depthOfSizes`),
so it grows as peers join: in every reachable state a connection never lowers
`NeighborhoodDepth`, a disconnection never raises it, and a peer joining in a bin
below the depth leaves it where it is (`recalcDepth_monotone`).

`binSaturated` (`kademlia_test.go:1638`) reads the depth of the known peers and the
size of one connected bin, so both of its answers only grow with the two slices. With
the default saturation function, `Pick` and `Connected` then keep refusing a peer of a
bin they found oversaturated in every later state that has lost no known or connected
peer (`binSaturated_mono`). A slice `S` lies in `S'` when each bin of `S`, a set of
peers, lies in the same bin of `S'` (`PSlice.Included`).
-/

namespace Voyager.Kademlia
open Voyager.Infinity

namespace PSlice

/-- `S ⊆ S'` between two slices of one bin count: every peer of a bin of `S` is in the
same bin of `S'`. -/
structure Included (s s' : PSlice) : Prop where
  length_bins : s.bins.length = s'.bins.length
  bin_subset : ∀ i, s.bin i ⊆ s'.bin i

theorem Included.refl (s : PSlice) : s.Included s := ⟨rfl, fun _ => List.Subset.refl _⟩

/-- `Add` keeps every peer where it was. -/
theorem included_add (s : PSlice) (a : Address) (po : Nat) : s.Included (s.add a po) := by
  by_cases h : a ∈ s
  · simpa [add, h] using Included.refl s
  refine ⟨(length_bins_add s a po).symm, fun i q hq => ?_⟩
  by_cases hpo : po < s.bins.length
  · rw [bin_add_of_not_mem h hpo]
    split <;> simp [hq]
  · simpa [add, h, List.modify_eq_self (Nat.le_of_not_lt hpo)] using hq

theorem nodup_bin {s : PSlice} (h : s.peers.Nodup) (i : Nat) : (s.bin i).Nodup := by
  unfold bin
  rw [List.getD_eq_getElem?_getD]
  cases hi : s.bins[i]? with
  | none => exact List.nodup_nil
  | some b => exact (List.nodup_flatten.1 h).1 b (List.getElem?_mem hi)

theorem Included.length_bin_le {s s' : PSlice} (h : s.Included s') (hn : s.peers.Nodup) (i : Nat) :
    (s.bin i).length ≤ (s'.bin i).length :=
  ((nodup_bin hn i).subperm (h.bin_subset i)).length_le

/-- A slice holding each peer once has no bin larger than the same bin of a slice
that includes it. -/
theorem Included.sizes_le {s s' : PSlice} (h : s.Included s') (hn : s.peers.Nodup) :
    List.Forall₂ (· ≤ ·) s.sizes s'.sizes := by
  refine List.forall₂_iff_get.2 ⟨by simp [sizes, h.length_bins], fun i h₁ h₂ => ?_⟩
  have hb := h.length_bin_le hn i
  simp only [bin, List.getD_eq_getElem?_getD] at hb
  simp only [sizes, List.length_map] at h₁ h₂
  simpa [sizes, List.getElem?_eq_getElem h₁, List.getElem?_eq_getElem h₂] using hb

theorem countP_entriesDeepFrom (b : Nat) : ∀ (i : Nat) (bs : List (List Address)),
    (entriesDeepFrom i bs).countP (·.2 = b) = if i ≤ b then (bs.getD (b - i) []).length else 0
  | _, [] => by simp [entriesDeepFrom]
  | i, x :: bs => by
    rw [entriesDeepFrom, List.countP_append, countP_entriesDeepFrom b (i + 1) bs, List.countP_map]
    rcases Nat.lt_trichotomy i b with hlt | rfl | hgt
    · rw [if_pos (by omega), if_pos hlt.le, show b - i = b - (i + 1) + 1 by omega,
        List.getD_cons_succ, List.countP_eq_zero.2 (by simp [hlt.ne]), Nat.add_zero]
    · rw [if_neg (by omega), if_pos le_rfl, Nat.sub_self, List.getD_cons_zero,
        List.countP_eq_length.2 (by simp), Nat.zero_add]
    · rw [if_neg (by omega), if_neg (by omega), List.countP_eq_zero.2 (by simp [hgt.ne'])]

end PSlice

theorem foldl_binCount (b : Nat) : ∀ (l : List (Address × Nat)) (n : Nat),
    l.foldl (fun n e => (binCount b n e.1 e.2).1) n = n + l.countP (·.2 = b)
  | [], _ => rfl
  | (p, po) :: l, n => by
    rw [List.foldl_cons, foldl_binCount b l, List.countP_cons]
    simp only [binCount]
    split <;> simp_all
    omega

/-- `binSaturated` by the depth of the known peers and the size of bin `b` of the
connected peers. -/
theorem binSaturated_eq (b : Nat) (known connected : PSlice) :
    binSaturated b known connected =
      if recalcDepth known ≤ b then (false, false)
      else (decide (saturationPeers ≤ (connected.bin b).length),
        decide (overSaturationPeers ≤ (connected.bin b).length)) := by
  have hsize : (connected.eachBin (binCount b) 0).1 = (connected.bin b).length := by
    rw [PSlice.eachBin, iterate_of_continue (fun _ _ _ => rfl), foldl_binCount, Nat.zero_add,
      PSlice.entriesDeep, PSlice.countP_entriesDeepFrom, if_pos (Nat.zero_le _), Nat.sub_zero]
    rfl
  unfold binSaturated
  rw [hsize]

theorem binSaturated_included (b : Nat) {known known' connected connected' : PSlice}
    (hk : known.Included known') (hkn : known.peers.Nodup)
    (hc : connected.Included connected') (hcn : connected.peers.Nodup) :
    ((binSaturated b known connected).1 = true → (binSaturated b known' connected').1 = true) ∧
      ((binSaturated b known connected).2 = true → (binSaturated b known' connected').2 = true) := by
  have hd : recalcDepth known ≤ recalcDepth known' := by
    rw [recalcDepth_eq_depthOfSizes, recalcDepth_eq_depthOfSizes]
    exact depthOfSizes_mono (hk.sizes_le hkn)
  have hs := hc.length_bin_le hcn b
  rw [binSaturated_eq, binSaturated_eq]
  split_ifs <;> simp only [decide_eq_true_eq, imp_self, and_self, Bool.false_eq_true, false_imp_iff]
  · omega
  · exact ⟨fun h => le_trans h hs, fun h => le_trans h hs⟩

section
variable {maxPO : Nat}

namespace Kad

/-- `Pick` refuses a peer exactly when the node is no bootnode and the peer's bin is
oversaturated. -/
theorem pick_eq_false {k : Kad} {peer : Address} :
    k.pick maxPO peer = false ↔
      (!k.bootnode && (k.saturationFunc (proximity maxPO k.base peer) k.knownPeers
        k.connectedPeers).2) = true := by
  unfold pick; cases k.bootnode <;> simp

/-- `Connected` turns a peer away as oversaturated exactly when `Pick` refuses it. -/
theorem connectedIn_oversaturated {k : Kad} {peer : Address} {sent : Bool} {now : Int} :
    (k.connectedIn maxPO peer sent now).2.2 = some .oversaturated ↔
      (!k.bootnode && (k.saturationFunc (proximity maxPO k.base peer) k.knownPeers
        k.connectedPeers).2) = true := by
  unfold connectedIn connected
  split
  · rename_i h
    simpa using h
  · rename_i h
    simp only [Bool.not_eq_true] at h
    rw [h]; split <;> simp

end Kad

namespace Kad.Consistent
variable {k : Kad}

/-- `connected` of a new peer never lowers the depth, and a peer joining below it leaves
it alone; after a failed announce, the `Disconnected` it runs finds nothing to remove. -/
theorem depth_connected (h : k.Consistent maxPO) {addr : Address} (ha : addr ∉ k.connectedPeers)
    (sent : Bool) (now : Int) :
    k.depth ≤ (k.connected maxPO addr sent now).1.depth ∧
      (proximity maxPO k.base addr < k.depth →
        (k.connected maxPO addr sent now).1.depth = k.depth) := by
  unfold Kad.connected
  split
  · dsimp only [Kad.join]
    rw [h.depth_eq]
    exact recalcDepth_add _ _ _
  · dsimp only [Kad.disconnected]
    rw [PSlice.remove_of_not_mem ha, ← h.depth_eq]
    exact ⟨le_refl _, fun _ => rfl⟩

/-- `Disconnected` never raises the depth. -/
theorem depth_disconnected (h : k.Consistent maxPO) (peer : Address) (now : Int) :
    (k.disconnected maxPO peer now).1.depth ≤ k.depth := by
  dsimp only [Kad.disconnected]
  rw [h.depth_eq]
  exact recalcDepth_remove_le _ _ _

end Kad.Consistent

/-- **The depth only grows as peers join.** On every slice, adding a peer never lowers
`recalcDepth` and adding one below it leaves it unchanged; so in every reachable state
`connected` of a peer not yet connected never lowers `NeighborhoodDepth`, leaves it
unchanged for a peer whose proximity is below it, and `Disconnected` never raises it. -/
theorem recalcDepth_monotone (s : PSlice) (p : Address) (po : Nat) {k : Kad}
    (hk : Reachable maxPO k) (addr : Address) (ha : addr ∉ k.connectedPeers) (sent : Bool)
    (peer : Address) (now : Int) :
    (recalcDepth s ≤ recalcDepth (s.add p po) ∧
      (po < recalcDepth s → recalcDepth (s.add p po) = recalcDepth s)) ∧
    k.neighborhoodDepth ≤ (k.connected maxPO addr sent now).1.neighborhoodDepth ∧
    (k.disconnected maxPO peer now).1.neighborhoodDepth ≤ k.neighborhoodDepth ∧
    (proximity maxPO k.base addr < k.neighborhoodDepth →
      (k.connected maxPO addr sent now).1.neighborhoodDepth = k.neighborhoodDepth) :=
  have hc := hk.consistent
  ⟨recalcDepth_add s p po, (hc.depth_connected ha sent now).1, hc.depth_disconnected peer now,
    (hc.depth_connected ha sent now).2⟩

/-- A node with peers connected in bins 0 and 2, at a peer of bin 1. -/
theorem recalcDepth_monotone_joined :
    let k := (((Kad.new 3 (Address.ofHead 0) ⟨none, [], false, false, 0⟩).step 3
      (.connected (Address.ofHead 128) true 0)).1.step 3 (.connected (Address.ofHead 32) true 0)).1
    let s := PSlice.new 4
    Reachable 3 k ∧ Address.ofHead 64 ∉ k.connectedPeers ∧
      ((recalcDepth s ≤ recalcDepth (s.add (Address.ofHead 1) 2) ∧
        (2 < recalcDepth s → recalcDepth (s.add (Address.ofHead 1) 2) = recalcDepth s)) ∧
      k.neighborhoodDepth ≤ (k.connected 3 (Address.ofHead 64) true 0).1.neighborhoodDepth ∧
      (k.disconnected 3 (Address.ofHead 128) 0).1.neighborhoodDepth ≤ k.neighborhoodDepth ∧
      (proximity 3 k.base (Address.ofHead 64) < k.neighborhoodDepth →
        (k.connected 3 (Address.ofHead 64) true 0).1.neighborhoodDepth = k.neighborhoodDepth)) :=
  ⟨.step _ (.step _ (.new _ _)), by decide,
    recalcDepth_monotone _ _ _ (.step _ (.step _ (.new _ _))) _ (by decide) _ _ _⟩

/-- **Saturation only grows with the slices.** Each answer of `binSaturated` that holds
for slices holding each peer once holds for slices that include them; so with the
default saturation function, a peer that `Pick` refuses, or that `Connected` turns
away as oversaturated, in a reachable state is refused in every state with the same
base address and mode that has kept all its known and connected peers. -/
theorem binSaturated_mono (b : Nat) {known known' connected connected' : PSlice}
    (hk : known.Included known') (hkn : known.peers.Nodup)
    (hc : connected.Included connected') (hcn : connected.peers.Nodup)
    {k k' : Kad} (hr : Reachable maxPO k) (hsat : k.saturationFunc = binSaturated)
    (hsat' : k'.saturationFunc = binSaturated) (hbase : k'.base = k.base)
    (hboot : k'.bootnode = k.bootnode) (hknown : k.knownPeers.Included k'.knownPeers)
    (hconn : k.connectedPeers.Included k'.connectedPeers) (peer : Address) (sent sent' : Bool)
    (now now' : Int) :
    (((binSaturated b known connected).1 = true → (binSaturated b known' connected').1 = true) ∧
      ((binSaturated b known connected).2 = true → (binSaturated b known' connected').2 = true)) ∧
    (k.pick maxPO peer = false → k'.pick maxPO peer = false) ∧
    ((k.connectedIn maxPO peer sent now).2.2 = some .oversaturated →
      (k'.connectedIn maxPO peer sent' now').2.2 = some .oversaturated) := by
  have hcon := hr.consistent
  have hsl := binSaturated_included (proximity maxPO k.base peer) hknown hcon.known_binned.nodup
    hconn hcon.connected_binned.nodup
  -- both refusals read the same flag, which only grows from `k` to `k'`
  have key : (!k.bootnode && (k.saturationFunc (proximity maxPO k.base peer) k.knownPeers
      k.connectedPeers).2) = true → (!k'.bootnode && (k'.saturationFunc
        (proximity maxPO k'.base peer) k'.knownPeers k'.connectedPeers).2) = true := by
    rw [hsat, hsat', hbase, hboot, Bool.and_eq_true, Bool.and_eq_true]
    exact fun ⟨h₁, h₂⟩ => ⟨h₁, hsl.2 h₂⟩
  exact ⟨binSaturated_included b hk hkn hc hcn,
    fun h => Kad.pick_eq_false.2 (key (Kad.pick_eq_false.1 h)),
    fun h => Kad.connectedIn_oversaturated.2 (key (Kad.connectedIn_oversaturated.1 h))⟩

/-- `connected` for two peers of bin 1 and sixteen of bin 0, on a node with `MaxPO = 1`:
the depth is 1, and bin 0 is saturated and oversaturated. -/
def fullBinRun : List Call :=
  [.connected (Address.ofHead 64) true 0, .connected (Address.ofHead 32) true 0] ++
    (List.range 16).map fun i => .connected (Address.ofHead (UInt8.ofNat (128 + i))) true 0

/-- The node after `fullBinRun`. -/
def Kad.fullBin : Kad :=
  ((Kad.new 1 (Address.ofHead 0) ⟨none, [], false, false, 0⟩).run 1 fullBinRun).1

/-- A node whose bin 0 is oversaturated, against the state after one more peer of bin 0
joined: `Pick` refuses a peer of bin 0 in the first, and so in the second. -/
theorem binSaturated_mono_oversaturated :
    let k := Kad.fullBin
    let k' := k.join 1 (Address.ofHead 144)
    k.pick 1 (Address.ofHead 150) = false ∧
      ((((binSaturated 0 k.knownPeers k.connectedPeers).1 = true →
          (binSaturated 0 k'.knownPeers k'.connectedPeers).1 = true) ∧
        ((binSaturated 0 k.knownPeers k.connectedPeers).2 = true →
          (binSaturated 0 k'.knownPeers k'.connectedPeers).2 = true)) ∧
      (k.pick 1 (Address.ofHead 150) = false → k'.pick 1 (Address.ofHead 150) = false) ∧
      ((k.connectedIn 1 (Address.ofHead 150) true 0).2.2 = some .oversaturated →
        (k'.connectedIn 1 (Address.ofHead 150) false 0).2.2 = some .oversaturated)) :=
  have hr : Reachable 1 Kad.fullBin := by unfold Kad.fullBin; exact (Reachable.new _ _).run _ _
  have hk := hr.consistent
  have hknown : Kad.fullBin.knownPeers.Included (Kad.fullBin.join 1 (Address.ofHead 144)).knownPeers := by
    dsimp only [Kad.join]; exact PSlice.included_add _ _ _
  have hconn : Kad.fullBin.connectedPeers.Included
      (Kad.fullBin.join 1 (Address.ofHead 144)).connectedPeers := by
    dsimp only [Kad.join]; exact PSlice.included_add _ _ _
  have hsat : Kad.fullBin.saturationFunc = binSaturated := rfl
  have hsat' : (Kad.fullBin.join 1 (Address.ofHead 144)).saturationFunc = binSaturated := by
    dsimp only [Kad.join]; exact hsat
  have hbase : (Kad.fullBin.join 1 (Address.ofHead 144)).base = Kad.fullBin.base := by
    dsimp only [Kad.join]
  have hboot : (Kad.fullBin.join 1 (Address.ofHead 144)).bootnode = Kad.fullBin.bootnode := by
    dsimp only [Kad.join]
  ⟨by decide, binSaturated_mono 0 hknown hk.known_binned.nodup hconn hk.connected_binned.nodup hr hsat
    hsat' hbase hboot hknown hconn _ _ _ _ _⟩

end

end Voyager.Kademlia
