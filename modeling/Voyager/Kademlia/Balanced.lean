import Voyager.Kademlia.Invariant

/-!
# One balanced pass

The balanced pass of `manage` (`pkg/kademlia/kademlia_test.go:1370-1471`) looks, for
every pseudo-address `P` of bin `i`, at the connected peer closest to `P`; when it
shares fewer than `i + bitSuffixLength + 1` leading bits with `P`, it dials the known
peer closest to `P` that is not backed off. When every dial of the pass succeeds and
the clock stands still, a pseudo-address that some known peer not backed off reaches
is reached by a connected peer once the pass ends (`balancedPass_reaches`).

Two facts carry the proof. A peer no farther from `P` shares at least as long a
prefix with it (`commonPrefix_le_of_distance_le`), so the closest eligible known peer
reaches `P` when any eligible known peer does. And a peer known and not backed off at
the start of the pass is, at any point of it, still eligible or connected: only a
successful dial backs a peer off, and it connects that peer (`PassInv.sanctioned`).
-/

namespace Voyager.Kademlia
open Voyager.Infinity

/-- A dial at time `t` at which every address-book lookup succeeds and every connect
reaches the requested overlay and announces it. -/
structure Dial.Smooth (t : Int) (d : Dial) : Prop where
  now : d.now = t
  lookup : ∀ p, ∃ u, d.lookup p = .found u
  reply : ∀ p, d.reply p = .ok p
  announced : d.announced = true

/-- A smooth dial connects the peer and backs it off for `shortRetry`. -/
theorem manageDial_smooth {maxPO : Nat} {t : Int} {d : Dial} (hd : d.Smooth t) (k : Kad)
    (peer : Address) (po : Nat) :
    (k.manageDial maxPO peer po d).1 = { k with
      waitNext := Function.update k.waitNext peer (some ⟨t + shortRetry, 0⟩)
      connectedPeers := k.connectedPeers.add peer po
      depth := recalcDepth (k.connectedPeers.add peer po) } := by
  simp [Kad.manageDial, Kad.connect, Kad.connectCore, Kad.connectDrops, Kad.announce,
    Kad.disconnectAll, Kad.dialed, hd.reply, hd.announced, hd.now]

/-- Some connected peer shares at least `target` leading bits with `pseudo`. -/
def Reached (k : Kad) (pseudo : Address) (target : Int) : Prop :=
  ∃ c ∈ k.connectedPeers, target ≤ (extendedProximity c pseudo : Int)

theorem Reached.mono {k k' : Kad} {pseudo : Address} {target : Int} (h : Reached k pseudo target)
    (hm : ∀ p ∈ k.connectedPeers, p ∈ k'.connectedPeers) : Reached k' pseudo target :=
  let ⟨c, hc, hge⟩ := h; ⟨c, hm c hc, hge⟩

/-- What pseudo-address `pseudo` of bin `i` asks of a state `k` reached by a pass from
`k₀` at time `t`: when a peer known and not backed off in `k₀` reaches the bin's
target, a connected peer of `k` does. -/
def Covered (k₀ : Kad) (t : Int) (i : Nat) (pseudo : Address) (k : Kad) : Prop :=
  (∃ q ∈ k₀.knownPeers, k₀.sanctioned t q = false ∧
      (i : Int) + k₀.bitSuffixLength + 1 ≤ extendedProximity q pseudo) →
    Reached k pseudo ((i : Int) + k₀.bitSuffixLength + 1)

theorem Covered.mono {k₀ k k' : Kad} {t : Int} {i : Nat} {pseudo : Address}
    (h : Covered k₀ t i pseudo k) (hm : ∀ p ∈ k.connectedPeers, p ∈ k'.connectedPeers) :
    Covered k₀ t i pseudo k' :=
  fun hq => (h hq).mono hm

section
variable {maxPO : Nat} {k₀ : Kad} {t : Int}

/-- What a balanced pass from `k₀` at time `t` keeps while every dial is smooth. -/
structure PassInv (maxPO : Nat) (k₀ : Kad) (t : Int) (k : Kad) : Prop where
  base : k.base = k₀.base
  bitSuffixLength : k.bitSuffixLength = k₀.bitSuffixLength
  known : k.knownPeers = k₀.knownPeers
  nonempty : ∃ p, p ∈ k.connectedPeers
  length_bins : k.connectedPeers.bins.length = maxPO + 1
  sanctioned : ∀ q, k₀.sanctioned t q = false → k.sanctioned t q = true → q ∈ k.connectedPeers

namespace PassInv
variable {k : Kad}

/-- A smooth dial of `peer` keeps the pass invariant and connects `peer`. -/
theorem manageDial (h : PassInv maxPO k₀ t k) {d : Dial} (hd : d.Smooth t) (peer : Address) :
    let k' := (k.manageDial maxPO peer (proximity maxPO k.base peer) d).1
    PassInv maxPO k₀ t k' ∧ peer ∈ k'.connectedPeers ∧
      ∀ p ∈ k.connectedPeers, p ∈ k'.connectedPeers := by
  have hpo : proximity maxPO k.base peer < k.connectedPeers.bins.length :=
    h.length_bins ▸ Nat.lt_succ_of_le (proximity_le _ _ _)
  have hmem := fun p => PSlice.mem_add (a := peer) (b := p) hpo
  simp only [manageDial_smooth hd]
  refine ⟨⟨h.base, h.bitSuffixLength, h.known, ?_, by rw [PSlice.length_bins_add, h.length_bins],
    fun q hq hs => ?_⟩, (hmem peer).2 (.inl rfl), fun p hp => (hmem p).2 (.inr hp)⟩
  · exact ⟨peer, (hmem peer).2 (.inl rfl)⟩
  · by_cases hqp : q = peer
    · exact (hmem q).2 (.inl hqp)
    · refine (hmem q).2 (.inr (h.sanctioned q hq ?_))
      simpa [Kad.sanctioned, Function.update_noteq hqp] using hs

/-- A peer known and not backed off at the start of the pass is connected, or still
known and eligible for `closestPeer` under the pass's sanction. -/
theorem connected_or_eligible (h : PassInv maxPO k₀ t k) {q : Address} (hq : q ∈ k₀.knownPeers)
    (hs : k₀.sanctioned t q = false) :
    q ∈ k.connectedPeers ∨ (q ∈ k.knownPeers ∧ Eligible (k.sanctioned t) [] q) := by
  by_cases hks : k.sanctioned t q = true
  · exact .inl (h.sanctioned q hs hks)
  · exact .inr ⟨h.known ▸ hq, List.not_mem_nil _, by simpa using hks⟩

/-- One pseudo-address of bin `i`: the pass goes on to the next one with `pseudo`
covered, or breaks out of the bin with every pseudo-address covered. -/
theorem balancedVisit (h : PassInv maxPO k₀ t k) {d : Dial} (hd : d.Smooth t) (i : Nat)
    (pseudo : Address) :
    let r := k.balancedVisit maxPO i pseudo d
    PassInv maxPO k₀ t r.1 ∧ (∀ p ∈ k.connectedPeers, p ∈ r.1.connectedPeers) ∧
      ((r.2.2 = .next ∧ Covered k₀ t i pseudo r.1) ∨
        (r.2.2 = .breakBin ∧ ∀ P, Covered k₀ t i P r.1)) := by
  have hsame : ∀ p ∈ k.connectedPeers, p ∈ k.connectedPeers := fun _ hp => hp
  have htarget : (i : Int) + k.bitSuffixLength + 1 = (i : Int) + k₀.bitSuffixLength + 1 := by
    rw [h.bitSuffixLength]
  obtain ⟨p₀, hp₀⟩ := h.nonempty
  obtain ⟨cc, hcc⟩ : ∃ cc, closestPeer k.connectedPeers pseudo (fun _ => false) [] = some cc :=
    Option.ne_none_iff_exists'.1 fun hn =>
    closestPeer_eq_none.1 hn p₀ hp₀ ⟨List.not_mem_nil _, rfl⟩
  unfold Kad.balancedVisit
  rw [hcc]; dsimp only
  by_cases hfar : (extendedProximity cc pseudo : Int) < i + k.bitSuffixLength + 1
  case neg =>
    -- the closest connected peer already reaches `pseudo`
    rw [if_neg hfar]
    exact ⟨h, hsame, .inl ⟨rfl, fun _ => ⟨cc, (closestPeer_some hcc).1, by omega⟩⟩⟩
  rw [if_pos hfar, hd.now]
  cases hpeer : closestPeer k.knownPeers pseudo (k.sanctioned t) [] with
  | none =>
    -- every known peer is backed off, so those not backed off at the start are connected
    refine ⟨h, hsame, .inr ⟨rfl, fun P ⟨q, hq, hs, hge⟩ => ⟨q, ?_, hge⟩⟩⟩
    rcases h.connected_or_eligible hq hs with hc | ⟨hk, hel⟩
    · exact hc
    · exact absurd hel (closestPeer_eq_none.1 hpeer q hk)
  | some peer =>
  dsimp only
  obtain ⟨-, -, hmin⟩ := closestPeer_some hpeer
  -- a start peer reaching the target is connected, or `peer`, no farther, reaches it too
  have hkey : ∀ q ∈ k₀.knownPeers, k₀.sanctioned t q = false →
      (i : Int) + k₀.bitSuffixLength + 1 ≤ extendedProximity q pseudo →
      Reached k pseudo ((i : Int) + k₀.bitSuffixLength + 1) ∨
        (i : Int) + k₀.bitSuffixLength + 1 ≤ extendedProximity peer pseudo := by
    intro q hq hs hge
    rcases h.connected_or_eligible hq hs with hc | ⟨hk, hel⟩
    · exact .inl ⟨q, hc, hge⟩
    · have := commonPrefix_le_of_distance_le (hmin q hk hel)
      exact .inr (by omega)
  by_cases hconn : peer ∈ k.connectedPeers
  case pos =>
    rw [if_pos hconn]
    refine ⟨h, hsame, .inl ⟨rfl, fun ⟨q, hq, hs, hge⟩ => ?_⟩⟩
    rcases hkey q hq hs hge with hr | hr
    · exact hr
    · exact ⟨peer, hconn, hr⟩
  rw [if_neg hconn]
  by_cases hshort : (extendedProximity peer pseudo : Int) < i + k.bitSuffixLength + 1
  case pos =>
    rw [if_pos hshort]
    refine ⟨h, hsame, .inl ⟨rfl, fun ⟨q, hq, hs, hge⟩ => ?_⟩⟩
    rcases hkey q hq hs hge with hr | hr
    · exact hr
    · omega
  obtain ⟨u, hu⟩ := hd.lookup peer
  rw [if_neg hshort, hu]; dsimp only
  obtain ⟨h', hpeer', hmono⟩ := h.manageDial hd peer
  exact ⟨h', hmono, .inl ⟨rfl, fun _ => ⟨peer, hpeer', by omega⟩⟩⟩

theorem balancedRow {dials : Nat → Dial} (hd : ∀ j, (dials j).Smooth t) (i : Nat) :
    ∀ (row : List Address) {k : Kad} (j : Nat), PassInv maxPO k₀ t k →
      let r := balancedRow maxPO i dials k j row
      PassInv maxPO k₀ t r.1 ∧ (∀ p ∈ k.connectedPeers, p ∈ r.1.connectedPeers) ∧ r.2.2 = none ∧
        ∀ P ∈ row, Covered k₀ t i P r.1
  | [], _, _, h => ⟨h, fun _ hp => hp, rfl, by simp⟩
  | pseudo :: rest, k, j, h => by
    obtain ⟨hv, hmono, hflow⟩ := h.balancedVisit (hd j) i pseudo
    unfold Voyager.Kademlia.balancedRow; dsimp only
    rcases hflow with ⟨hnext, hcov⟩ | ⟨hbreak, hcov⟩
    · rw [hnext]
      obtain ⟨h', hmono', hnone, hrest⟩ := balancedRow hd i rest (j + 1) hv
      exact ⟨h', fun p hp => hmono' p (hmono p hp), hnone,
        List.forall_mem_cons.2 ⟨hcov.mono hmono', hrest⟩⟩
    · rw [hbreak]
      exact ⟨hv, hmono, rfl, fun P _ => hcov P⟩

theorem balancedRows {dials : Nat → Nat → Dial} (hd : ∀ i j, (dials i j).Smooth t) :
    ∀ (rows : List (List Address)) {k : Kad} (i : Nat), PassInv maxPO k₀ t k →
      let r := balancedRows maxPO dials k i rows
      PassInv maxPO k₀ t r.1 ∧ (∀ p ∈ k.connectedPeers, p ∈ r.1.connectedPeers) ∧
        ∀ n row, rows[n]? = some row → ∀ P ∈ row, Covered k₀ t (i + n) P r.1
  | [], _, _, h => ⟨h, fun _ hp => hp, by simp⟩
  | row :: rows, k, i, h => by
    obtain ⟨h₁, hmono₁, hnone, hcov₁⟩ := balancedRow (hd i) i row 0 h
    unfold Voyager.Kademlia.balancedRows; dsimp only
    rw [hnone]
    obtain ⟨h₂, hmono₂, hcov₂⟩ := balancedRows hd rows (i + 1) h₁
    refine ⟨h₂, fun p hp => hmono₂ p (hmono₁ p hp), fun n r hr => ?_⟩
    cases n with
    | zero =>
      rw [List.getElem?_cons_zero, Option.some_inj] at hr
      exact hr ▸ fun P hP => (hcov₁ P hP).mono hmono₂
    | succ n =>
      rw [List.getElem?_cons_succ] at hr
      rw [show i + (n + 1) = i + 1 + n by omega]; exact hcov₂ n r hr

end PassInv

/-- After one balanced pass from a reachable state with `bitSuffixLength ≥ 1` and a
connected peer, in which every address-book lookup succeeds, every connect reaches the
requested overlay and the clock stands still at `t`: for every bin `i` and suffix `j`
such that a known peer not backed off at the start shares at least
`i + bitSuffixLength + 1` leading bits with pseudo-address `P[i][j]`, so does the
connected peer closest to `P[i][j]`. -/
theorem balancedPass_reaches {k : Kad} (hk : Reachable maxPO k) (hbsl : 1 ≤ k.bitSuffixLength)
    (hconn : 0 < k.connectedPeers.length) {dials : Nat → Nat → Dial}
    (hd : ∀ i j, (dials i j).Smooth t) :
    let k' := (k.balancedPass maxPO dials).1
    ∀ i < maxPO + 1, ∀ j < 2 ^ k.bitSuffixLength.toNat,
      let P := pseudoAddress k.base k.bitSuffixLength.toNat i j
      (∃ q ∈ k.knownPeers, k.sanctioned t q = false ∧
          (i : Int) + k.bitSuffixLength + 1 ≤ extendedProximity q P) →
        ∃ c, closestPeer k'.connectedPeers P (fun _ => false) [] = some c ∧
          (i : Int) + k.bitSuffixLength + 1 ≤ extendedProximity c P := by
  intro k' i hi j hj P hq
  have hc := hk.consistent
  obtain ⟨p₀, hp₀⟩ := List.exists_mem_of_length_pos hconn
  have h₀ : PassInv maxPO k t k :=
    ⟨rfl, rfl, rfl, ⟨p₀, hp₀⟩, hc.connected_binned.length_bins, fun _ hs hs' => by simp_all⟩
  obtain ⟨-, -, hcov⟩ := PassInv.balancedRows hd k.commonBinPrefixes 0 h₀
  simp only [Nat.zero_add] at hcov
  have hrow : k.commonBinPrefixes[i]? =
      some ((List.range (2 ^ k.bitSuffixLength.toNat)).map (pseudoAddress k.base k.bitSuffixLength.toNat i)) := by
    rw [hc.prefixes, if_pos (by omega), generateCommonBinPrefixes, List.getElem?_map,
      List.getElem?_range hi]
    rfl
  obtain ⟨c₀, hc₀, hge⟩ := hcov i _ hrow P (List.mem_map.2 ⟨j, List.mem_range.2 hj, rfl⟩) hq
  obtain ⟨c, hc'⟩ : ∃ c, closestPeer k'.connectedPeers P (fun _ => false) [] = some c :=
    Option.ne_none_iff_exists'.1 fun hn =>
      closestPeer_eq_none.1 hn c₀ hc₀ ⟨List.not_mem_nil _, rfl⟩
  have hle := commonPrefix_le_of_distance_le
    ((closestPeer_some hc').2.2 c₀ hc₀ ⟨List.not_mem_nil _, rfl⟩)
  exact ⟨c, hc', by omega⟩

/-- A node with `bitSuffixLength` 1, connected to `ofHead 128`, which reaches
pseudo-address `10…` of bin 0 but not `11…`, and knowing `ofHead 192`, which reaches
`11…`: the pass must dial `ofHead 192`. -/
theorem balancedPass_reaches_connected :
    let k := (((Kad.new 15 (Address.ofHead 0) ⟨none, [], false, false, 1⟩).step 15
      (.connected (Address.ofHead 128) true 0)).1.step 15 (.addPeers [Address.ofHead 192])).1
    let dials : Nat → Nat → Dial := fun _ _ => ⟨0, fun _ => .found ⟨[]⟩, fun p => .ok p, true, false⟩
    (Address.ofHead 192 ∈ k.knownPeers ∧ Address.ofHead 192 ∉ k.connectedPeers) ∧
    (Reachable 15 k ∧ 1 ≤ k.bitSuffixLength ∧ 0 < k.connectedPeers.length ∧
        ∀ i j, (dials i j).Smooth 0) ∧
      let k' := (k.balancedPass 15 dials).1
      ∀ i < 15 + 1, ∀ j < 2 ^ k.bitSuffixLength.toNat,
        let P := pseudoAddress k.base k.bitSuffixLength.toNat i j
        (∃ q ∈ k.knownPeers, k.sanctioned 0 q = false ∧
            (i : Int) + k.bitSuffixLength + 1 ≤ extendedProximity q P) →
          ∃ c, closestPeer k'.connectedPeers P (fun _ => false) [] = some c ∧
            (i : Int) + k.bitSuffixLength + 1 ≤ extendedProximity c P :=
  ⟨⟨by decide, by decide⟩,
    ⟨.step _ (.step _ (.new _ _)), by decide, by decide,
      fun _ _ => ⟨rfl, fun _ => ⟨_, rfl⟩, fun _ => rfl, rfl⟩⟩,
    balancedPass_reaches (.step _ (.step _ (.new _ _))) (by decide) (by decide)
      (fun _ _ => ⟨rfl, fun _ => ⟨_, rfl⟩, fun _ => rfl, rfl⟩)⟩

/-! ## `IsBalanced` -/

theorem Kad.Consistent.length_commonBinPrefixes {k : Kad} (h : k.Consistent maxPO) :
    k.commonBinPrefixes.length = maxPO + 1 := by
  rw [h.prefixes]; split <;> simp [generateCommonBinPrefixes]

/-- **`IsBalanced(MaxBins)` indexes out of range.** The guard
`int(bin) > len(k.commonBinPrefixes)` lets `bin = MaxBins` through, and in every
reachable state `commonBinPrefixes` has `MaxBins` entries, so `IsBalanced` reads
`commonBinPrefixes[MaxBins]`, past its last bin, where Go panics. -/
theorem isBalanced_maxBins {k : Kad} (hk : Reachable maxPO k) (hpo : maxPO < 255) :
    k.isBalanced (UInt8.ofNat (maxPO + 1)) = none := by
  have hlen := hk.consistent.length_commonBinPrefixes
  have hb : (UInt8.ofNat (maxPO + 1)).toNat = maxPO + 1 :=
    UInt8.toNat_ofNat_of_lt (by simp only [UInt8.size]; omega)
  unfold Kad.isBalanced
  rw [hb, if_neg (by omega), List.getElem?_eq_none (by omega)]

/-- With `MaxPO = 31`, `IsBalanced(32)` on a fresh node. -/
theorem isBalanced_maxBins_fresh :
    let k := Kad.new 31 (Address.ofHead 0) ⟨none, [], false, false, 0⟩
    Reachable 31 k ∧ 31 < 255 ∧ k.isBalanced (UInt8.ofNat (31 + 1)) = none :=
  ⟨.new _ _, by decide, isBalanced_maxBins (.new _ _) (by decide)⟩

end

end Voyager.Kademlia
