import Voyager.Kademlia.Closest
import Voyager.Kademlia.Manage

/-!
# The state invariant of kademlia

Every state a run reaches keeps both peer slices binned by proximity order to the
base address, its connected peers known and its cached depth current
(`Kad.Consistent`). The sites that change `connectedPeers` or `knownPeers` are
`AddPeers`, `connected`, `Disconnected` (also from `ClosestPeer`), the dials of both
manage passes (`manageDial`) and the removal of a peer the address book lacks
(`dropMissing`); each keeps the invariant. A pass that stops on a missing
address-book entry names a peer that is not connected (`MissingNotConnected`), so
`dropMissing` cannot strand a connected peer. The bin-filling pass walks a snapshot of
the known peers, and its lemma carries the entries still to visit.
-/

namespace Voyager.Kademlia
open Voyager.Infinity

/-- What every reachable state keeps. -/
structure Kad.Consistent (maxPO : Nat) (k : Kad) : Prop where
  known_binned : k.knownPeers.Binned (proximity maxPO k.base) (maxPO + 1)
  connected_binned : k.connectedPeers.Binned (proximity maxPO k.base) (maxPO + 1)
  connected_subset : ∀ p ∈ k.connectedPeers, p ∈ k.knownPeers
  depth_eq : k.depth = recalcDepth k.connectedPeers
  prefixes : k.commonBinPrefixes =
    if 0 < k.bitSuffixLength then generateCommonBinPrefixes k.base k.bitSuffixLength.toNat (maxPO + 1)
    else List.replicate (maxPO + 1) []

/-- A pass error that names a peer missing from the address book names one that is
not connected. -/
def MissingNotConnected (k : Kad) : Option (KadError × Option Address) → Prop
  | some (.missingAddressBookEntry, some p) => p ∉ k.connectedPeers
  | _ => True

theorem PSlice.Binned.proximity_lt {maxPO : Nat} {base : Address} {s : PSlice}
    (h : s.Binned (proximity maxPO base) (maxPO + 1)) (a : Address) :
    proximity maxPO base a < s.bins.length :=
  h.length_bins ▸ Nat.lt_succ_of_le (proximity_le maxPO base a)

section
variable {maxPO : Nat}

@[simp] theorem connect_base (k : Kad) (peer : Address) (d : Dial) :
    (k.connect maxPO peer d).1.base = k.base := by
  obtain ⟨w, hw⟩ := k.connect_fst maxPO peer d
  rw [hw, disconnectAll_base]

@[simp] theorem connect_knownPeers (k : Kad) (peer : Address) (d : Dial) :
    (k.connect maxPO peer d).1.knownPeers = k.knownPeers := by
  obtain ⟨w, hw⟩ := k.connect_fst maxPO peer d
  rw [hw, disconnectAll_knownPeers]

/-- `connect` reports the dial with `connectCore`'s error, a prune, and the
`Disconnected` calls p2p makes back. -/
theorem connect_snd (k : Kad) (peer : Address) (d : Dial) :
    (k.connect maxPO peer d).2 =
      (.dial peer d.now (d.reply peer) (k.connectCore peer d).2.2 ::
        ((if (k.connectCore peer d).2.1 then [.prune peer] else []) ++
          (k.connectDrops peer d).map (Event.disconnected · d.now)), (k.connectCore peer d).2.2) := by
  simp only [Kad.connect, disconnectAll_events]

/-- `manageDial` keeps the base address and forgets no known peer but the one dialled. -/
theorem manageDial_frame (k : Kad) (peer : Address) (po : Nat) (d : Dial) :
    (k.manageDial maxPO peer po d).1.base = k.base ∧
      ∀ q ≠ peer, q ∈ k.knownPeers → q ∈ (k.manageDial maxPO peer po d).1.knownPeers := by
  rcases Kad.manageDial_cases maxPO k peer po d with ⟨e, -, hr⟩ | ⟨-, hr⟩ <;> rw [hr]
  · rcases Kad.dialFailed_cases (k.connect maxPO peer d).1 peer po d.now e with ⟨w, hw⟩ | ⟨w, hw⟩ <;>
      rw [hw]
    · exact ⟨connect_base k peer d, fun _ _ hq => by rwa [connect_knownPeers]⟩
    · exact ⟨connect_base k peer d, fun _ hne hq => PSlice.mem_remove_of_ne (by rwa [connect_knownPeers]) hne⟩
  · exact ⟨connect_base k peer d, fun _ _ hq => by rwa [Kad.dialed, connect_knownPeers]⟩

/-- What the balanced pass does at one pseudo-address: nothing, with a missing peer
not connected when it stops on one, or a dial of a known peer neither connected nor
backed off. -/
theorem balancedVisit_cases (k : Kad) (i : Nat) (pseudo : Address) (d : Dial) :
    let r := k.balancedVisit maxPO i pseudo d
    (r.1 = k ∧ r.2.1 = [] ∧ ∀ e p, r.2.2 = .stop e p → MissingNotConnected k (some (e, p))) ∨
      ∃ peer, peer ∈ k.knownPeers ∧ peer ∉ k.connectedPeers ∧ k.sanctioned d.now peer = false ∧
        let m := k.manageDial maxPO peer (proximity maxPO k.base peer) d
        r.1 = m.1 ∧ r.2.1 = m.2.1 ∧ r.2.2 = .next := by
  unfold Kad.balancedVisit
  cases closestPeer k.connectedPeers pseudo (fun _ => false) [] with
  | none => exact .inl ⟨rfl, rfl, fun _ _ h => by cases h⟩
  | some cc =>
  dsimp only
  by_cases hfar : (extendedProximity cc pseudo : Int) < i + k.bitSuffixLength + 1
  case neg => rw [if_neg hfar]; exact .inl ⟨rfl, rfl, fun _ _ h => by cases h⟩
  rw [if_pos hfar]
  cases hpeer : closestPeer k.knownPeers pseudo (k.sanctioned d.now) [] with
  | none => exact .inl ⟨rfl, rfl, fun _ _ h => by cases h⟩
  | some peer =>
  dsimp only
  by_cases hconn : peer ∈ k.connectedPeers
  · rw [if_pos hconn]; exact .inl ⟨rfl, rfl, fun _ _ h => by cases h⟩
  by_cases hshort : (extendedProximity peer pseudo : Int) < i + k.bitSuffixLength + 1
  · rw [if_neg hconn, if_pos hshort]; exact .inl ⟨rfl, rfl, fun _ _ h => by cases h⟩
  have hsome := closestPeer_some hpeer
  rw [if_neg hconn, if_neg hshort]
  cases d.lookup peer with
  | notFound => exact .inl ⟨rfl, rfl, fun _ _ h => by cases h; exact hconn⟩
  | failed => exact .inl ⟨rfl, rfl, fun _ _ h => by cases h; trivial⟩
  | found _ => exact .inr ⟨peer, hsome.1, hconn, hsome.2.1.2, rfl, rfl, rfl⟩

/-- What the bin-filling pass does at one known peer: nothing, with a missing peer
not connected when it stops on one, or a dial of the peer, which is neither connected
nor backed off. -/
theorem fillVisit_cases (dials : Address → Dial) (quit : Bool) (acc : Kad × List Event)
    (peer : Address) (po : Nat) :
    let r := fillVisit maxPO dials quit acc peer po
    (r.1 = acc ∧ ∀ e, r.2.2.2 = some e → MissingNotConnected acc.1 (some e)) ∨
      (peer ∉ acc.1.connectedPeers ∧ acc.1.sanctioned (dials peer).now peer = false ∧
        let m := acc.1.manageDial maxPO peer po (dials peer)
        r.1 = (m.1, acc.2 ++ m.2.1) ∧ r.2.2.2 = none) := by
  unfold fillVisit; dsimp only
  by_cases hconn : peer ∈ acc.1.connectedPeers
  · rw [if_pos hconn]; exact .inl ⟨rfl, fun _ h => by cases h⟩
  by_cases hs : acc.1.sanctioned (dials peer).now peer = true
  · rw [if_neg hconn, if_pos hs]; exact .inl ⟨rfl, fun _ h => by cases h⟩
  by_cases hsat : (acc.1.saturationFunc po acc.1.knownPeers acc.1.connectedPeers).1 = true
  · rw [if_neg hconn, if_neg hs, if_pos hsat]; exact .inl ⟨rfl, fun _ h => by cases h⟩
  rw [if_neg hconn, if_neg hs, if_neg hsat]
  cases (dials peer).lookup peer with
  | notFound => exact .inl ⟨rfl, fun _ h => by cases h; exact hconn⟩
  | failed => exact .inl ⟨rfl, fun _ h => by cases h; trivial⟩
  | found _ => exact .inr ⟨hconn, by simpa using hs, rfl, rfl⟩

namespace Kad.Consistent
variable {k : Kad}

theorem new (base : Address) (o : Options) : (Kad.new maxPO base o).Consistent maxPO where
  known_binned := PSlice.Binned.new
  connected_binned := PSlice.Binned.new
  connected_subset := fun _ hp => by simp [Kad.new, PSlice.mem_iff, PSlice.peers, PSlice.new] at hp
  depth_eq := by simp [Kad.new, recalcDepth, PSlice.length, PSlice.peers, PSlice.new]
  prefixes := rfl

theorem setWaitNext (h : k.Consistent maxPO) (w : Address → Option RetryInfo) :
    ({ k with waitNext := w } : Kad).Consistent maxPO :=
  ⟨h.known_binned, h.connected_binned, h.connected_subset, h.depth_eq, h.prefixes⟩

theorem addPeers : ∀ (addrs : List Address) {k : Kad}, k.Consistent maxPO →
    (k.addPeers maxPO addrs).Consistent maxPO
  | [], _, h => h
  | a :: rest, k, h => by
    unfold Kad.addPeers
    split
    · exact addPeers rest h
    · have h' : ({ k with knownPeers := k.knownPeers.add a (proximity maxPO k.base a) } : Kad).Consistent
          maxPO :=
        ⟨h.known_binned.add a (h.known_binned.length_bins ▸ h.known_binned.proximity_lt a),
          h.connected_binned, fun p hp =>
          (PSlice.mem_add (h.known_binned.proximity_lt a)).2 (.inr (h.connected_subset p hp)), h.depth_eq,
          h.prefixes⟩
      exact addPeers rest h'

theorem join (h : k.Consistent maxPO) (addr : Address) : (k.join maxPO addr).Consistent maxPO where
  known_binned := h.known_binned.add addr (h.known_binned.length_bins ▸ h.known_binned.proximity_lt addr)
  connected_binned :=
    h.connected_binned.add addr (h.connected_binned.length_bins ▸ h.connected_binned.proximity_lt addr)
  connected_subset := fun p hp => by
    rcases (PSlice.mem_add (h.connected_binned.proximity_lt addr)).1 hp with rfl | hp
    · exact (PSlice.mem_add (h.known_binned.proximity_lt _)).2 (.inl rfl)
    · exact (PSlice.mem_add (h.known_binned.proximity_lt addr)).2 (.inr (h.connected_subset p hp))
  depth_eq := by dsimp only [Kad.join]
  prefixes := h.prefixes

theorem disconnected (h : k.Consistent maxPO) (peer : Address) (now : Int) :
    (k.disconnected maxPO peer now).1.Consistent maxPO where
  known_binned := h.known_binned
  connected_binned := h.connected_binned.remove _ _
  connected_subset := fun p hp => h.connected_subset p (PSlice.mem_of_mem_remove hp)
  depth_eq := by dsimp only [Kad.disconnected]
  prefixes := h.prefixes

theorem connected (h : k.Consistent maxPO) (addr : Address) (sent : Bool) (now : Int) :
    (k.connected maxPO addr sent now).1.Consistent maxPO := by
  unfold Kad.connected; split
  · exact h.join addr
  · exact h.disconnected addr now

theorem connectedIn (h : k.Consistent maxPO) (peer : Address) (sent : Bool) (now : Int) :
    (k.connectedIn maxPO peer sent now).1.Consistent maxPO := by
  unfold Kad.connectedIn; split
  · exact h
  · exact h.connected peer sent now

theorem disconnectAll (h : k.Consistent maxPO) (now : Int) (ps : List Address) :
    (k.disconnectAll maxPO now ps).1.Consistent maxPO := by
  obtain ⟨hb, hmem, hd⟩ := disconnectAll_connected maxPO now ps h.connected_binned h.depth_eq
  refine ⟨?_, ?_, fun p hp => ?_, hd, ?_⟩ <;>
    simp only [disconnectAll_base, disconnectAll_knownPeers, disconnectAll_bitSuffixLength,
      disconnectAll_commonBinPrefixes]
  · exact h.known_binned
  · exact hb
  · exact h.connected_subset p ((hmem p).1 hp).1
  · exact h.prefixes

theorem closestPeerOf (h : k.Consistent maxPO) (addr : Address) (skip p2pPeers : List Address)
    (now : Int) : (k.closestPeerOf maxPO addr skip p2pPeers now).1.1.Consistent maxPO := by
  unfold Kad.closestPeerOf
  split
  · exact h
  · dsimp only; split <;> exact h.disconnectAll now _

/-- `connect` only disconnects: the connected peers after it were connected before. -/
theorem connect_connected (h : k.Consistent maxPO) {peer q : Address} {d : Dial}
    (hq : q ∈ (k.connect maxPO peer d).1.connectedPeers) : q ∈ k.connectedPeers := by
  obtain ⟨w, hw⟩ := k.connect_fst maxPO peer d
  rw [hw] at hq
  exact (((disconnectAll_connected maxPO d.now _ (k := { k with waitNext := w }) h.connected_binned
    h.depth_eq).2.1 q).1 hq).1

theorem connectCore (h : k.Consistent maxPO) (peer : Address) (d : Dial) :
    (k.connectCore peer d).1.Consistent maxPO := by
  obtain ⟨w, hw⟩ := k.connectCore_fst peer d
  rw [hw]
  exact h.setWaitNext w

theorem connect (h : k.Consistent maxPO) (peer : Address) (d : Dial) :
    (k.connect maxPO peer d).1.Consistent maxPO :=
  (h.connectCore peer d).disconnectAll d.now _

theorem dialFailed (h : k.Consistent maxPO) {peer : Address} (hc : peer ∉ k.connectedPeers)
    (now : Int) (e : KadError) : (k.dialFailed peer (proximity maxPO k.base peer) now e).Consistent maxPO := by
  rcases Kad.dialFailed_cases k peer _ now e with ⟨w, hw⟩ | ⟨w, hw⟩ <;> rw [hw]
  · exact h.setWaitNext w
  · refine ⟨h.known_binned.remove _ _, h.connected_binned, fun p hp => ?_, h.depth_eq, h.prefixes⟩
    exact h.known_binned.mem_remove.2 ⟨h.connected_subset p hp, fun hpe => hc (hpe ▸ hp)⟩

theorem dialed (h : k.Consistent maxPO) {peer : Address} (hk : peer ∈ k.knownPeers) (now : Int) :
    (k.dialed peer (proximity maxPO k.base peer) now).Consistent maxPO := by
  refine ⟨h.known_binned, h.connected_binned.add peer (h.connected_binned.length_bins ▸
    h.connected_binned.proximity_lt peer), fun p hp => ?_, rfl, h.prefixes⟩
  rcases (PSlice.mem_add (h.connected_binned.proximity_lt peer)).1 hp with rfl | hp
  · exact hk
  · exact h.connected_subset p hp

theorem manageDial (h : k.Consistent maxPO) {peer : Address} (hk : peer ∈ k.knownPeers)
    (hc : peer ∉ k.connectedPeers) (d : Dial) :
    (k.manageDial maxPO peer (proximity maxPO k.base peer) d).1.Consistent maxPO := by
  rw [← @connect_base maxPO k peer d]
  rcases Kad.manageDial_cases maxPO k peer _ d with ⟨e, -, hr⟩ | ⟨-, hr⟩ <;> rw [hr]
  · exact (h.connect peer d).dialFailed (fun hp => hc (h.connect_connected hp)) d.now e
  · exact (h.connect peer d).dialed (by rwa [connect_knownPeers]) d.now

theorem balancedVisit (h : k.Consistent maxPO) (i : Nat) (pseudo : Address) (d : Dial) :
    (k.balancedVisit maxPO i pseudo d).1.Consistent maxPO := by
  rcases balancedVisit_cases k i pseudo d with ⟨hr, -⟩ | ⟨peer, hk, hc, -, hr, -⟩ <;> rw [hr]
  · exact h
  · exact h.manageDial hk hc d

theorem balancedRow (i : Nat) (dials : Nat → Dial) :
    ∀ (row : List Address) {k : Kad} (j : Nat), k.Consistent maxPO →
      let r := balancedRow maxPO i dials k j row
      r.1.Consistent maxPO ∧ MissingNotConnected r.1 r.2.2
  | [], _, _, h => ⟨h, trivial⟩
  | pseudo :: rest, k, j, h => by
    have hv := h.balancedVisit i pseudo (dials j)
    unfold Voyager.Kademlia.balancedRow; dsimp only
    split
    · exact balancedRow i dials rest (j + 1) hv
    · exact ⟨hv, trivial⟩
    · rename_i e p hflow
      refine ⟨hv, ?_⟩
      rcases balancedVisit_cases k i pseudo (dials j) with ⟨hr, -, hm⟩ | ⟨_, _, _, _, _, _, hnext⟩
      · rw [hr]; exact hm e p hflow
      · rw [hnext] at hflow; cases hflow

theorem balancedRows (dials : Nat → Nat → Dial) :
    ∀ (rows : List (List Address)) {k : Kad} (i : Nat), k.Consistent maxPO →
      let r := balancedRows maxPO dials k i rows
      r.1.Consistent maxPO ∧ MissingNotConnected r.1 r.2.2
  | [], _, _, h => ⟨h, trivial⟩
  | row :: rows, k, i, h => by
    have hr := balancedRow i (dials i) row 0 h
    unfold Voyager.Kademlia.balancedRows; dsimp only
    split
    · exact balancedRows dials rows (i + 1) hr.1
    · rename_i e he
      exact ⟨hr.1, he ▸ hr.2⟩

theorem dropMissing (h : k.Consistent maxPO) {err : Option (KadError × Option Address)}
    (hm : MissingNotConnected k err) : (k.dropMissing maxPO err).Consistent maxPO := by
  unfold Kad.dropMissing
  split
  · refine ⟨h.known_binned.remove _ _, h.connected_binned, fun q hq => ?_, h.depth_eq, h.prefixes⟩
    exact h.known_binned.mem_remove.2 ⟨h.connected_subset q hq, fun hqp => hm (hqp ▸ hq)⟩
  · exact h

end Kad.Consistent

/-- What the bin-filling pass keeps of its state and of the snapshot entries still to
visit: the invariant, and each entry a known peer in its own bin, met once. -/
def FillInv (maxPO : Nat) (acc : Kad × List Event) (rest : List (Address × Nat)) : Prop :=
  acc.1.Consistent maxPO ∧
    (∀ e ∈ rest, e.1 ∈ acc.1.knownPeers ∧ e.2 = proximity maxPO acc.1.base e.1) ∧
    (rest.map Prod.fst).Nodup

theorem FillInv.start {k : Kad} (h : k.Consistent maxPO) :
    FillInv maxPO (k, []) k.knownPeers.entries :=
  ⟨h, fun _ he => h.known_binned.mem_of_mem_entries he, h.known_binned.nodup_entries⟩

theorem FillInv.tail {acc : Kad × List Event} {e : Address × Nat} {rest : List (Address × Nat)}
    (h : FillInv maxPO acc (e :: rest)) : FillInv maxPO acc rest :=
  ⟨h.1, fun e' h' => h.2.1 e' (List.mem_cons_of_mem _ h'), (List.nodup_cons.1 h.2.2).2⟩

/-- The bin-filling pass's visit of its next entry keeps `FillInv` for the entries after
it, and an error it returns names no connected peer as missing. -/
theorem FillInv.visit (dials : Address → Dial) (quit : Bool) {acc : Kad × List Event}
    {p : Address} {po : Nat} {rest : List (Address × Nat)} (h : FillInv maxPO acc ((p, po) :: rest)) :
    let r := fillVisit maxPO dials quit acc p po
    FillInv maxPO r.1 rest ∧ ∀ e, r.2.2.2 = some e → MissingNotConnected r.1.1 (some e) := by
  dsimp only
  obtain ⟨hc, he, hn⟩ := h
  obtain ⟨hk, hpo⟩ := he (p, po) (List.mem_cons_self _ _)
  rcases fillVisit_cases dials quit acc p po with ⟨hr, hm⟩ | ⟨hconn, -, hr, hnone⟩
  · rw [hr]; exact ⟨FillInv.tail ⟨hc, he, hn⟩, hm⟩
  refine ⟨⟨?_, fun e he' => ?_, (List.nodup_cons.1 hn).2⟩, fun e h => by simp [hnone] at h⟩
  · rw [hr]; dsimp only at hpo; rw [hpo]; exact hc.manageDial hk hconn _
  · have hne : e.1 ≠ p := fun hep => (List.nodup_cons.1 hn).1 (List.mem_map.2 ⟨e, he', hep⟩)
    obtain ⟨hbase, hknown⟩ := manageDial_frame acc.1 p po (dials p)
    obtain ⟨hek, hepo⟩ := he e (List.mem_cons_of_mem _ he')
    rw [hr]; dsimp only; rw [hbase]; exact ⟨hknown _ hne hek, hepo⟩

namespace Kad.Consistent
variable {k : Kad}

/-- The bin-filling pass, over the snapshot of the known peers it walks. -/
theorem fillingPass (h : k.Consistent maxPO) (dials : Address → Dial) (quit : Bool) :
    let r := k.fillingPass maxPO dials quit
    r.1.1.Consistent maxPO ∧ MissingNotConnected r.1.1 r.2 := by
  obtain ⟨⟨l, hP, -⟩, hQ⟩ := iterate_inv (FillInv maxPO)
    (fun acc e => MissingNotConnected acc.1 (some e)) (fun _ _ _ h => h.tail)
    (fun _ _ _ _ h => h.visit dials quit) none k.knownPeers.entries (k, []) (FillInv.start h)
  refine ⟨hP, ?_⟩
  unfold Kad.fillingPass PSlice.eachBinRev
  cases herr : (iterate (fillVisit maxPO dials quit) none k.knownPeers.entries (k, [])).2
  · trivial
  · exact hQ _ herr

theorem bootnodeVisit (dials : Nat → BootDial) {st : BootState} (h : st.kad.Consistent maxPO) :
    (bootnodeVisit maxPO dials st).1.kad.Consistent maxPO := by
  unfold Voyager.Kademlia.bootnodeVisit
  split
  · exact h
  dsimp only
  split
  · split <;> exact h.connected _ _ _
  · exact h
  · exact h

theorem discover (dials : Nat → BootDial) :
    ∀ (addrs : List Underlay) {st : BootState}, st.kad.Consistent maxPO →
      (discover maxPO dials addrs st).1.kad.Consistent maxPO
  | [], _, h => h
  | _ :: rest, st, h => by
    have hv := bootnodeVisit dials h
    unfold Voyager.Kademlia.discover
    rcases hr : Voyager.Kademlia.bootnodeVisit maxPO dials st with ⟨st', stop, _ | e⟩
    all_goals rw [hr] at hv
    · cases stop
      · exact discover dials rest hv
      · exact hv
    · cases stop <;> exact hv

theorem bootnodesLoop (resolve : Underlay → List Underlay) (dials : Nat → BootDial) (total : Nat) :
    ∀ (addrs : List Underlay) {st : BootState}, st.kad.Consistent maxPO →
      (bootnodesLoop maxPO resolve dials total addrs st).kad.Consistent maxPO
  | [], _, h => h
  | addr :: rest, st, h => by
    have hd := discover dials (resolve addr) h
    unfold Voyager.Kademlia.bootnodesLoop
    split
    · exact h
    rcases hr : Voyager.Kademlia.discover maxPO dials (resolve addr) st with ⟨st', _ | e⟩
    all_goals rw [hr] at hd
    · exact bootnodesLoop resolve dials total rest hd
    · exact hd

theorem manageOnce (h : k.Consistent maxPO) (env : Env) : (k.manageOnce maxPO env).1.Consistent maxPO := by
  unfold Kad.manageOnce
  split
  · exact h
  dsimp only
  have hb := balancedRows env.balanced k.commonBinPrefixes 0 h
  have h₁ := hb.1.dropMissing hb.2
  have hf := h₁.fillingPass env.filling env.quit
  have h₂ := hf.1.dropMissing hf.2
  split
  · exact bootnodesLoop env.resolve env.boot _ _ h₂
  · exact h₂

theorem step (h : k.Consistent maxPO) : ∀ c : Call, (k.step maxPO c).1.Consistent maxPO
  | .addPeers addrs => addPeers addrs h
  | .connected peer sent now => h.connectedIn peer sent now
  | .disconnected peer now => h.disconnected peer now
  | .closestPeer addr skip p2pPeers now => h.closestPeerOf addr skip p2pPeers now
  | .manage env => h.manageOnce env

end Kad.Consistent

theorem Reachable.consistent {k : Kad} (h : Reachable maxPO k) : k.Consistent maxPO := by
  induction h with
  | new base o => exact .new base o
  | step c _ ih => exact ih.step c

/-- In every reachable state the connected peers are known, every peer of either
slice sits in the bin of its proximity order to the base address, so `Disconnected`
takes a connected peer out, and the cached depth is that of the connected peers. -/
theorem reachable_binned_known_depth {k : Kad} (h : Reachable maxPO k) :
    (∀ p ∈ k.connectedPeers, p ∈ k.knownPeers) ∧
      (∀ p i, p ∈ k.connectedPeers.bin i → i = proximity maxPO k.base p) ∧
      (∀ p i, p ∈ k.knownPeers.bin i → i = proximity maxPO k.base p) ∧
      (∀ p now, p ∉ (k.disconnected maxPO p now).1.connectedPeers) ∧
      k.depth = recalcDepth k.connectedPeers := by
  have hc := h.consistent
  exact ⟨hc.connected_subset, fun _ _ => hc.connected_binned.bin_eq,
    fun _ _ => hc.known_binned.bin_eq, fun p _ hp => (hc.connected_binned.mem_remove.1 hp).2 rfl,
    hc.depth_eq⟩

theorem reachable_binned_known_depth_connected :
    let k := ((Kad.new 15 (Address.ofHead 0) ⟨none, [], false, false, 0⟩).step 15
      (.connected (Address.ofHead 128) true 0)).1
    Reachable 15 k ∧
      ((∀ p ∈ k.connectedPeers, p ∈ k.knownPeers) ∧
        (∀ p i, p ∈ k.connectedPeers.bin i → i = proximity 15 k.base p) ∧
        (∀ p i, p ∈ k.knownPeers.bin i → i = proximity 15 k.base p) ∧
        (∀ p now, p ∉ (k.disconnected 15 p now).1.connectedPeers) ∧
        k.depth = recalcDepth k.connectedPeers) :=
  ⟨.step _ (.new _ _), reachable_binned_known_depth (.step _ (.new _ _))⟩

/-- `ClosestPeer` in a reachable state, with `E` the connected peers neither skipped
nor missing from `p2p.Peers()`: `ErrNotFound` exactly on an empty connected slice,
else a closest peer of `E` when one is strictly closer to `addr` than the base
address and `ErrWantSelf` otherwise; and the connected peers neither skipped nor
known to p2p are disconnected, each by `Disconnected`, and no other. -/
theorem closestPeerOf_reachable {k : Kad} (h : Reachable maxPO k) (addr : Address)
    (skip p2pPeers : List Address) (now : Int) :
    let r := k.closestPeerOf maxPO addr skip p2pPeers now
    let E := fun p => p ∈ k.connectedPeers ∧ p ∉ skip ∧ p ∈ p2pPeers
    (r.2 = .error .notFound ↔ k.connectedPeers.length = 0) ∧
      (k.connectedPeers.length ≠ 0 →
        ((∃ p, E p ∧ distance addr p < distance addr k.base) →
          ∃ c, r.2 = .ok c ∧ E c ∧ ∀ p, E p → distance addr c ≤ distance addr p) ∧
        ((∀ p, E p → distance addr k.base ≤ distance addr p) → r.2 = .error .wantSelf)) ∧
      r.1 = k.disconnectAll maxPO now
        (k.connectedPeers.peers.filter fun p => p ∉ skip ∧ p ∉ p2pPeers) ∧
      (∀ q, q ∈ r.1.1.connectedPeers ↔ q ∈ k.connectedPeers ∧ (q ∈ skip ∨ q ∈ p2pPeers)) ∧
      (∀ q, r.1.1.waitNext q =
        if q ∈ k.connectedPeers ∧ q ∉ skip ∧ q ∉ p2pPeers then some ⟨now + timeToRetry, 0⟩
        else k.waitNext q) ∧
      r.1.1.depth = recalcDepth r.1.1.connectedPeers := by
  intro r E
  have hc := h.consistent
  have hD : ∀ q, q ∈ k.connectedPeers.peers.filter (fun p => p ∉ skip ∧ p ∉ p2pPeers) ↔
      q ∈ k.connectedPeers ∧ q ∉ skip ∧ q ∉ p2pPeers := by
    simp [PSlice.mem_iff]
  have hr1 : r.1 = k.disconnectAll maxPO now
      (k.connectedPeers.peers.filter fun p => p ∉ skip ∧ p ∉ p2pPeers) := by
    by_cases h0 : k.connectedPeers.length = 0
    · have hnil : k.connectedPeers.peers = [] := List.eq_nil_of_length_eq_zero h0
      simp [r, Kad.closestPeerOf, h0, hnil, Kad.disconnectAll]
    · exact congrArg Prod.fst (closestPeerOf_eq maxPO k addr skip p2pPeers now h0).choose_spec.2
  obtain ⟨-, hmem, hd⟩ := disconnectAll_connected maxPO now
    (k.connectedPeers.peers.filter fun p => p ∉ skip ∧ p ∉ p2pPeers) hc.connected_binned hc.depth_eq
  refine ⟨?_, closestPeerOf_answer maxPO k addr skip p2pPeers now, hr1, fun q => ?_, fun q => ?_,
    by rw [hr1]; exact hd⟩
  · by_cases h0 : k.connectedPeers.length = 0
    · simp [r, Kad.closestPeerOf, h0]
    · obtain ⟨c, -, heq⟩ := closestPeerOf_eq maxPO k addr skip p2pPeers now h0
      simp only [r, heq, h0, iff_false]
      split <;> simp
  · rw [hr1, hmem, hD, not_and_or, not_and_or, not_not, not_not]
    exact and_congr_right fun hq => by simp [hq]
  · rw [hr1, disconnectAll_waitNext]; simp only [hD]

theorem closestPeerOf_reachable_connected :
    let k := ((Kad.new 15 (Address.ofHead 0) ⟨none, [], false, false, 0⟩).step 15
      (.connected (Address.ofHead 128) true 0)).1
    let addr := Address.ofHead 192
    let p2pPeers := [Address.ofHead 128]
    let r := k.closestPeerOf 15 addr [] p2pPeers 0
    let E := fun p => p ∈ k.connectedPeers ∧ p ∉ ([] : List Address) ∧ p ∈ p2pPeers
    Reachable 15 k ∧ E (Address.ofHead 128) ∧
      ((r.2 = .error .notFound ↔ k.connectedPeers.length = 0) ∧
        (k.connectedPeers.length ≠ 0 →
          ((∃ p, E p ∧ distance addr p < distance addr k.base) →
            ∃ c, r.2 = .ok c ∧ E c ∧ ∀ p, E p → distance addr c ≤ distance addr p) ∧
          ((∀ p, E p → distance addr k.base ≤ distance addr p) → r.2 = .error .wantSelf)) ∧
        r.1 = k.disconnectAll 15 0
          (k.connectedPeers.peers.filter fun p => p ∉ ([] : List Address) ∧ p ∉ p2pPeers) ∧
        (∀ q, q ∈ r.1.1.connectedPeers ↔
          q ∈ k.connectedPeers ∧ (q ∈ ([] : List Address) ∨ q ∈ p2pPeers)) ∧
        (∀ q, r.1.1.waitNext q =
          if q ∈ k.connectedPeers ∧ q ∉ ([] : List Address) ∧ q ∉ p2pPeers then
            some ⟨0 + timeToRetry, 0⟩
          else k.waitNext q) ∧
        r.1.1.depth = recalcDepth r.1.1.connectedPeers) :=
  ⟨.step _ (.new _ _), by decide, closestPeerOf_reachable (.step _ (.new _ _)) _ [] _ 0⟩

end

end Voyager.Kademlia
