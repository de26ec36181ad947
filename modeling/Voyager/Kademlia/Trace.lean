import Voyager.Kademlia.Invariant

/-!
# Reading the event trace of a run

A property of the events of a run is checked by a trace reader: a fold `chk` over the
events that rejects (`none`) a trace breaking it. To show that no run is rejected,
relate the reader's state to kademlia's state by some `I`, and check that each piece of
the run keeps the relation while the reader reads its events (`Tracks`).

Only three pieces of code write what such properties watch (`waitNext` and the
connected peers) and report it: a dial of the manage loop (`manageDial`, which runs
`Disconnected` itself when `connect` drops a connection), the part of `connected` after
a successful announce (`join`), and `Disconnected`. `Follows` asks for these three, and
that `I` ignore the known peers; `Follows.run` lifts them over both manage passes,
bootnode dialing and every entry point, to every run from a consistent state.
-/

namespace Voyager.Kademlia
open Voyager.Infinity

section
variable {σ : Type} (chk : σ → Event → Option σ) (I : σ → Kad → Prop)

/-- `k` goes to `k'` reporting `evs`, and from any reader state `I` relates to `k` the
reader reads `evs` without rejecting and ends in a state `I` relates to `k'`. -/
def Tracks (k : Kad) (evs : List Event) (k' : Kad) : Prop :=
  ∀ s, I s k → ∃ s', evs.foldlM chk s = some s' ∧ I s' k'

/-- What a trace reader needs of the three places that change `waitNext` or the
connected peers, for a run from a consistent state. A dial is made only of a peer
neither connected nor backed off. -/
structure Follows (maxPO : Nat) : Prop where
  dial : ∀ {k : Kad} {peer : Address} (po : Nat) {d : Dial}, k.Consistent maxPO →
    peer ∉ k.connectedPeers → k.sanctioned d.now peer = false →
    Tracks chk I k (k.manageDial maxPO peer po d).2.1 (k.manageDial maxPO peer po d).1
  join : ∀ {k : Kad} (addr : Address), k.Consistent maxPO →
    Tracks chk I k [.connected addr] (k.join maxPO addr)
  disconnected : ∀ {k : Kad} (p : Address) (now : Int), k.Consistent maxPO →
    Tracks chk I k [.disconnected p now] (k.disconnected maxPO p now).1
  known : ∀ {s : σ} {k : Kad} (known : PSlice), I s k → I s { k with knownPeers := known }

variable {chk I}

theorem foldlM_cons_of_eq {f : σ → Event → Option σ} {s s' : σ} {e : Event} {evs : List Event}
    (h : f s e = some s') : (e :: evs).foldlM f s = evs.foldlM f s' := by
  rw [List.foldlM_cons, h]; rfl

theorem Tracks.refl (k : Kad) : Tracks chk I k [] k := fun s hs => ⟨s, rfl, hs⟩

theorem Tracks.trans {k₁ k₂ k₃ : Kad} {e₁ e₂ : List Event} (h₁ : Tracks chk I k₁ e₁ k₂)
    (h₂ : Tracks chk I k₂ e₂ k₃) : Tracks chk I k₁ (e₁ ++ e₂) k₃ := fun s hs => by
  obtain ⟨s₁, hs₁, hI₁⟩ := h₁ s hs
  obtain ⟨s₂, hs₂, hI₂⟩ := h₂ s₁ hI₁
  exact ⟨s₂, by rw [List.foldlM_append, hs₁]; exact hs₂, hI₂⟩

theorem Tracks.of_eq {k k' k'' : Kad} {evs evs' : List Event} (h : Tracks chk I k evs k')
    (he : evs = evs') (hk : k' = k'') : Tracks chk I k evs' k'' :=
  he ▸ hk ▸ h

/-- `Disconnected` on each of `ps`, from what one `Disconnected` does. -/
theorem Tracks.disconnectAll {maxPO : Nat} (hd : ∀ {k : Kad} (p : Address) (now : Int),
      k.Consistent maxPO → Tracks chk I k [.disconnected p now] (k.disconnected maxPO p now).1)
    (now : Int) : ∀ (ps : List Address) {k : Kad}, k.Consistent maxPO →
      Tracks chk I k (k.disconnectAll maxPO now ps).2 (k.disconnectAll maxPO now ps).1
  | [], k, _ => Tracks.refl k
  | p :: ps, _, h => (hd p now h).trans (Tracks.disconnectAll hd now ps (h.disconnected p now))

namespace Follows
variable {maxPO : Nat} (hf : Follows chk I maxPO)
include hf

theorem known_only {k : Kad} (known : PSlice) :
    Tracks chk I k [] { k with knownPeers := known } :=
  fun s hs => ⟨s, rfl, hf.known known hs⟩

theorem addPeers : ∀ (addrs : List Address) (k : Kad), Tracks chk I k [] (k.addPeers maxPO addrs)
  | [], k => Tracks.refl k
  | a :: rest, k => by
    unfold Kad.addPeers
    split
    · exact addPeers rest k
    · exact (hf.known_only _).trans (addPeers rest _)

theorem connected {k : Kad} (h : k.Consistent maxPO) (addr : Address) (sent : Bool) (now : Int) :
    Tracks chk I k (k.connected maxPO addr sent now).2.1 (k.connected maxPO addr sent now).1 := by
  unfold Kad.connected
  split
  · exact hf.join addr h
  · exact hf.disconnected addr now h

theorem connectedIn {k : Kad} (h : k.Consistent maxPO) (peer : Address) (sent : Bool) (now : Int) :
    Tracks chk I k (k.connectedIn maxPO peer sent now).2.1 (k.connectedIn maxPO peer sent now).1 := by
  unfold Kad.connectedIn
  split
  · exact Tracks.refl k
  · exact hf.connected h peer sent now

theorem disconnectAll (now : Int) : ∀ (ps : List Address) {k : Kad}, k.Consistent maxPO →
    Tracks chk I k (k.disconnectAll maxPO now ps).2 (k.disconnectAll maxPO now ps).1 :=
  Tracks.disconnectAll hf.disconnected now

theorem closestPeerOf {k : Kad} (h : k.Consistent maxPO) (addr : Address)
    (skip p2pPeers : List Address) (now : Int) :
    let r := (k.closestPeerOf maxPO addr skip p2pPeers now).1
    Tracks chk I k r.2 r.1 := by
  unfold Kad.closestPeerOf
  split
  · exact Tracks.refl k
  · dsimp only; split <;> exact hf.disconnectAll now _ h

theorem balancedVisit {k : Kad} (h : k.Consistent maxPO) (i : Nat) (pseudo : Address) (d : Dial) :
    let r := k.balancedVisit maxPO i pseudo d
    Tracks chk I k r.2.1 r.1 := by
  rcases balancedVisit_cases k i pseudo d with ⟨hr, he, -⟩ | ⟨peer, -, hc, hs, hr, he, -⟩
  · exact (Tracks.refl k).of_eq he.symm hr.symm
  · exact (hf.dial _ h hc hs).of_eq he.symm hr.symm

theorem balancedRow (i : Nat) (dials : Nat → Dial) :
    ∀ (row : List Address) {k : Kad} (j : Nat), k.Consistent maxPO →
      let r := balancedRow maxPO i dials k j row
      Tracks chk I k r.2.1 r.1
  | [], k, _, _ => Tracks.refl k
  | pseudo :: rest, k, j, h => by
    have hv := hf.balancedVisit h i pseudo (dials j)
    unfold Voyager.Kademlia.balancedRow; dsimp only
    split
    · exact hv.trans (balancedRow i dials rest (j + 1) (h.balancedVisit i pseudo (dials j)))
    · exact hv
    · exact hv

theorem balancedRows (dials : Nat → Nat → Dial) :
    ∀ (rows : List (List Address)) {k : Kad} (i : Nat), k.Consistent maxPO →
      let r := balancedRows maxPO dials k i rows
      Tracks chk I k r.2.1 r.1
  | [], k, _, _ => Tracks.refl k
  | row :: rows, k, i, h => by
    have hr := hf.balancedRow i (dials i) row 0 h
    unfold Voyager.Kademlia.balancedRows; dsimp only
    split
    · exact hr.trans (balancedRows dials rows (i + 1)
        (Kad.Consistent.balancedRow i (dials i) row 0 h).1)
    · exact hr

theorem dropMissing {k k' : Kad} {evs : List Event} (ht : Tracks chk I k evs k')
    (err : Option (KadError × Option Address)) :
    Tracks chk I k evs (k'.dropMissing maxPO err) := by
  refine (ht.trans ?_).of_eq (List.append_nil _) rfl
  unfold Kad.dropMissing
  split
  · exact hf.known_only _
  · exact Tracks.refl k'

theorem fillingPass {k : Kad} (h : k.Consistent maxPO) (dials : Address → Dial) (quit : Bool) :
    let r := (k.fillingPass maxPO dials quit).1
    Tracks chk I k r.2 r.1 := by
  obtain ⟨⟨l, -, hP⟩, -⟩ := iterate_inv (f := fillVisit maxPO dials quit)
    (fun acc rest => FillInv maxPO acc rest ∧ Tracks chk I k acc.2 acc.1) (fun _ _ => True)
    (fun _ _ _ h => ⟨h.1.tail, h.2⟩) (fun acc p po rest ⟨hi, ht⟩ => ⟨⟨(hi.visit dials quit).1, by
      rcases fillVisit_cases dials quit acc p po with ⟨hr, -⟩ | ⟨hc, hs, hr, -⟩ <;> rw [hr]
      · exact ht
      · exact ht.trans (hf.dial po hi.1 hc hs)⟩, fun _ _ => trivial⟩)
    none k.knownPeers.entries (k, []) ⟨FillInv.start h, Tracks.refl k⟩
  exact hP

theorem bootnodeVisit (dials : Nat → BootDial) {k : Kad} {st : BootState}
    (h : st.kad.Consistent maxPO) (ht : Tracks chk I k st.events st.kad) :
    let r := (bootnodeVisit maxPO dials st).1
    Tracks chk I k r.events r.kad := by
  unfold Voyager.Kademlia.bootnodeVisit
  split
  · exact ht
  dsimp only
  split
  · split <;> exact ht.trans (hf.connected h _ _ _)
  · exact ht
  · exact ht

theorem discover (dials : Nat → BootDial) {k : Kad} :
    ∀ (addrs : List Underlay) {st : BootState}, st.kad.Consistent maxPO →
      Tracks chk I k st.events st.kad →
      let r := (discover maxPO dials addrs st).1
      Tracks chk I k r.events r.kad
  | [], _, _, ht => ht
  | _ :: rest, st, h, ht => by
    have hv := hf.bootnodeVisit dials h ht
    have hc := Kad.Consistent.bootnodeVisit dials h
    unfold Voyager.Kademlia.discover
    rcases hr : Voyager.Kademlia.bootnodeVisit maxPO dials st with ⟨st', stop, _ | e⟩
    all_goals rw [hr] at hv hc
    · cases stop
      · exact discover dials rest hc hv
      · exact hv
    · cases stop <;> exact hv

theorem bootnodesLoop (resolve : Underlay → List Underlay) (dials : Nat → BootDial) (total : Nat)
    {k : Kad} : ∀ (addrs : List Underlay) {st : BootState}, st.kad.Consistent maxPO →
      Tracks chk I k st.events st.kad →
      let r := bootnodesLoop maxPO resolve dials total addrs st
      Tracks chk I k r.events r.kad
  | [], _, _, ht => ht
  | addr :: rest, st, h, ht => by
    have hd := hf.discover dials (resolve addr) h ht
    have hc := Kad.Consistent.discover dials (resolve addr) h
    unfold Voyager.Kademlia.bootnodesLoop
    split
    · exact ht
    rcases hr : Voyager.Kademlia.discover maxPO dials (resolve addr) st with ⟨st', _ | e⟩
    all_goals rw [hr] at hd hc
    · exact bootnodesLoop resolve dials total rest hc hd
    · exact hd

theorem manageOnce {k : Kad} (h : k.Consistent maxPO) (env : Env) :
    Tracks chk I k (k.manageOnce maxPO env).2 (k.manageOnce maxPO env).1 := by
  unfold Kad.manageOnce
  split
  · exact Tracks.refl k
  dsimp only
  have hb := Kad.Consistent.balancedRows env.balanced k.commonBinPrefixes 0 h
  have h₁ := hb.1.dropMissing hb.2
  have hf₁ := h₁.fillingPass env.filling env.quit
  have ht := fun err => (hf.dropMissing (hf.balancedRows env.balanced k.commonBinPrefixes 0 h) _).trans
    (hf.dropMissing (hf.fillingPass h₁ env.filling env.quit) err)
  split
  · exact (ht _).trans
      (hf.bootnodesLoop env.resolve env.boot _ _ (hf₁.1.dropMissing hf₁.2) (Tracks.refl _))
  · exact ht _

theorem step {k : Kad} (h : k.Consistent maxPO) :
    ∀ c : Call, Tracks chk I k (k.step maxPO c).2 (k.step maxPO c).1
  | .addPeers addrs => hf.addPeers addrs k
  | .connected peer sent now => hf.connectedIn h peer sent now
  | .disconnected peer now => hf.disconnected peer now h
  | .closestPeer addr skip p2pPeers now => hf.closestPeerOf h addr skip p2pPeers now
  | .manage env => hf.manageOnce h env

/-- **Every run** from a consistent state keeps the reader's relation to the state and
is never rejected. -/
theorem run : ∀ (cs : List Call) {k : Kad}, k.Consistent maxPO →
    Tracks chk I k (k.run maxPO cs).2 (k.run maxPO cs).1
  | [], k, _ => Tracks.refl k
  | c :: cs, _, h => (hf.step h c).trans (run cs (h.step c))

end Follows

end

end Voyager.Kademlia
