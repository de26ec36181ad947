import Voyager.Kademlia.Manage

/-!
# Dialing the bootnodes

`connectBootnodes` (`pkg/kademlia/kademlia_test.go:1591-1633`) hands `p2p.Discover` a
callback that dials one underlay. The counter `attempts` is shared by every bootnode,
and the callback refuses to dial once it reaches `maxBootnodeAttempts`. So one call
dials at most three times in all, however many bootnodes there are and whatever
`p2p.Discover` resolves them to, and no answer past the third dial changes anything
(`connectBootnodes_three_dials`). The callback returns the error of a failed dial.
`p2p.Discover` passes it on, and `connectBootnodes` then returns: a failed first dial
ends the call before the next bootnode is tried (`connectBootnodes_failed_dial`).
-/

namespace Voyager.Kademlia
open Voyager.Infinity

/-- `connectBootnodes`'s counters: at most `maxBootnodeAttempts` dials, and no more
connections than dials. -/
structure BootState.Bounded (st : BootState) : Prop where
  connected_le : st.connected ≤ st.attempts
  attempts_le : st.attempts ≤ maxBootnodeAttempts

section
variable (maxPO : Nat)

/-- One call of the callback: it refuses to dial once `maxBootnodeAttempts` dials are
made, and otherwise makes one dial and counts at most one more connection. -/
theorem bootnodeVisit_cases (dials : Nat → BootDial) (st : BootState) :
    (maxBootnodeAttempts ≤ st.attempts ∧ bootnodeVisit maxPO dials st = (st, true, none)) ∨
      (st.attempts < maxBootnodeAttempts ∧
        (bootnodeVisit maxPO dials st).1.attempts = st.attempts + 1 ∧
        (bootnodeVisit maxPO dials st).1.connected ≤ st.connected + 1) := by
  unfold bootnodeVisit
  by_cases ha : maxBootnodeAttempts ≤ st.attempts
  · exact .inl ⟨ha, if_pos ha⟩
  · rw [if_neg ha]
    refine .inr ⟨by omega, ?_⟩
    dsimp only
    split
    · split <;> exact ⟨rfl, by simp⟩
    all_goals exact ⟨rfl, by simp⟩

/-- The callback keeps the counters bounded, and reads no dial past the third. -/
theorem bootnodeVisit_bounded {dials dials' : Nat → BootDial}
    (hsame : ∀ n < maxBootnodeAttempts, dials n = dials' n) {st : BootState} (h : st.Bounded) :
    (bootnodeVisit maxPO dials st).1.Bounded ∧
      bootnodeVisit maxPO dials st = bootnodeVisit maxPO dials' st := by
  rcases bootnodeVisit_cases maxPO dials st with ⟨ha, hv⟩ | ⟨ha, hatt, hcon⟩
  · rcases bootnodeVisit_cases maxPO dials' st with ⟨-, hv'⟩ | ⟨ha', -⟩
    · rw [hv, hv']; exact ⟨h, rfl⟩
    · omega
  · refine ⟨⟨by have := h.connected_le; omega, by omega⟩, ?_⟩
    unfold bootnodeVisit
    rw [if_neg (by omega), if_neg (by omega), hsame _ ha]

theorem discover_bounded {dials dials' : Nat → BootDial}
    (hsame : ∀ n < maxBootnodeAttempts, dials n = dials' n) :
    ∀ (us : List Underlay) {st : BootState}, st.Bounded →
      (discover maxPO dials us st).1.Bounded ∧
        discover maxPO dials us st = discover maxPO dials' us st
  | [], _, h => ⟨h, rfl⟩
  | _ :: us, st, h => by
    obtain ⟨hb, hv⟩ := bootnodeVisit_bounded maxPO hsame h
    simp only [discover, ← hv]
    rcases hr : bootnodeVisit maxPO dials st with ⟨st', _ | _, _ | _⟩ <;> rw [hr] at hb
    · exact discover_bounded hsame us hb
    all_goals exact ⟨hb, rfl⟩

theorem bootnodesLoop_bounded (resolve : Underlay → List Underlay) {dials dials' : Nat → BootDial}
    (hsame : ∀ n < maxBootnodeAttempts, dials n = dials' n) (total : Nat) :
    ∀ (addrs : List Underlay) {st : BootState}, st.Bounded →
      (bootnodesLoop maxPO resolve dials total addrs st).Bounded ∧
        bootnodesLoop maxPO resolve dials total addrs st =
          bootnodesLoop maxPO resolve dials' total addrs st
  | [], _, h => ⟨h, rfl⟩
  | addr :: rest, st, h => by
    simp only [bootnodesLoop]
    by_cases hstop : total ≤ st.attempts ∨ 3 ≤ st.connected
    · rw [if_pos hstop, if_pos hstop]; exact ⟨h, rfl⟩
    rw [if_neg hstop, if_neg hstop]
    obtain ⟨hb, hd⟩ := discover_bounded maxPO hsame (resolve addr) h
    rw [← hd]
    rcases hr : discover maxPO dials (resolve addr) st with ⟨st', _ | _⟩ <;> rw [hr] at hb
    · exact bootnodesLoop_bounded resolve hsame total rest hb
    · exact ⟨hb, rfl⟩

/-- **At most three bootnode dials.** Whatever `p2p.Discover` resolves each bootnode to,
and whatever the dials answer, `connectBootnodes` depends on the answers of its first
`maxBootnodeAttempts` dials only, makes at most that many dials in all, and connects
no more bootnodes than it dials. -/
theorem connectBootnodes_three_dials (k : Kad) (resolve : Underlay → List Underlay)
    (dials dials' : Nat → BootDial) (hsame : ∀ n < maxBootnodeAttempts, dials n = dials' n) :
    k.connectBootnodes maxPO resolve dials = k.connectBootnodes maxPO resolve dials' ∧
      let st := bootnodesLoop maxPO resolve dials (maxBootnodeAttempts * k.bootnodes.length)
        k.bootnodes ⟨k, [], 0, 0⟩
      st.connected ≤ st.attempts ∧ st.attempts ≤ maxBootnodeAttempts := by
  obtain ⟨hb, heq⟩ := bootnodesLoop_bounded maxPO resolve hsame
    (maxBootnodeAttempts * k.bootnodes.length) k.bootnodes
    (show BootState.Bounded ⟨k, [], 0, 0⟩ from ⟨le_refl _, Nat.zero_le _⟩)
  exact ⟨by simp only [Kad.connectBootnodes, heq], hb.connected_le, hb.attempts_le⟩

/-- One bootnode that `p2p.Discover` resolves to four underlays, each dial answering
`ErrAlreadyConnected`, against dials that answer otherwise from the fourth on: three
dials are made, and the fourth answer is never read. -/
theorem connectBootnodes_three_dials_alreadyConnected :
    let k := Kad.new 3 (Address.ofHead 0) ⟨none, [⟨[1]⟩], false, false, 2⟩
    let resolve : Underlay → List Underlay := fun u => [u, u, u, u]
    let dials : Nat → BootDial := fun _ => ⟨0, .alreadyConnected (Address.ofHead 1), true⟩
    let dials' : Nat → BootDial := fun n =>
      if n < 3 then dials n else ⟨0, .ok (Address.ofHead 2), true⟩
    (dials' 3).reply ≠ (dials 3).reply ∧
      (bootnodesLoop 3 resolve dials (maxBootnodeAttempts * k.bootnodes.length) k.bootnodes
        ⟨k, [], 0, 0⟩).attempts = 3 ∧
      ((∀ n < maxBootnodeAttempts, dials n = dials' n) ∧
        (k.connectBootnodes 3 resolve dials = k.connectBootnodes 3 resolve dials' ∧
          let st := bootnodesLoop 3 resolve dials (maxBootnodeAttempts * k.bootnodes.length)
            k.bootnodes ⟨k, [], 0, 0⟩
          st.connected ≤ st.attempts ∧ st.attempts ≤ maxBootnodeAttempts)) :=
  ⟨by decide, by decide, fun _ hn => (if_pos hn).symm,
    connectBootnodes_three_dials 3 _ _ _ _ fun _ hn => (if_pos hn).symm⟩

/-- **A failed bootnode dial ends `connectBootnodes`.** When `p2p.Discover` calls the
callback with the bootnode's own underlay and the first dial fails (an error that is
not `p2p.ErrAlreadyConnected`), the callback returns the error, `p2p.Discover`
returns it, and `connectBootnodes` returns at once: no later bootnode is dialed,
whatever its dial would answer, and nothing is connected. -/
theorem connectBootnodes_failed_dial (k : Kad) (resolve : Underlay → List Underlay)
    (hres : ∀ u, resolve u = [u]) (dials : Nat → BootDial)
    (hfail : (dials 0).reply = .failed ∨ ∃ t, (dials 0).reply = .backoff t)
    (hboot : k.bootnodes ≠ []) :
    k.connectBootnodes maxPO resolve dials = (k, []) := by
  obtain ⟨addr, rest, hk⟩ := List.exists_cons_of_ne_nil hboot
  have hvisit : bootnodeVisit maxPO dials ⟨k, [], 0, 0⟩ =
      (⟨k, [], 1, 0⟩, false, some .connectFailed) := by
    unfold bootnodeVisit
    rw [if_neg (show ¬maxBootnodeAttempts ≤ 0 by decide)]
    rcases hfail with h | ⟨t, h⟩ <;> simp only [h]
  simp only [Kad.connectBootnodes, hk, bootnodesLoop, List.length_cons, hres, discover, hvisit]
  rw [if_neg (by simp [maxBootnodeAttempts])]

/-- Two bootnodes: the first dial fails, and the second bootnode, whose dial would
connect, is never tried. -/
theorem connectBootnodes_failed_dial_two :
    let k := Kad.new 3 (Address.ofHead 0) ⟨none, [⟨[1]⟩, ⟨[2]⟩], false, false, 2⟩
    let resolve : Underlay → List Underlay := fun u => [u]
    let dials : Nat → BootDial := fun n =>
      if n = 0 then ⟨0, .failed, true⟩ else ⟨0, .ok (Address.ofHead 1), true⟩
    (∀ u, resolve u = [u]) ∧ ((dials 0).reply = .failed ∨ ∃ t, (dials 0).reply = .backoff t) ∧
      k.bootnodes ≠ [] ∧ k.connectBootnodes 3 resolve dials = (k, []) :=
  ⟨fun _ => rfl, .inl rfl, List.cons_ne_nil _ _,
    connectBootnodes_failed_dial 3 _ _ (fun _ => rfl) _ (.inl rfl) (List.cons_ne_nil _ _)⟩

end

end Voyager.Kademlia
