import Voyager.Kademlia.Kad

/-!
# The manage loop, and runs of kademlia

One wake-up of `manage` (`pkg/kademlia/kademlia_test.go:1358-1574`): the balanced
pass over every pseudo-address, the bin-filling pass over the known peers
shallowest bin first, and bootnode dialing when no peer is connected. Both passes
handle a dialled peer with the same code, `manageDial`. A run is a sequence of
`Call`s, each with the collaborators' answers it meets; `Reachable` is every state a
run from `New` reaches. The loop's timer, the `manageC` signal and the locks only
decide when a wake-up happens, so they are not modelled.
-/

namespace Voyager.Kademlia
open Voyager.Infinity

/-- How the balanced pass goes on after one pseudo-address: to the next one, to the
next bin (`break`), or out of the pass (`return err`) with the peer to drop. -/
inductive Flow where
  | next
  | breakBin
  | stop (err : KadError) (peer : Option Address)

/-- What a bootnode dial meets: the clock, `p2p.Connect`'s answer and whether the
`BroadcastPeers` of `connected`'s `announce` goes through. -/
structure BootDial where
  now : Int
  reply : ConnectReply
  announced : Bool

/-- `connectBootnodes`'s variables. -/
structure BootState where
  kad : Kad
  events : List Event
  attempts : Nat
  connected : Nat

/-- What one wake-up of the manage loop meets: the dial at pseudo-address `j` of bin
`i`, the dial of each known peer in the bin-filling pass, whether `quit` is closed,
what `p2p.Discover` resolves each bootnode to, and the `n`-th bootnode dial. -/
structure Env where
  balanced : Nat → Nat → Dial
  filling : Address → Dial
  quit : Bool
  resolve : Underlay → List Underlay
  boot : Nat → BootDial

/-- One call into kademlia, with the collaborators' answers it meets. -/
inductive Call where
  | addPeers (addrs : List Address)
  | connected (peer : Address) (sent : Bool) (now : Int)
  | disconnected (peer : Address) (now : Int)
  | closestPeer (addr : Address) (skip p2pPeers : List Address) (now : Int)
  | manage (env : Env)

section
variable (maxPO : Nat)

namespace Kad

/-- What both passes of `manage` do after a failed `connect` of `peer`
(`kademlia_test.go:1433-1451`, repeated at `1514-1532`): forget the peer on an overlay
mismatch, and write a retry entry unless one is there. -/
def dialFailed (k : Kad) (peer : Address) (po : Nat) (now : Int) (e : KadError) : Kad :=
  let k₁ := if e = .overlayMismatch then { k with knownPeers := k.knownPeers.remove peer po } else k
  if (k₁.waitNext peer).isSome then k₁ else k₁.setRetry peer (some ⟨now + timeToRetry, 0⟩)

/-- What both passes do after a successful `connect` (`kademlia_test.go:1454-1462`,
`1535-1543`): a short retry entry, and the peer joins `connectedPeers`. -/
def dialed (k : Kad) (peer : Address) (po : Nat) (now : Int) : Kad :=
  let connected := k.connectedPeers.add peer po
  { k with
    waitNext := Function.update k.waitNext peer (some ⟨now + shortRetry, 0⟩)
    connectedPeers := connected
    depth := recalcDepth connected }

/-- What both passes of `manage` do once `peer`'s underlay is found
(`kademlia_test.go:1429-1466`, repeated at `1513-1551`): `connect`, then `dialFailed` or
`dialed`. The flag says whether the dial succeeded. -/
def manageDial (k : Kad) (peer : Address) (po : Nat) (d : Dial) : Kad × List Event × Bool :=
  let r := k.connect maxPO peer d
  match r.2.2 with
  | some e => (r.1.dialFailed peer po d.now e, r.2.1, false)
  | none => (r.1.dialed peer po d.now, r.2.1 ++ [.connected peer], true)

/-- `connect` writes retry entries, then runs `Disconnected` on the peers p2p reports. -/
theorem connect_fst (k : Kad) (peer : Address) (d : Dial) :
    ∃ w, (k.connect maxPO peer d).1 =
      (({ k with waitNext := w } : Kad).disconnectAll maxPO d.now (k.connectDrops peer d)).1 := by
  obtain ⟨w, hw⟩ := k.connectCore_fst peer d
  exact ⟨w, by rw [← hw]; rfl⟩

/-- `manageDial` by `connect`'s error. -/
theorem manageDial_cases (k : Kad) (peer : Address) (po : Nat) (d : Dial) :
    let c := k.connect maxPO peer d
    (∃ e, c.2.2 = some e ∧
        k.manageDial maxPO peer po d = (c.1.dialFailed peer po d.now e, c.2.1, false)) ∨
      (c.2.2 = none ∧
        k.manageDial maxPO peer po d = (c.1.dialed peer po d.now, c.2.1 ++ [.connected peer], true)) := by
  rcases h : (k.connect maxPO peer d).2.2 with _ | e
  · exact .inr ⟨h, by simp only [manageDial, h]⟩
  · exact .inl ⟨e, h, by simp only [manageDial, h]⟩

/-- What `dialFailed` can do: write the peer's retry entry, and forget it on an overlay
mismatch. -/
theorem dialFailed_cases (k : Kad) (peer : Address) (po : Nat) (now : Int) (e : KadError) :
    (∃ w, k.dialFailed peer po now e = { k with waitNext := w }) ∨
      ∃ w, k.dialFailed peer po now e =
        { k with waitNext := w, knownPeers := k.knownPeers.remove peer po } := by
  unfold dialFailed setRetry
  by_cases h : e = .overlayMismatch
  · simp only [if_pos h]; exact .inr (by split_ifs <;> exact ⟨_, rfl⟩)
  · simp only [if_neg h]; exact .inl (by split_ifs <;> exact ⟨_, rfl⟩)

@[simp] theorem dialFailed_connectedPeers (k : Kad) (peer : Address) (po : Nat) (now : Int)
    (e : KadError) : (k.dialFailed peer po now e).connectedPeers = k.connectedPeers := by
  unfold dialFailed setRetry; dsimp only
  split_ifs <;> rfl

/-- `dialFailed` writes a fresh retry entry for `peer` when it has none, and no other. -/
theorem dialFailed_waitNext (k : Kad) (peer : Address) (po : Nat) (now : Int) (e : KadError) :
    (k.dialFailed peer po now e).waitNext = Function.update k.waitNext peer
      (if (k.waitNext peer).isSome then k.waitNext peer else some ⟨now + timeToRetry, 0⟩) := by
  unfold dialFailed setRetry
  split_ifs <;> simp_all

/-- The balanced pass at pseudo-address `pseudo` of bin `i` (`kademlia_test.go:1374-1466`). -/
def balancedVisit (k : Kad) (i : Nat) (pseudo : Address) (d : Dial) : Kad × List Event × Flow :=
  match closestPeer k.connectedPeers pseudo (fun _ => false) [] with
  | none => (k, [], .breakBin)
  | some closestConnected =>
    if (extendedProximity closestConnected pseudo : Int) < i + k.bitSuffixLength + 1 then
      match closestPeer k.knownPeers pseudo (k.sanctioned d.now) [] with
      | none => (k, [], .breakBin)
      | some peer =>
        if peer ∈ k.connectedPeers then (k, [], .next)
        else if (extendedProximity peer pseudo : Int) < i + k.bitSuffixLength + 1 then (k, [], .next)
        else match d.lookup peer with
          | .notFound => (k, [], .stop .missingAddressBookEntry (some peer))
          | .failed => (k, [], .stop .addressBook none)
          | .found _ =>
            let r := k.manageDial maxPO peer (proximity maxPO k.base peer) d
            (r.1, r.2.1, .next)
    else (k, [], .next)

end Kad

/-- The balanced pass over the pseudo-addresses of bin `i`, from suffix `j` on. -/
def balancedRow (i : Nat) (dials : Nat → Dial) :
    Kad → Nat → List Address → Kad × List Event × Option (KadError × Option Address)
  | k, _, [] => (k, [], none)
  | k, j, pseudo :: rest =>
    let r := k.balancedVisit maxPO i pseudo (dials j)
    match r.2.2 with
    | .next =>
      let s := balancedRow i dials r.1 (j + 1) rest
      (s.1, r.2.1 ++ s.2.1, s.2.2)
    | .breakBin => (r.1, r.2.1, none)
    | .stop e p => (r.1, r.2.1, some (e, p))

/-- The balanced pass from bin `i` on. -/
def balancedRows (dials : Nat → Nat → Dial) :
    Kad → Nat → List (List Address) → Kad × List Event × Option (KadError × Option Address)
  | k, _, [] => (k, [], none)
  | k, i, row :: rows =>
    let r := balancedRow maxPO i (dials i) k 0 row
    match r.2.2 with
    | none =>
      let s := balancedRows dials r.1 (i + 1) rows
      (s.1, r.2.1 ++ s.2.1, s.2.2)
    | some e => (r.1, r.2.1, some e)

/-- The bin-filling pass's closure (`kademlia_test.go:1481-1560`). -/
def fillVisit (dials : Address → Dial) (quit : Bool) (acc : Kad × List Event) (peer : Address)
    (po : Nat) : (Kad × List Event) × Bool × Bool × Option (KadError × Option Address) :=
  let k := acc.1
  let d := dials peer
  if peer ∈ k.connectedPeers then (acc, false, false, none)
  else if k.sanctioned d.now peer then (acc, false, false, none)
  else if (k.saturationFunc po k.knownPeers k.connectedPeers).1 then (acc, false, true, none)
  else match d.lookup peer with
    | .notFound => (acc, false, false, some (.missingAddressBookEntry, some peer))
    | .failed => (acc, false, false, some (.addressBook, none))
    | .found _ =>
      let r := k.manageDial maxPO peer po d
      ((r.1, acc.2 ++ r.2.1), r.2.2 && quit, false, none)

namespace Kad

/-- The balanced pass (`kademlia_test.go:1370-1471`): every pseudo-address of every bin. -/
def balancedPass (k : Kad) (dials : Nat → Nat → Dial) :
    Kad × List Event × Option (KadError × Option Address) :=
  balancedRows maxPO dials k 0 k.commonBinPrefixes

/-- The bin-filling pass: `knownPeers.EachBinRev` with `fillVisit`. -/
def fillingPass (k : Kad) (dials : Address → Dial) (quit : Bool) :
    (Kad × List Event) × Option (KadError × Option Address) :=
  k.knownPeers.eachBinRev (fillVisit maxPO dials quit) (k, [])

/-- After a pass: a peer the address book lacks leaves `knownPeers`
(`kademlia_test.go:1473-1480`, `1564-1571`). -/
def dropMissing (k : Kad) : Option (KadError × Option Address) → Kad
  | some (.missingAddressBookEntry, some p) =>
    { k with knownPeers := k.knownPeers.remove p (proximity maxPO k.base p) }
  | _ => k

end Kad

/-- The callback `connectBootnodes` hands `p2p.Discover` (`kademlia_test.go:1603-1626`). -/
def bootnodeVisit (dials : Nat → BootDial) (st : BootState) : BootState × Bool × Option KadError :=
  if maxBootnodeAttempts ≤ st.attempts then (st, true, none)
  else
    let d := dials st.attempts
    let st := { st with attempts := st.attempts + 1 }
    match d.reply with
    | .ok overlay =>
      let r := st.kad.connected maxPO overlay d.announced d.now
      match r.2.2 with
      | some e => ({ st with kad := r.1, events := st.events ++ r.2.1 }, false, some e)
      | none =>
        ({ st with kad := r.1, events := st.events ++ r.2.1, connected := st.connected + 1 },
          decide (3 ≤ st.connected + 1), none)
    | .alreadyConnected _ => (st, false, none)
    | _ => (st, false, some .connectFailed)

/-- Modelled from p2p: `Discover`, which is not in the source tree; as
`connectBootnodes` uses it, it runs the callback on each resolved underlay until the
callback stops or fails. -/
def discover (dials : Nat → BootDial) : List Underlay → BootState → BootState × Option KadError
  | [], st => (st, none)
  | _ :: rest, st =>
    match bootnodeVisit maxPO dials st with
    | (st', _, some e) => (st', some e)
    | (st', true, none) => (st', none)
    | (st', false, none) => discover dials rest st'

/-- `connectBootnodes`'s loop over the bootnodes. -/
def bootnodesLoop (resolve : Underlay → List Underlay) (dials : Nat → BootDial) (total : Nat) :
    List Underlay → BootState → BootState
  | [], st => st
  | addr :: rest, st =>
    if total ≤ st.attempts ∨ 3 ≤ st.connected then st
    else match discover maxPO dials (resolve addr) st with
      | (st', some _) => st'
      | (st', none) => bootnodesLoop resolve dials total rest st'

namespace Kad

/-- `connectBootnodes` (`kademlia_test.go:1591`). -/
def connectBootnodes (k : Kad) (resolve : Underlay → List Underlay) (dials : Nat → BootDial) :
    Kad × List Event :=
  let st := bootnodesLoop maxPO resolve dials (maxBootnodeAttempts * k.bootnodes.length)
    k.bootnodes ⟨k, [], 0, 0⟩
  (st.kad, st.events)

/-- One wake-up of `manage` (`kademlia_test.go:1358-1574`). -/
def manageOnce (k : Kad) (env : Env) : Kad × List Event :=
  if k.standalone then (k, [])
  else
    let b := k.balancedPass maxPO env.balanced
    let k₁ := b.1.dropMissing maxPO b.2.2
    let f := k₁.fillingPass maxPO env.filling env.quit
    let k₂ := f.1.1.dropMissing maxPO f.2
    if k₂.connectedPeers.length = 0 then
      let r := k₂.connectBootnodes maxPO env.resolve env.boot
      (r.1, b.2.1 ++ f.1.2 ++ r.2)
    else (k₂, b.2.1 ++ f.1.2)

/-- One call into kademlia: the state after it and the events it reports. -/
def step (k : Kad) : Call → Kad × List Event
  | .addPeers addrs => (k.addPeers maxPO addrs, [])
  | .connected peer sent now =>
    ((k.connectedIn maxPO peer sent now).1, (k.connectedIn maxPO peer sent now).2.1)
  | .disconnected peer now => k.disconnected maxPO peer now
  | .closestPeer addr skip p2pPeers now => (k.closestPeerOf maxPO addr skip p2pPeers now).1
  | .manage env => k.manageOnce maxPO env

/-- A run: the calls in turn, and every event they report. -/
def run (k : Kad) : List Call → Kad × List Event
  | [] => (k, [])
  | c :: cs =>
    let r := k.step maxPO c
    ((r.1.run cs).1, r.2 ++ (r.1.run cs).2)

end Kad

/-- The states a run from `New` reaches. -/
inductive Reachable : Kad → Prop
  | new (base : Address) (o : Options) : Reachable (Kad.new maxPO base o)
  | step {k : Kad} (c : Call) : Reachable k → Reachable (k.step maxPO c).1

theorem Reachable.run {k : Kad} (h : Reachable maxPO k) : ∀ cs, Reachable maxPO (k.run maxPO cs).1
  | [] => h
  | c :: cs => (h.step c).run cs

end

end Voyager.Kademlia
