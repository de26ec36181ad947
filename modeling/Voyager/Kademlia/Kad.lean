import Voyager.Kademlia.Depth
import Voyager.Kademlia.Prefixes

/-!
# The kademlia topology driver

`Kad` and its entry points (`pkg/kademlia/kademlia_test.go:1145-2083`): `New`,
`AddPeers`, `Pick`, `Connected`, `Disconnected`, `ClosestPeer`, and `connect` and
`announce`, which the manage loop calls. The collaborators (address book, p2p,
discovery, clock) are not modelled as state: each call takes their answers as
arguments (`Dial`, `ConnectReply`, `Lookup`), so one definition covers every
answer they may give. The calls out that the results about runs watch are returned as
`Event`s: the dials, the address-book prunes and the connection changes. Time is
`time.Time` in nanoseconds; `infinity.MaxPO` is the parameter `maxPO`.

`p2p.Disconnect` reports the disconnection of a peer p2p holds back to the topology
(`pkg/pingpong/pingpong.go:554-558`), that is to `Disconnected`, before it returns; a
peer p2p does not hold gives `p2p.ErrPeerNotFound` (`TestDoubleDisconnect`). So the
`Disconnect` calls of `announce` and `connect` run `Disconnected` inside them
(`connectDrops`).
-/

namespace Voyager.Kademlia
open Voyager.Infinity

/-- `timeToRetry`: 60 s in nanoseconds. -/
def timeToRetry : Int := 60 * 1000000000

/-- `shortRetry`: 30 s in nanoseconds. -/
def shortRetry : Int := 30 * 1000000000

/-- `maxConnAttempts`. -/
def maxConnAttempts : Int := 3

/-- `maxBootnodeAttempts`. -/
def maxBootnodeAttempts : Nat := 3

/-- `defaultBitSuffixLength`. -/
def defaultBitSuffixLength : Int := 2

/-- `retryInfo`. -/
structure RetryInfo where
  tryAfter : Int
  failedAttempts : Int
  deriving DecidableEq, Repr

/-- A transport address (`ma.Multiaddr`). -/
structure Underlay where
  bytes : List UInt8
  deriving DecidableEq, Repr

/-- What `p2p.Connect` answers. -/
inductive ConnectReply where
  /-- connected, to the peer with this overlay -/
  | ok (overlay : Address)
  /-- `p2p.ErrAlreadyConnected`, with the overlay connected at that underlay -/
  | alreadyConnected (overlay : Address)
  /-- a `*p2p.ConnectionBackoffError` with its `TryAfter()` -/
  | backoff (tryAfter : Int)
  /-- any other error -/
  | failed
  deriving DecidableEq, Repr

/-- What `addressBook.Get` answers. -/
inductive Lookup where
  | found (underlay : Underlay)
  | notFound
  | failed
  deriving DecidableEq, Repr

/-- The errors kademlia tells apart. -/
inductive KadError where
  | overlayMismatch
  | missingAddressBookEntry
  | addressBook
  | connectFailed
  | announceFailed
  | notFound
  | wantSelf
  | oversaturated
  deriving DecidableEq, Repr

/-- What kademlia's calls out are observed as. -/
inductive Event where
  /-- `connect` dialled `peer` at `now`, `p2p.Connect` answered `reply`, and
  `connect` returned `err` -/
  | dial (peer : Address) (now : Int) (reply : ConnectReply) (err : Option KadError)
  /-- `connect` pruned `peer` from the address book -/
  | prune (peer : Address)
  /-- `peer` joined `connectedPeers`, through `connected` or a dial of the manage loop -/
  | connected (peer : Address)
  /-- `Disconnected(peer)` ran at `now` -/
  | disconnected (peer : Address) (now : Int)
  deriving DecidableEq, Repr

/-- The collaborators' answers at one dial of the manage loop: the clock, the
address book's answer for each peer, `p2p.Connect`'s answer for each peer's
underlay, whether `BroadcastPeers` to the new peer succeeds, and whether p2p holds a
connection to the dialled peer itself, so that `p2p.Disconnect(peer)` finds it. -/
structure Dial where
  now : Int
  lookup : Address → Lookup
  reply : Address → ConnectReply
  announced : Bool
  holdsPeer : Bool

/-- `Kad` (`kademlia_test.go:1176`), the fields its logic reads and writes. -/
structure Kad where
  base : Address
  saturationFunc : Nat → PSlice → PSlice → Bool × Bool
  bitSuffixLength : Int
  commonBinPrefixes : List (List Address)
  connectedPeers : PSlice
  knownPeers : PSlice
  bootnodes : List Underlay
  depth : Nat
  waitNext : Address → Option RetryInfo
  standalone : Bool
  bootnode : Bool

/-- `Options` (`kademlia_test.go:1167`). -/
structure Options where
  saturationFunc : Option (Nat → PSlice → PSlice → Bool × Bool)
  bootnodes : List Underlay
  standaloneMode : Bool
  bootnodeMode : Bool
  bitSuffixLength : Int

section
variable (maxPO : Nat)

/-- `New` (`kademlia_test.go:1208`), with `MaxBins = maxPO + 1`. -/
def Kad.new (base : Address) (o : Options) : Kad :=
  let bsl := if o.bitSuffixLength = 0 then defaultBitSuffixLength else o.bitSuffixLength
  { base := base
    saturationFunc := o.saturationFunc.getD binSaturated
    bitSuffixLength := bsl
    commonBinPrefixes :=
      if 0 < bsl then generateCommonBinPrefixes base bsl.toNat (maxPO + 1)
      else List.replicate (maxPO + 1) []
    connectedPeers := PSlice.new (maxPO + 1)
    knownPeers := PSlice.new (maxPO + 1)
    bootnodes := o.bootnodes
    depth := 0
    waitNext := fun _ => none
    standalone := o.standaloneMode
    bootnode := o.bootnodeMode }

namespace Kad

/-- `waitNext[peer] = info`. -/
def setRetry (k : Kad) (peer : Address) (info : Option RetryInfo) : Kad :=
  { k with waitNext := Function.update k.waitNext peer info }

/-- `spf` of `manage`: `peer` has a retry entry whose `tryAfter` is still ahead. -/
def sanctioned (k : Kad) (now : Int) (peer : Address) : Bool :=
  match k.waitNext peer with
  | some info => decide (now < info.tryAfter)
  | none => false

/-- `AddPeers` (`kademlia_test.go:1790`). -/
def addPeers (k : Kad) : List Address → Kad
  | [] => k
  | a :: rest =>
    if a ∈ k.knownPeers then k.addPeers rest
    else { k with knownPeers := k.knownPeers.add a (proximity maxPO k.base a) }.addPeers rest

/-- `announce` (`kademlia_test.go:1749`): whether it succeeds. The gossip to the
other peers runs detached and cannot fail it; the batch to `peer` is sent when
there is another connected peer, and `sent` says whether it went through. -/
def announce (k : Kad) (peer : Address) (sent : Bool) : Bool :=
  (k.connectedPeers.peers.filter (· ≠ peer)).isEmpty || sent

/-- The part of `connected` (`kademlia_test.go:1842`) after a successful `announce`. -/
def join (k : Kad) (addr : Address) : Kad :=
  let po := proximity maxPO k.base addr
  let connected := k.connectedPeers.add addr po
  { k with
    knownPeers := k.knownPeers.add addr po
    connectedPeers := connected
    waitNext := Function.update k.waitNext addr none
    depth := recalcDepth connected }

/-- `Disconnected` (`kademlia_test.go:1866`). -/
def disconnected (k : Kad) (peer : Address) (now : Int) : Kad × List Event :=
  let connected := k.connectedPeers.remove peer (proximity maxPO k.base peer)
  ({ k with
      connectedPeers := connected
      waitNext := Function.update k.waitNext peer (some ⟨now + timeToRetry, 0⟩)
      depth := recalcDepth connected }, [.disconnected peer now])

/-- `Disconnected` for each peer in turn. -/
def disconnectAll (k : Kad) (now : Int) : List Address → Kad × List Event
  | [] => (k, [])
  | p :: ps =>
    let r := k.disconnected maxPO p now
    let rest := r.1.disconnectAll now ps
    (rest.1, r.2 ++ rest.2)

/-- `connected` (`kademlia_test.go:1842`) at `now`. A failed `announce` calls
`p2p.Disconnect(addr)` on a peer p2p has just connected, which runs `Disconnected`. -/
def connected (k : Kad) (addr : Address) (sent : Bool) (now : Int) :
    Kad × List Event × Option KadError :=
  if k.announce addr sent then (k.join maxPO addr, [.connected addr], none)
  else
    let r := k.disconnected maxPO addr now
    (r.1, r.2, some .announceFailed)

/-- `Pick` (`kademlia_test.go:1808`). -/
def pick (k : Kad) (peer : Address) : Bool :=
  k.bootnode || !(k.saturationFunc (proximity maxPO k.base peer) k.knownPeers k.connectedPeers).2

/-- `Connected` (`kademlia_test.go:1821`) at `now`. -/
def connectedIn (k : Kad) (peer : Address) (sent : Bool) (now : Int) :
    Kad × List Event × Option KadError :=
  if !k.bootnode &&
      (k.saturationFunc (proximity maxPO k.base peer) k.knownPeers k.connectedPeers).2 then
    (k, [], some .oversaturated)
  else k.connected maxPO peer sent now

/-- `connect` (`kademlia_test.go:1694`) dialling `peer` with the collaborators'
answers `d`: the retry entry it writes, whether it pruned the peer from the address
book, and its error. -/
def connectCore (k : Kad) (peer : Address) (d : Dial) : Kad × Bool × Option KadError :=
  match d.reply peer with
  | .alreadyConnected overlay =>
    if overlay = peer then (k, false, none) else (k, false, some .overlayMismatch)
  | .backoff tryAfter => (k.setRetry peer (some ⟨tryAfter, 0⟩), false, some .connectFailed)
  | .failed =>
    let failedAttempts := ((k.waitNext peer).map (·.failedAttempts)).getD 0 + 1
    if maxConnAttempts < failedAttempts then (k.setRetry peer none, true, some .connectFailed)
    else (k.setRetry peer (some ⟨d.now + timeToRetry, failedAttempts⟩), false, some .connectFailed)
  | .ok overlay =>
    if overlay ≠ peer then (k, false, some .overlayMismatch)
    else if k.announce peer d.announced then (k, false, none)
    else (k, false, some .announceFailed)

/-- `connect` writes no field but the retry entries. -/
theorem connectCore_fst (k : Kad) (peer : Address) (d : Dial) :
    ∃ w, (k.connectCore peer d).1 = { k with waitNext := w } := by
  unfold connectCore setRetry
  split <;> (try dsimp only) <;> repeat' split
  all_goals exact ⟨_, rfl⟩

theorem connectCore_waitNext_ne (k : Kad) {peer q : Address} (d : Dial) (hq : q ≠ peer) :
    (k.connectCore peer d).1.waitNext q = k.waitNext q := by
  unfold connectCore setRetry
  split <;> (try dsimp only) <;> repeat' split
  all_goals simp [Function.update_noteq hq]

/-- The peers p2p reports back to `Disconnected` while `connect` runs. After a connection
to another overlay, `connect` disconnects `peer` and that overlay
(`kademlia_test.go:1738-1741`): p2p holds the overlay, and holds `peer` only when
`holdsPeer`. After a failed `announce` it disconnects `peer`, which p2p has just
connected (`kademlia_test.go:1779-1782`). -/
def connectDrops (k : Kad) (peer : Address) (d : Dial) : List Address :=
  match d.reply peer with
  | .ok overlay =>
    if overlay ≠ peer then (if d.holdsPeer then [peer] else []) ++ [overlay]
    else if k.announce peer d.announced then [] else [peer]
  | _ => []

/-- `connect`, with the dial and the prune it reports and then the `Disconnected` calls
p2p makes back into kademlia. -/
def connect (k : Kad) (peer : Address) (d : Dial) : Kad × List Event × Option KadError :=
  let r := k.connectCore peer d
  let drops := r.1.disconnectAll maxPO d.now (k.connectDrops peer d)
  (drops.1, .dial peer d.now (d.reply peer) r.2.2 ::
    ((if r.2.1 then [.prune peer] else []) ++ drops.2), r.2.2)

end Kad

/-- `closestPeer`'s closure: keep the first eligible peer, then any strictly closer one. -/
def closerStep (addr : Address) (spf : Address → Bool) (skip : List Address)
    (closest : Option Address) (peer : Address) (_ : Nat) :
    Option Address × Bool × Bool × Option Empty :=
  if peer ∈ skip ∨ spf peer = true then (closest, false, false, none)
  else match closest with
    | none => (some peer, false, false, none)
    | some c => (if distanceCmp addr c peer = -1 then some peer else some c, false, false, none)

/-- `closestPeer` (`kademlia_test.go:1900`): the closest peer to `addr` neither
skipped nor sanctioned by `spf`; `none` is `topology.ErrNotFound`. -/
def closestPeer (peers : PSlice) (addr : Address) (spf : Address → Bool) (skip : List Address) :
    Option Address :=
  (peers.eachBinRev (closerStep addr spf skip) none).1

namespace Kad

/-- `ClosestPeer`'s closure: skipped peers pass, peers `p2p.Peers()` lacks are
queued for disconnection, the rest compete with the running closest. -/
def closestStep (addr : Address) (skip p2pPeers : List Address)
    (acc : Address × List Address) (peer : Address) (_ : Nat) :
    (Address × List Address) × Bool × Bool × Option Empty :=
  if peer ∈ skip then (acc, false, false, none)
  else if peer ∉ p2pPeers then ((acc.1, acc.2 ++ [peer]), false, false, none)
  else ((if distanceCmp addr acc.1 peer = -1 then peer else acc.1, acc.2), false, false, none)

/-- `ClosestPeer` (`kademlia_test.go:1954`) when `p2p.Peers()` answers `p2pPeers`. -/
def closestPeerOf (k : Kad) (addr : Address) (skip p2pPeers : List Address) (now : Int) :
    (Kad × List Event) × Except KadError Address :=
  if k.connectedPeers.length = 0 then ((k, []), .error .notFound)
  else
    let r := (k.connectedPeers.eachBinRev (closestStep addr skip p2pPeers) (k.base, [])).1
    let after := k.disconnectAll maxPO now r.2
    if r.1 = k.base then (after, .error .wantSelf) else (after, .ok r.1)

/-- `NeighborhoodDepth`. -/
def neighborhoodDepth (k : Kad) : Nat := k.depth

/-- `IsBalanced` (`kademlia_test.go:2060`); `none` where Go indexes
`commonBinPrefixes[bin]` out of range and panics. The skip list's
`infinity.ZeroAddress` is the empty address, which no 32-byte overlay equals. -/
def isBalanced (k : Kad) (bin : UInt8) : Option Bool :=
  if k.commonBinPrefixes.length < bin.toNat then some false
  else match k.commonBinPrefixes[bin.toNat]? with
    | none => none
    | some prefixes => some (prefixes.all fun pseudoAddr =>
        match closestPeer k.connectedPeers pseudoAddr (fun _ => false) [] with
        | none => false
        | some closestConnectedPeer =>
          decide ((bin.toNat : Int) + k.bitSuffixLength + 1 ≤
            extendedProximity closestConnectedPeer pseudoAddr))

end Kad

end

end Voyager.Kademlia
