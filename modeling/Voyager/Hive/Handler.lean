import Voyager.Hive.Broadcast
import Voyager.Ifi.Address

/-!
# Receiving peers

`peersHandler` (`pkg/hive/hive.go:129-171`) is the other end of `BroadcastPeers`. It
reads one `Peers` message and parses each record with `ifi.ParseAddress`. It skips a
record that is rejected or that `addressBook.Put` fails to store, and hands the
overlays it stored to the `addPeersHandler`. The sender writes a record of its address
book as its overlay's bytes, its underlay's bytes and its signature (`toRecord`,
`hive.go:114-118`).

Suppose the sender's address book holds records that the receiver's `ParseAddress`
gives back unchanged, as it does for every record `NewAddress` builds with a sound
signer (`accepted_of_newAddress`). Then over working streams, the messages of one
broadcast make the receiver store the sender's records of the peers of `L`, in `L`'s
order, each once, keeping those its `Put` stores (`broadcast_received`). The
receiver's collaborators are parameters, as the sender's are.
-/

namespace Voyager.Hive
open Voyager.Infinity

/-- The errors `peersHandler` returns: reading the message, or the `addPeersHandler`'s. -/
inductive HandlerError where
  | read
  | addPeers
  deriving DecidableEq, Repr

section
variable {PublicKey Multiaddr : Type} (c : Ifi.Recovery PublicKey Multiaddr) (networkID : UInt64)

/-- The loop of `peersHandler` over the records read (`hive.go:148-163`): a record that
`ifi.ParseAddress` rejects, or that `addressBook.Put` does not store, is skipped. -/
def storePeers (put : Address → Ifi.Address Multiaddr → Bool) :
    List Record → List (Ifi.Address Multiaddr)
  | [] => []
  | r :: rs =>
    match Ifi.parseAddress c r.underlay r.overlay r.signature networkID with
    | some a => if put a.overlay a then a :: storePeers put rs else storePeers put rs
    | none => storePeers put rs

/-- `peersHandler` (`hive.go:129`). `msg` is what `ReadMsgWithContext` reads (`none` on an
error, after which the stream is reset), and `addPeersHandler` the handler
`SetAddPeersHandler` set, if any, answering whether it succeeds on the overlays it is
handed. Returns the records stored in the address book, and the error. -/
def peersHandler (put : Address → Ifi.Address Multiaddr → Bool)
    (addPeersHandler : Option (List Address → Bool)) (msg : Option (List Record)) :
    List (Ifi.Address Multiaddr) × Option HandlerError :=
  match msg with
  | none => ([], some .read)
  | some records =>
    let stored := storePeers c networkID put records
    match addPeersHandler with
    | some h => (stored, if h (stored.map (·.overlay)) then none else some .addPeers)
    | none => (stored, none)

/-- The receiving side of a broadcast: `peersHandler` on each message written, in order. -/
def receive (put : Address → Ifi.Address Multiaddr → Bool)
    (addPeersHandler : Option (List Address → Bool)) (events : List Event) :
    List (List (Ifi.Address Multiaddr) × Option HandlerError) :=
  events.filterMap fun
    | .wrote m => some (peersHandler c networkID put addPeersHandler (some m))
    | _ => none

/-- The `pb.IfiAddress` that `sendPeers` writes for a record of its address book
(`hive.go:114-118`), with `Underlay.Bytes()` given as `bytes`. -/
def toRecord (bytes : Multiaddr → List UInt8) (a : Ifi.Address Multiaddr) : Record :=
  ⟨a.overlay.bytes, bytes a.underlay, a.signature⟩

/-- What `addressBook.Get` answers on the sending side, over a book of records. -/
def bookLookup (bytes : Multiaddr → List UInt8) (book : Address → Option (Ifi.Address Multiaddr))
    (p : Address) : Lookup :=
  match book p with
  | some a => .found (toRecord bytes a)
  | none => .notFound

/-- A record that the receiver's `ParseAddress` gives back unchanged from what the
sender writes. -/
def Accepted (bytes : Multiaddr → List UInt8) (a : Ifi.Address Multiaddr) : Prop :=
  Ifi.parseAddress c (bytes a.underlay) a.overlay.bytes a.signature networkID = some a

/-- What `NewAddress` builds from a signer whose signatures recover to its key is
accepted, when the underlay's bytes parse back to it. -/
theorem accepted_of_newAddress {sign : List UInt8 → Option (List UInt8)}
    {bytes : Multiaddr → List UInt8} {pk : PublicKey} {underlay : Multiaddr}
    {overlay : Address} {a : Ifi.Address Multiaddr}
    (hsign : ∀ data sig, sign data = some sig → c.recover sig data = some pk)
    (hoverlay : c.newOverlayAddress pk networkID = some overlay)
    (hmarshal : c.newMultiaddrBytes (bytes underlay) = some underlay)
    (ha : Ifi.newAddress sign (fun u => some (bytes u)) underlay overlay networkID = some a) :
    Accepted c networkID bytes a := by
  obtain ⟨b, hb, hsig, ha⟩ := Ifi.newAddress_eq_some ha
  cases hb
  rw [ha]
  exact Ifi.parseAddress_of_recover (hsign _ _ hsig) hoverlay hmarshal

theorem storePeers_append (put : Address → Ifi.Address Multiaddr → Bool) :
    ∀ (rs rs' : List Record),
      storePeers c networkID put (rs ++ rs') =
        storePeers c networkID put rs ++ storePeers c networkID put rs'
  | [], _ => rfl
  | r :: rs, rs' => by
    rw [List.cons_append, storePeers, storePeers, storePeers_append put rs rs']
    split
    · split <;> rfl
    · rfl

/-- The receiver stores the accepted records the sender writes, those its `Put` stores. -/
theorem storePeers_toRecord (put : Address → Ifi.Address Multiaddr → Bool)
    (bytes : Multiaddr → List UInt8) :
    ∀ (as : List (Ifi.Address Multiaddr)), (∀ a ∈ as, Accepted c networkID bytes a) →
      storePeers c networkID put (as.map (toRecord bytes)) = as.filter fun a => put a.overlay a
  | [], _ => rfl
  | a :: as, h => by
    have ha : Accepted c networkID bytes a := h a (List.mem_cons_self _ _)
    simp only [List.map_cons, storePeers, toRecord]
    rw [ha, List.filter_cons, storePeers_toRecord put bytes as fun a' ha' =>
      h a' (List.mem_cons_of_mem _ ha')]

theorem flatten_map_storePeers (put : Address → Ifi.Address Multiaddr → Bool) :
    ∀ (ms : List (List Record)),
      (ms.map (storePeers c networkID put)).flatten = storePeers c networkID put ms.flatten
  | [] => rfl
  | m :: ms => by
    rw [List.map_cons, List.flatten_cons, List.flatten_cons, storePeers_append,
      flatten_map_storePeers put ms]

theorem peersHandler_fst (put : Address → Ifi.Address Multiaddr → Bool)
    (addPeersHandler : Option (List Address → Bool)) (m : List Record) :
    (peersHandler c networkID put addPeersHandler (some m)).1 = storePeers c networkID put m := by
  cases addPeersHandler <;> rfl

theorem receive_wrote (put : Address → Ifi.Address Multiaddr → Bool)
    (addPeersHandler : Option (List Address → Bool)) :
    ∀ (msgs : List (List Record)),
      receive c networkID put addPeersHandler
          (msgs.flatMap fun m => [.opened, .wrote m, .fullClose]) =
        msgs.map fun m => peersHandler c networkID put addPeersHandler (some m)
  | [] => rfl
  | m :: msgs => by
    rw [List.flatMap_cons, List.map_cons, ← receive_wrote put addPeersHandler msgs]
    rfl

theorem recordOf_bookLookup (bytes : Multiaddr → List UInt8)
    (book : Address → Option (Ifi.Address Multiaddr)) (p : Address) :
    recordOf (bookLookup bytes book) p = (book p).map (toRecord bytes) := by
  unfold recordOf bookLookup
  cases book p <;> rfl

/-- **A broadcast delivers the sender's records, each once.** When every record in the
sender's address book is accepted and every stream operation succeeds, the receiver
runs `peersHandler` once per batch of `L`. Together the runs store the sender's records
of the peers of `L`, in `L`'s order, keeping those its `Put` stores: no record is lost,
repeated or reordered, whatever `addPeersHandler` answers. -/
theorem broadcast_received (bytes : Multiaddr → List UInt8)
    (book : Address → Option (Ifi.Address Multiaddr)) (streams : StreamAnswers)
    (put : Address → Ifi.Address Multiaddr → Bool)
    (addPeersHandler : Option (List Address → Bool)) (L : List Address)
    (hs : ∀ k, streams.newStream k = true ∧ streams.write k = true)
    (haccepted : ∀ p a, book p = some a → Accepted c networkID bytes a) :
    let results := receive c networkID put addPeersHandler
      (broadcastPeers (bookLookup bytes book) streams L).1
    results.length = (L.length + maxBatchSize - 1) / maxBatchSize ∧
      (results.map (·.1)).flatten = (L.filterMap book).filter fun a => put a.overlay a := by
  have hfound : ∀ p ∈ L, bookLookup bytes book p ≠ .failed := fun p _ => by
    unfold bookLookup; split <;> nofun
  have hmsgs : ((batches L).map fun b => b.filterMap (recordOf (bookLookup bytes book))).flatten =
      (L.filterMap book).map (toRecord bytes) := by
    rw [← List.filterMap_flatten, flatten_batches, List.map_filterMap]
    exact congrArg (List.filterMap · L) (funext (recordOf_bookLookup bytes book))
  have hfst : (fun r => r.1) ∘ (fun m => peersHandler c networkID put addPeersHandler (some m)) =
      storePeers c networkID put := funext (peersHandler_fst c networkID put addPeersHandler)
  rw [broadcastPeers_of_ok _ streams L hs hfound, receive_wrote]
  refine ⟨by simp only [List.length_map, length_batches], ?_⟩
  rw [List.map_map, hfst, flatten_map_storePeers, hmsgs,
    storePeers_toRecord c networkID put bytes _ fun a ha => ?_]
  obtain ⟨p, -, hp⟩ := List.mem_filterMap.1 ha
  exact haccepted p a hp

end

/-- A sender that holds one of two peers, over working streams: the receiver stores that
peer's record. -/
theorem broadcast_received_one :
    let c : Ifi.Recovery Unit (List UInt8) :=
      ⟨fun _ _ => some (), fun _ _ => some (Address.ofHead 7), some⟩
    let book : Address → Option (Ifi.Address (List UInt8)) := fun p =>
      if p = Address.ofHead 7 then some ⟨[4], Address.ofHead 7, [1, 2]⟩ else none
    let streams : StreamAnswers := ⟨fun _ => true, fun _ => true⟩
    let L := [Address.ofHead 1, Address.ofHead 7]
    (∀ k, streams.newStream k = true ∧ streams.write k = true) ∧
      (∀ p a, book p = some a → Accepted c 5 id a) ∧
      let results := receive c 5 (fun _ _ => true) none (broadcastPeers (bookLookup id book) streams L).1
      (results.length = (L.length + maxBatchSize - 1) / maxBatchSize ∧
        (results.map (·.1)).flatten = (L.filterMap book).filter fun _ => true) := by
  intro c book streams L
  have haccepted : ∀ p a, book p = some a → Accepted c 5 id a := fun p a h => by
    by_cases hp : p = Address.ofHead 7
    · simp only [book, if_pos hp, Option.some_inj] at h
      subst h; rfl
    · simp only [book, if_neg hp] at h; cases h
  exact ⟨fun _ => ⟨rfl, rfl⟩, haccepted,
    broadcast_received c 5 id book streams _ none L (fun _ => ⟨rfl, rfl⟩) haccepted⟩

end Voyager.Hive
