import Voyager.Infinity.Address

/-!
# Broadcasting peers in batches

`BroadcastPeers` (`pkg/hive/hive.go:67-84`) cuts the peer list into batches of
`maxBatchSize = 30`, and `sendPeers` (`hive.go:90-127`) opens one stream per batch, looks
each peer up in the address book (skipping `addressbook.ErrNotFound`), writes one `Peers`
message with the records found, and closes the stream (`FullClose`, or `Reset` on an
error). The reused `max` variable shrinks only on the last batch, so the batches are the
consecutive 30-peer slices of the list (`batches`). When every stream operation succeeds
and no lookup fails, the messages are exactly the records of those slices, in order
(`broadcastPeers_batches`). Whatever the address book and the streams answer, the
broadcast sends those slices in order and stops at the first one that fails
(`broadcastPeers_eq_sendBatches`). Both are collaborators, and their answers are
parameters.
-/

namespace Voyager.Hive
open Voyager.Infinity

/-- `maxBatchSize`. -/
def maxBatchSize : Nat := 30

/-- A peer record as a `Peers` message carries it (`pb.IfiAddress`). -/
structure Record where
  overlay : List UInt8
  underlay : List UInt8
  signature : List UInt8
  deriving DecidableEq, Repr

/-- What `addressBook.Get` answers: the peer's record, `addressbook.ErrNotFound`, or
another error. -/
inductive Lookup where
  | found (record : Record)
  | notFound
  | failed
  deriving DecidableEq, Repr

/-- Whether the `k`-th stream's `NewStream` and `WriteMsgWithContext` succeed. -/
structure StreamAnswers where
  newStream : Nat → Bool
  write : Nat → Bool

/-- What a broadcast does on the wire. -/
inductive Event where
  | opened
  | wrote (peers : List Record)
  | fullClose
  | reset
  deriving DecidableEq, Repr

/-- The errors `BroadcastPeers` returns. -/
inductive HiveError where
  | newStream
  | addressBook
  | write
  deriving DecidableEq, Repr

/-- The loop of `sendPeers` over its batch (`hive.go:105-120`). -/
def collectRecords (addressBook : Address → Lookup) : List Address → Except HiveError (List Record)
  | [] => .ok []
  | p :: ps =>
    match addressBook p with
    | .found r => (collectRecords addressBook ps).map (r :: ·)
    | .notFound => collectRecords addressBook ps
    | .failed => .error .addressBook

/-- `sendPeers` (`hive.go:90`) on the `k`-th stream. -/
def sendPeers (addressBook : Address → Lookup) (streams : StreamAnswers) (k : Nat)
    (peers : List Address) : List Event × Option HiveError :=
  if !streams.newStream k then ([], some .newStream)
  else
    match collectRecords addressBook peers with
    | .error e => ([.opened, .reset], some e)
    | .ok records =>
      if streams.write k then ([.opened, .wrote records, .fullClose], none)
      else ([.opened, .reset], some .write)

/-- The loop of `BroadcastPeers` (`hive.go:72-81`), for at most `fuel` batches, from the
`k`-th stream, with `max` as it stands. -/
def broadcastLoop (addressBook : Address → Lookup) (streams : StreamAnswers) :
    Nat → Nat → Nat → List Address → List Event × Option HiveError
  | 0, _, _, _ => ([], none)
  | fuel + 1, k, max, peers =>
    if peers.length = 0 then ([], none)
    else
      let max := if max > peers.length then peers.length else max
      let r := sendPeers addressBook streams k (peers.take max)
      match r.2 with
      | some e => (r.1, some e)
      | none =>
        let rest := broadcastLoop addressBook streams fuel (k + 1) max (peers.drop max)
        (r.1 ++ rest.1, rest.2)

/-- `BroadcastPeers` (`hive.go:67`). Each batch takes at least one peer, so as many
batches as peers are enough. -/
def broadcastPeers (addressBook : Address → Lookup) (streams : StreamAnswers)
    (peers : List Address) : List Event × Option HiveError :=
  broadcastLoop addressBook streams peers.length 0 maxBatchSize peers

/-! ## Batches -/

/-- The `k`-th batch is `L[30k .. 30k+29]`, for `k < ⌈|L| / 30⌉`. -/
def batches (L : List Address) : List (List Address) :=
  (List.range ((L.length + maxBatchSize - 1) / maxBatchSize)).map fun k =>
    (L.drop (maxBatchSize * k)).take maxBatchSize

/-- The record the address book holds for a peer, if any. -/
def recordOf (addressBook : Address → Lookup) (p : Address) : Option Record :=
  match addressBook p with
  | .found r => some r
  | _ => none

theorem batches_cons {L : List Address} (h : L ≠ []) :
    batches L = L.take maxBatchSize :: batches (L.drop maxBatchSize) := by
  have hlen : 0 < L.length := List.length_pos.2 h
  have hn : (L.length + maxBatchSize - 1) / maxBatchSize =
      ((L.drop maxBatchSize).length + maxBatchSize - 1) / maxBatchSize + 1 := by
    simp only [List.length_drop, maxBatchSize]; omega
  rw [batches, hn, List.range_succ_eq_map, List.map_cons, List.map_map, batches]
  simp only [Nat.mul_zero, List.drop_zero, Function.comp_def, Nat.mul_succ,
    Nat.add_comm _ maxBatchSize, List.drop_drop]

theorem length_batches (L : List Address) :
    (batches L).length = (L.length + maxBatchSize - 1) / maxBatchSize := by
  simp [batches]

theorem length_batches_le (L : List Address) : (batches L).length ≤ L.length := by
  rw [length_batches, maxBatchSize]; omega

theorem length_le_of_mem_batches {L b : List Address} (h : b ∈ batches L) :
    b.length ≤ maxBatchSize := by
  obtain ⟨k, -, rfl⟩ := List.mem_map.1 h
  exact List.length_take_le _ _

theorem flatten_batches (L : List Address) : (batches L).flatten = L :=
  match L with
  | [] => rfl
  | p :: ps => by
    rw [batches_cons (List.cons_ne_nil p ps), List.flatten_cons, flatten_batches,
      List.take_append_drop]
termination_by L.length
decreasing_by simp [maxBatchSize]; omega

/-! ## The broadcast sends the batches in order -/

/-- Sending batches in order, one stream each, until one fails. -/
def sendBatches (addressBook : Address → Lookup) (streams : StreamAnswers) :
    Nat → List (List Address) → List Event × Option HiveError
  | _, [] => ([], none)
  | k, b :: bs =>
    let r := sendPeers addressBook streams k b
    match r.2 with
    | some e => (r.1, some e)
    | none =>
      let rest := sendBatches addressBook streams (k + 1) bs
      (r.1 ++ rest.1, rest.2)

section
variable (addressBook : Address → Lookup) (streams : StreamAnswers)

theorem broadcastLoop_nil (fuel k max : Nat) :
    broadcastLoop addressBook streams fuel k max [] = ([], none) := by
  cases fuel <;> rfl

/-- The loop with `max = maxBatchSize` sends the batches in order: `max` shrinks only
on the last batch, after which no peer is left. -/
theorem broadcastLoop_eq : ∀ (fuel k : Nat) (L : List Address), (batches L).length ≤ fuel →
    broadcastLoop addressBook streams fuel k maxBatchSize L =
      sendBatches addressBook streams k (batches L)
  | _, _, [], _ => by rw [broadcastLoop_nil]; rfl
  | 0, _, p :: ps, h => by
    rw [batches_cons (List.cons_ne_nil p ps)] at h; simp at h
  | fuel + 1, k, p :: ps, h => by
    rw [batches_cons (List.cons_ne_nil p ps)] at h ⊢
    simp only [broadcastLoop, List.length_cons, Nat.add_one_ne_zero, if_false, sendBatches]
    by_cases hlast : maxBatchSize > ps.length + 1
    · -- the last batch: `max` shrinks to what is left, and nothing is left after it
      rw [if_pos hlast, ← List.length_cons p, List.take_length, List.drop_length, broadcastLoop_nil,
        List.take_of_length_le (by simp; omega), List.drop_eq_nil_of_le (by simp; omega)]
      rfl
    · rw [if_neg hlast, broadcastLoop_eq fuel (k + 1) _ (by simpa using h)]

/-- **`BroadcastPeers` sends the 30-peer slices in order.** Whatever the address book
and the streams answer, it sends `L[30k .. 30k+29]` on the `k`-th stream, batch after
batch, and stops at the first batch whose `sendPeers` fails, returning its error. -/
theorem broadcastPeers_eq_sendBatches (L : List Address) :
    broadcastPeers addressBook streams L = sendBatches addressBook streams 0 (batches L) :=
  broadcastLoop_eq addressBook streams _ 0 L (length_batches_le L)

/-- Thirty-one peers: a batch of 30, then the one left. -/
example : (batches (List.replicate 31 (Address.ofHead 0))).map List.length = [30, 1] := by
  decide

theorem collectRecords_ok :
    ∀ (ps : List Address), (∀ p ∈ ps, addressBook p ≠ .failed) →
      collectRecords addressBook ps = .ok (ps.filterMap (recordOf addressBook))
  | [], _ => rfl
  | p :: ps, h => by
    rw [collectRecords, List.filterMap_cons, recordOf,
      collectRecords_ok ps fun q hq => h q (List.mem_cons_of_mem _ hq)]
    cases hq : addressBook p with
    | found r => rfl
    | notFound => rfl
    | failed => exact absurd hq (h p (List.mem_cons_self _ _))

/-- `sendPeers` when its stream works and no lookup fails: one stream, one message with
the records found, closed with `FullClose`. -/
theorem sendPeers_ok {k : Nat} (hs : streams.newStream k = true ∧ streams.write k = true)
    {ps : List Address} (h : ∀ p ∈ ps, addressBook p ≠ .failed) :
    sendPeers addressBook streams k ps =
      ([.opened, .wrote (ps.filterMap (recordOf addressBook)), .fullClose], none) := by
  simp [sendPeers, hs.1, hs.2, collectRecords_ok addressBook ps h]

theorem sendBatches_ok (hs : ∀ k, streams.newStream k = true ∧ streams.write k = true) :
    ∀ (k : Nat) (bs : List (List Address)), (∀ p ∈ bs.flatten, addressBook p ≠ .failed) →
      sendBatches addressBook streams k bs =
        ((bs.map fun b => b.filterMap (recordOf addressBook)).flatMap
          fun m => [.opened, .wrote m, .fullClose], none)
  | _, [], _ => rfl
  | k, b :: bs, h => by
    simp only [List.flatten_cons, List.mem_append, or_imp, forall_and] at h
    simp only [sendBatches, sendPeers_ok addressBook streams (hs k) h.1,
      sendBatches_ok hs (k + 1) bs h.2, List.map_cons, List.flatMap_cons]

/-- With working streams and no failed lookup, the broadcast writes one message per
batch, with the records of that batch. -/
theorem broadcastPeers_of_ok (L : List Address)
    (hs : ∀ k, streams.newStream k = true ∧ streams.write k = true)
    (hbook : ∀ p ∈ L, addressBook p ≠ .failed) :
    broadcastPeers addressBook streams L =
      (((batches L).map fun b => b.filterMap (recordOf addressBook)).flatMap
        fun m => [.opened, .wrote m, .fullClose], none) := by
  rw [broadcastPeers, broadcastLoop_eq addressBook streams _ 0 L (length_batches_le L),
    sendBatches_ok addressBook streams hs 0 _ (by rwa [flatten_batches])]

/-- **Every peer the address book holds is broadcast once, at most 30 to a message.**
When every stream operation succeeds and every lookup returns a record or
`ErrNotFound`, `BroadcastPeers` opens `⌈|L| / 30⌉` streams and writes one `Peers`
message on each. Message `k` holds the records of the peers among `L[30k .. 30k+29]`
that the address book holds, in `L`'s order. Together the messages hold the records of
`L`'s peers in the address book, none lost or repeated, and none holds more than
`maxBatchSize`. -/
theorem broadcastPeers_batches (L : List Address)
    (hs : ∀ k, streams.newStream k = true ∧ streams.write k = true)
    (hbook : ∀ p ∈ L, addressBook p ≠ .failed) :
    let msgs := (batches L).map fun b => b.filterMap (recordOf addressBook)
    broadcastPeers addressBook streams L =
        (msgs.flatMap fun m => [.opened, .wrote m, .fullClose], none) ∧
      msgs.length = (L.length + maxBatchSize - 1) / maxBatchSize ∧
      msgs.flatten = L.filterMap (recordOf addressBook) ∧
      ∀ m ∈ msgs, m.length ≤ maxBatchSize := by
  refine ⟨broadcastPeers_of_ok addressBook streams L hs hbook,
    by rw [List.length_map, length_batches], ?_, fun m hm => ?_⟩
  · rw [← List.filterMap_flatten, flatten_batches]
  · obtain ⟨b, hb, rfl⟩ := List.mem_map.1 hm
    exact (List.length_filterMap_le _ _).trans (length_le_of_mem_batches hb)

end

/-- Thirty-one peers over working streams, one of them missing from the address book:
two streams, the first with thirty records, the second with the last peer's. -/
theorem broadcastPeers_batches_thirtyOne :
    let addressBook : Address → Lookup := fun p =>
      if p = Address.ofHead 0 then .notFound else .found ⟨[1], [2], [3]⟩
    let streams : StreamAnswers := ⟨fun _ => true, fun _ => true⟩
    let L := (List.range 31).map fun i => Address.ofHead (UInt8.ofNat i)
    (batches L).length = 2 ∧
      (∀ k, streams.newStream k = true ∧ streams.write k = true) ∧
      (∀ p ∈ L, addressBook p ≠ .failed) ∧
      let msgs := (batches L).map fun b => b.filterMap (recordOf addressBook)
      (broadcastPeers addressBook streams L =
          (msgs.flatMap fun m => [.opened, .wrote m, .fullClose], none) ∧
        msgs.length = (L.length + maxBatchSize - 1) / maxBatchSize ∧
        msgs.flatten = L.filterMap (recordOf addressBook) ∧
        ∀ m ∈ msgs, m.length ≤ maxBatchSize) :=
  have hbook : ∀ p, (if p = Address.ofHead 0 then Lookup.notFound else .found ⟨[1], [2], [3]⟩) ≠
      .failed := fun p => by split <;> nofun
  ⟨by decide, fun _ => ⟨rfl, rfl⟩, fun p _ => hbook p,
    broadcastPeers_batches _ _ _ (fun _ => ⟨rfl, rfl⟩) fun p _ => hbook p⟩

end Voyager.Hive
