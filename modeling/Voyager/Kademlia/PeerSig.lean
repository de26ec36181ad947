import Voyager.Kademlia.Trace

/-!
# Signalling changes of the connected peers

`SubscribePeersChange` (`pkg/kademlia/kademlia_test.go:2019-2045`) makes a channel of
capacity 1, appends it to `peerSig` and returns it with an unsubscribe function, which
drops the channel from `peerSig` and closes it through a `sync.Once`. `notifyPeerSig`
(`kademlia_test.go:1885-1898`) sends on every registered channel without blocking.
Kademlia calls it right after each change of its connected peers: in `connected`, in
`Disconnected` and after each successful dial of the manage loop
(`kademlia_test.go:1466`, `1547`, `1860`, `1882`), the places that report a
`connected` or a `disconnected` event. The three run under `peerSigMtx`, so each is one
step. A call into kademlia is one step, and each `notifyPeerSig` it owes is a later step
of its own (`Node.Step.notify`); the subscribers' receives and reads, and other calls,
interleave with both (`Node.Step`).

Over every interleaving (`Node.Reachable`), `notifyPeerSig` never sends on a closed
channel, an unsubscribe function never closes a closed channel however often it runs,
and a channel never holds more than one signal (`PeerSig.Sound`). Kademlia changes its
connected peers only where it reports a change (`connectedPeers_run_of_silent`), so no
change goes unsignalled: a subscriber whose registered channel is empty has read the
connected peers as they are, or owes a read after its last signal, or a `notifyPeerSig`
is still owed, and it fills every registered channel when it runs (`Node.Informed`).
-/

namespace Voyager.Kademlia
open Voyager.Infinity

/-! ## Channels -/

/-- A `chan struct{}`: the capacity it was made with, the signals buffered, and whether
it is closed. -/
structure Chan where
  cap : Nat
  buffered : Nat
  closed : Bool
  deriving DecidableEq, Repr

namespace Chan

/-- `make(chan struct{}, cap)`. -/
def make (cap : Nat) : Chan := ⟨cap, 0, false⟩

/-- `select { case c <- struct{}{}: default: }`. `none` is the panic of a send on a
closed channel, which the `default` case does not avoid. -/
def trySend (c : Chan) : Option Chan :=
  if c.closed then none
  else if c.buffered < c.cap then some { c with buffered := c.buffered + 1 }
  else some c

/-- `close(c)`; `none` is the panic of closing a closed channel. -/
def close (c : Chan) : Option Chan :=
  if c.closed then none else some { c with closed := true }

/-- `_, ok := <-c`: a buffered signal (`ok`), else on a closed channel the zero value;
`none` where the receive blocks. -/
def recv (c : Chan) : Option (Chan × Bool) :=
  if 0 < c.buffered then some ({ c with buffered := c.buffered - 1 }, true)
  else if c.closed then some (c, false)
  else none

/-- What a send that does not block leaves in an open channel. -/
def fill (c : Chan) : Chan :=
  if c.buffered < c.cap then { c with buffered := c.buffered + 1 } else c

theorem trySend_of_open {c : Chan} (h : c.closed = false) : c.trySend = some c.fill := by
  unfold trySend fill
  rw [if_neg (by simp [h])]
  exact (apply_ite some _ _ _).symm

@[simp] theorem fill_closed (c : Chan) : c.fill.closed = c.closed := by
  unfold fill; split <;> rfl

@[simp] theorem fill_cap (c : Chan) : c.fill.cap = c.cap := by
  unfold fill; split <;> rfl

theorem fill_buffered (c : Chan) :
    c.fill.buffered = if c.buffered < c.cap then c.buffered + 1 else c.buffered := by
  unfold fill; split <;> rfl

/-- A second send finds a channel of capacity 1 full. -/
theorem fill_fill {c : Chan} (hc : c.cap = 1) : c.fill.fill = c.fill := by
  unfold fill; split <;> simp_all

/-- What a receive can do: take a buffered signal, or find the channel closed and empty. -/
theorem recv_cases {c c' : Chan} {ok : Bool} (h : c.recv = some (c', ok)) :
    (ok = true ∧ c' = { c with buffered := c.buffered - 1 }) ∨ (ok = false ∧ c' = c) := by
  unfold recv at h
  split at h
  · cases h; exact .inl ⟨rfl, rfl⟩
  · split at h <;> cases h
    exact .inr ⟨rfl, rfl⟩

end Chan

/-- Whether kademlia calls `notifyPeerSig` where it reports `e`: after each change of the
connected peers. -/
def Event.notifies : Event → Bool
  | .connected _ | .disconnected _ _ => true
  | _ => false

/-! ## The registry -/

/-- What one `SubscribePeersChange` makes: its channel, and whether the `closeOnce` of
its unsubscribe function has run. -/
structure Subscription where
  channel : Chan
  closeOnce : Bool
  deriving DecidableEq, Repr

/-- A subscription as `SubscribePeersChange` makes it. -/
def Subscription.new : Subscription := ⟨Chan.make 1, false⟩

/-- The subscriptions of a `Kad`: how many `SubscribePeersChange` made (subscription
`ch` is the `ch`-th, `subs ch` what it made), and `peerSig`, the channels registered,
in order. -/
structure PeerSig where
  next : Nat
  subs : Nat → Subscription
  peerSig : List Nat

namespace PeerSig

/-- `New`: no subscription. -/
def empty : PeerSig := ⟨0, fun _ => .new, []⟩

/-- Subscription `ch`'s channel becomes `c`. -/
def setChan (r : PeerSig) (ch : Nat) (c : Chan) : PeerSig :=
  { r with subs := Function.update r.subs ch { r.subs ch with channel := c } }

theorem setChan_self (r : PeerSig) (ch : Nat) : r.setChan ch (r.subs ch).channel = r := by
  show { r with subs := Function.update r.subs ch (r.subs ch) } = r
  rw [Function.update_eq_self]

/-- `SubscribePeersChange` (`kademlia_test.go:2021`): subscription `r.next`, whose channel
is appended to `peerSig`. -/
def subscribePeersChange (r : PeerSig) : PeerSig :=
  { next := r.next + 1
    subs := Function.update r.subs r.next .new
    peerSig := r.peerSig ++ [r.next] }

/-- The unsubscribe function of subscription `ch` (`kademlia_test.go:2031-2042`): drop
the first registered occurrence of its channel, then `closeOnce.Do(close(channel))`. -/
def unsubscribe (r : PeerSig) (ch : Nat) : Option PeerSig :=
  let r := { r with peerSig := r.peerSig.erase ch }
  if (r.subs ch).closeOnce then some r
  else (r.subs ch).channel.close.map fun c =>
    { r with subs := Function.update r.subs ch ⟨c, true⟩ }

/-- `notifyPeerSig` (`kademlia_test.go:1885`): a send that does not block on each
registered channel, in order. -/
def notifyPeerSig (r : PeerSig) : Option PeerSig :=
  r.peerSig.foldlM (fun r ch => (r.subs ch).channel.trySend.map (r.setChan ch)) r

/-- `notifyPeerSig` after each event of a call that changes the connected peers. -/
def notifyOn (r : PeerSig) (evs : List Event) : Option PeerSig :=
  evs.foldlM (fun r e => if e.notifies then r.notifyPeerSig else some r) r

/-- Every registered channel after a send that does not block. -/
def notified (r : PeerSig) : PeerSig :=
  { r with subs := fun ch =>
      if ch ∈ r.peerSig then { r.subs ch with channel := (r.subs ch).channel.fill } else r.subs ch }

@[simp] theorem notified_peerSig (r : PeerSig) : r.notified.peerSig = r.peerSig := rfl

@[simp] theorem notified_next (r : PeerSig) : r.notified.next = r.next := rfl

theorem notified_subs (r : PeerSig) (ch : Nat) : r.notified.subs ch =
    if ch ∈ r.peerSig then { r.subs ch with channel := (r.subs ch).channel.fill } else r.subs ch :=
  rfl

/-- What every reachable registry keeps: the registered channels are channels made,
each registered once and open; a channel is closed exactly when its `closeOnce` has
run; and every channel has capacity 1 and holds at most one signal. -/
structure Sound (r : PeerSig) : Prop where
  made : ∀ ch ∈ r.peerSig, ch < r.next
  nodup : r.peerSig.Nodup
  registered_open : ∀ ch ∈ r.peerSig, (r.subs ch).channel.closed = false
  closed_eq_once : ∀ ch, (r.subs ch).channel.closed = (r.subs ch).closeOnce
  cap_eq : ∀ ch, (r.subs ch).channel.cap = 1
  buffered_le : ∀ ch, (r.subs ch).channel.buffered ≤ 1

theorem sound_empty : empty.Sound where
  made := fun _ h => nomatch h
  nodup := List.nodup_nil
  registered_open := fun _ h => nomatch h
  closed_eq_once := fun _ => rfl
  cap_eq := fun _ => rfl
  buffered_le := fun _ => Nat.zero_le 1

/-- The sends of `notifyPeerSig` over distinct open channels `L`. -/
theorem foldlM_trySend : ∀ (L : List Nat) (r : PeerSig), L.Nodup →
    (∀ ch ∈ L, (r.subs ch).channel.closed = false) →
    L.foldlM (fun r ch => (r.subs ch).channel.trySend.map (r.setChan ch)) r =
      some { r with subs := fun ch =>
        if ch ∈ L then { r.subs ch with channel := (r.subs ch).channel.fill } else r.subs ch }
  | [], r, _, _ => by simp
  | a :: L, r, hnd, hopen => by
    obtain ⟨ha, hnd⟩ := List.nodup_cons.1 hnd
    have hset : ∀ ch ∈ L, (r.setChan a (r.subs a).channel.fill).subs ch = r.subs ch :=
      fun ch hch => Function.update_noteq (ne_of_mem_of_not_mem hch ha) _ _
    rw [List.foldlM_cons, Chan.trySend_of_open (hopen a (.head _))]
    refine (foldlM_trySend L _ hnd fun ch hch => ?_).trans ?_
    · rw [hset ch hch]; exact hopen ch (.tail _ hch)
    · congr 2
      funext ch
      by_cases hch : ch = a
      · subst hch; simp [setChan, ha]
      · by_cases hL : ch ∈ L
        · simp [hL, hset ch hL]
        · simp [setChan, hL, hch]

theorem Sound.notifyPeerSig {r : PeerSig} (h : r.Sound) : r.notifyPeerSig = some r.notified :=
  foldlM_trySend r.peerSig r h.nodup h.registered_open

theorem Sound.notified {r : PeerSig} (h : r.Sound) : r.notified.Sound where
  made := h.made
  nodup := h.nodup
  registered_open := fun ch hch => by
    rw [notified_subs, if_pos (show ch ∈ r.peerSig from hch), Chan.fill_closed]
    exact h.registered_open ch hch
  closed_eq_once := fun ch => by rw [notified_subs]; split <;> simp [h.closed_eq_once ch]
  cap_eq := fun ch => by rw [notified_subs]; split <;> simp [h.cap_eq ch]
  buffered_le := fun ch => by
    rw [notified_subs]
    split
    · rw [Chan.fill_buffered, h.cap_eq ch]; have := h.buffered_le ch; split <;> omega
    · exact h.buffered_le ch

theorem Sound.notified_notified {r : PeerSig} (h : r.Sound) : r.notified.notified = r.notified := by
  unfold PeerSig.notified
  congr 1
  funext ch
  split <;> simp_all [Chan.fill_fill (h.cap_eq ch)]

/-- After a notification every registered channel holds a signal. -/
theorem Sound.buffered_notified {r : PeerSig} (h : r.Sound) {ch : Nat} (hch : ch ∈ r.peerSig) :
    0 < (r.notified.subs ch).channel.buffered := by
  rw [notified_subs, if_pos hch, Chan.fill_buffered, h.cap_eq ch]
  split <;> omega

/-- A call's notifications: none, or one that fills every registered channel. -/
theorem Sound.notifyOn {r : PeerSig} (h : r.Sound) :
    ∀ evs : List Event, r.notifyOn evs = some (if evs.any Event.notifies then r.notified else r)
  | [] => rfl
  | e :: evs => by
    unfold PeerSig.notifyOn
    rw [List.foldlM_cons, List.any_cons]
    cases he : e.notifies
    · exact h.notifyOn evs
    · rw [if_pos rfl, h.notifyPeerSig]
      refine (h.notified.notifyOn evs).trans ?_
      split <;> simp [h.notified_notified]

theorem Sound.subscribePeersChange {r : PeerSig} (h : r.Sound) : r.subscribePeersChange.Sound where
  made := fun ch hch => by
    rcases List.mem_append.1 hch with hch | hch
    · exact Nat.lt_succ_of_lt (h.made ch hch)
    · rw [List.mem_singleton.1 hch]; exact Nat.lt_succ_self _
  nodup := List.nodup_append.2 ⟨h.nodup, List.nodup_singleton _,
    fun a ha hb => Nat.ne_of_lt (h.made a ha) (List.mem_singleton.1 hb)⟩
  registered_open := fun ch hch => by
    rcases List.mem_append.1 hch with hch | hch
    · simp only [PeerSig.subscribePeersChange, Function.update_noteq (Nat.ne_of_lt (h.made ch hch))]
      exact h.registered_open ch hch
    · rw [List.mem_singleton.1 hch]; simp [PeerSig.subscribePeersChange, Subscription.new, Chan.make]
  closed_eq_once := fun ch => by
    unfold PeerSig.subscribePeersChange; by_cases hch : ch = r.next
    · subst hch; simp [Subscription.new, Chan.make]
    · simp [hch, h.closed_eq_once ch]
  cap_eq := fun ch => by
    unfold PeerSig.subscribePeersChange; by_cases hch : ch = r.next
    · subst hch; simp [Subscription.new, Chan.make]
    · simp [hch, h.cap_eq ch]
  buffered_le := fun ch => by
    unfold PeerSig.subscribePeersChange; by_cases hch : ch = r.next
    · subst hch; simp [Subscription.new, Chan.make]
    · simp [hch, h.buffered_le ch]

/-- An unsubscribe function takes its channel out of `peerSig` and leaves it closed, and
touches no other subscription. -/
theorem Sound.unsubscribe {r : PeerSig} (h : r.Sound) (ch : Nat) :
    r.unsubscribe ch = some { r with
      peerSig := r.peerSig.erase ch
      subs := Function.update r.subs ch ⟨{ (r.subs ch).channel with closed := true }, true⟩ } := by
  have hco := h.closed_eq_once ch
  unfold PeerSig.unsubscribe
  dsimp only
  split
  · rename_i hone
    congr
    refine (Function.update_eq_self_iff.2 ?_).symm
    rw [hone] at hco
    generalize r.subs ch = s at hco hone ⊢
    obtain ⟨⟨cap, buffered, closed⟩, once⟩ := s
    dsimp only at hco hone
    rw [hco, hone]
  · rename_i hone
    rw [Bool.not_eq_true] at hone
    rw [hone] at hco
    simp [Chan.close, hco]

theorem Sound.unsubscribe_sound {r : PeerSig} (h : r.Sound) (ch : Nat) :
    ({ r with
      peerSig := r.peerSig.erase ch
      subs := Function.update r.subs ch ⟨{ (r.subs ch).channel with closed := true }, true⟩ } :
      PeerSig).Sound where
  made := fun c hc => h.made c ((h.nodup.mem_erase_iff.1 hc).2)
  nodup := h.nodup.erase ch
  registered_open := fun c hc => by
    obtain ⟨hne, hc⟩ := h.nodup.mem_erase_iff.1 hc
    dsimp only; rw [Function.update_noteq hne]; exact h.registered_open c hc
  closed_eq_once := fun c => by
    by_cases hc : c = ch
    · subst hc; simp
    · simp [hc, h.closed_eq_once c]
  cap_eq := fun c => by
    by_cases hc : c = ch
    · subst hc; simp [h.cap_eq c]
    · simp [hc, h.cap_eq c]
  buffered_le := fun c => by
    by_cases hc : c = ch
    · subst hc; simp [h.buffered_le c]
    · simp [hc, h.buffered_le c]

theorem Sound.setChan {r : PeerSig} (h : r.Sound) {ch : Nat} {c : Chan}
    (hc : c.closed = (r.subs ch).channel.closed) (hcap : c.cap = 1) (hb : c.buffered ≤ 1) :
    (r.setChan ch c).Sound where
  made := h.made
  nodup := h.nodup
  registered_open := fun c' hc' => by
    by_cases hce : c' = ch
    · subst hce; simp [PeerSig.setChan, hc, h.registered_open c' hc']
    · simp [PeerSig.setChan, hce, h.registered_open c' hc']
  closed_eq_once := fun c' => by
    by_cases hce : c' = ch
    · subst hce; simp [PeerSig.setChan, hc, h.closed_eq_once c']
    · simp [PeerSig.setChan, hce, h.closed_eq_once c']
  cap_eq := fun c' => by
    by_cases hce : c' = ch
    · subst hce; simp [PeerSig.setChan, hcap]
    · simp [PeerSig.setChan, hce, h.cap_eq c']
  buffered_le := fun c' => by
    by_cases hce : c' = ch
    · subst hce; simp [PeerSig.setChan, hb]
    · simp [PeerSig.setChan, hce, h.buffered_le c']

end PeerSig

/-! ## Kademlia reports every change of its connected peers -/

/-- A reading of the events that keeps a snapshot of the connected peers (`some`) until
an event after which kademlia calls `notifyPeerSig`. -/
def changeCheck (s : Option PSlice) (e : Event) : Option (Option PSlice) :=
  some (if e.notifies then none else s)

/-- The snapshot, while there is one, is the connected peers. -/
def SnapshotInv (s : Option PSlice) (k : Kad) : Prop :=
  ∀ v, s = some v → v = k.connectedPeers

theorem foldlM_changeCheck : ∀ (evs : List Event) (s : Option PSlice),
    evs.foldlM changeCheck s = some (if evs.any Event.notifies then none else s)
  | [], _ => rfl
  | e :: evs, s => by
    rw [foldlM_cons_of_eq rfl, foldlM_changeCheck evs, List.any_cons]
    cases e.notifies <;> simp

theorem tracks_of_silent {k k' : Kad} {evs : List Event}
    (h : evs.any Event.notifies = false → k'.connectedPeers = k.connectedPeers) :
    Tracks changeCheck SnapshotInv k evs k' := fun s hs =>
  ⟨_, foldlM_changeCheck evs s, fun v hv => by
    split at hv
    · cases hv
    · rename_i hany
      rw [h (by simpa using hany)]; exact hs v hv⟩

section
variable {maxPO : Nat}

/-- A dial of the manage loop changes the connected peers only when it reports a
connection or a disconnection. -/
theorem manageDial_silent (k : Kad) (peer : Address) (po : Nat) (d : Dial)
    (h : (k.manageDial maxPO peer po d).2.1.any Event.notifies = false) :
    (k.manageDial maxPO peer po d).1.connectedPeers = k.connectedPeers := by
  rcases Kad.manageDial_cases maxPO k peer po d with ⟨e, -, hr⟩ | ⟨-, hr⟩ <;> rw [hr] at h ⊢
  · rw [Kad.dialFailed_connectedPeers]
    show ((k.connectCore peer d).1.disconnectAll maxPO d.now (k.connectDrops peer d)).1.connectedPeers = _
    cases hd : k.connectDrops peer d with
    | nil => obtain ⟨w, hw⟩ := k.connectCore_fst peer d; rw [hw]; rfl
    | cons q qs => simp [connect_snd, hd, Event.notifies] at h
  · simp [Event.notifies] at h

theorem changeFollows : Follows changeCheck SnapshotInv maxPO where
  dial := fun {_ _} po {_} _ _ _ => tracks_of_silent (manageDial_silent _ _ po _)
  join := fun _ _ => tracks_of_silent fun h => by simp [Event.notifies] at h
  disconnected := fun _ _ _ => tracks_of_silent fun h => by simp [Event.notifies] at h
  known := fun _ hI => hI

/-- One call into kademlia that reports no change leaves the connected peers as they
were. -/
theorem connectedPeers_step_of_silent {k : Kad} (hk : k.Consistent maxPO) (c : Call)
    (h : (k.step maxPO c).2.any Event.notifies = false) :
    (k.step maxPO c).1.connectedPeers = k.connectedPeers := by
  obtain ⟨s, hs, hI⟩ := changeFollows.step hk c (some k.connectedPeers)
    fun _ hv => (Option.some_inj.1 hv).symm
  rw [foldlM_changeCheck, h, if_neg Bool.false_ne_true, Option.some_inj] at hs
  exact (hI _ hs.symm).symm

end

/-- **Kademlia reports every change of its connected peers.** A run from a consistent
state that reports no `connected` and no `disconnected` event, the events after which
kademlia calls `notifyPeerSig`, ends with the connected peers it started with. -/
theorem connectedPeers_run_of_silent (maxPO : Nat) (cs : List Call) {k : Kad}
    (hk : k.Consistent maxPO) (h : ∀ e ∈ (k.run maxPO cs).2, e.notifies = false) :
    (k.run maxPO cs).1.connectedPeers = k.connectedPeers := by
  obtain ⟨s, hs, hI⟩ := (@changeFollows maxPO).run cs hk (some k.connectedPeers)
    fun _ hv => (Option.some_inj.1 hv).symm
  have hany : (k.run maxPO cs).2.any Event.notifies = false := by simpa using h
  rw [foldlM_changeCheck, hany, if_neg Bool.false_ne_true, Option.some_inj] at hs
  exact (hI _ hs.symm).symm

/-- A kademlia with one connected peer, `ofHead 128`, and no balanced pass. -/
def Kad.oneConnected : Kad :=
  ((Kad.new 15 (Address.ofHead 0) ⟨none, [], false, false, -1⟩).step 15
    (.connected (Address.ofHead 128) true 0)).1

/-- `AddPeers` of `ofHead 64`, `ClosestPeer` with the connected peer among
`p2p.Peers()`, and a manage iteration whose dial of `ofHead 64` fails. -/
def silentRun : List Call :=
  let dial : Dial := ⟨0, fun _ => .found ⟨[]⟩, fun _ => .failed, true, true⟩
  [.addPeers [Address.ofHead 64], .closestPeer (Address.ofHead 192) [] [Address.ofHead 128] 0,
    .manage ⟨fun _ _ => dial, fun _ => dial, false, fun u => [u], fun _ => ⟨0, .failed, true⟩⟩]

set_option maxRecDepth 4000 in
/-- The run reports one failed dial and nothing else, and the connected peer stays. -/
theorem connectedPeers_run_of_silent_closestPeer :
    Address.ofHead 128 ∈ Kad.oneConnected.connectedPeers ∧
      (Kad.oneConnected.run 15 silentRun).2.length = 1 ∧
      (Kad.oneConnected.Consistent 15 ∧
        (∀ e ∈ (Kad.oneConnected.run 15 silentRun).2, e.notifies = false) ∧
        (Kad.oneConnected.run 15 silentRun).1.connectedPeers = Kad.oneConnected.connectedPeers) :=
  have hk : Kad.oneConnected.Consistent 15 := (Reachable.step _ (.new _ _)).consistent
  have h : ∀ e ∈ (Kad.oneConnected.run 15 silentRun).2, e.notifies = false := by decide
  ⟨by decide, by decide, hk, h, connectedPeers_run_of_silent 15 silentRun hk h⟩

/-! ## Kademlia with its subscribers -/

/-- A kademlia with its subscribers: the topology driver, its `peerSig` registry, for
each subscription the connected peers its subscriber read since its last signal
(`none` before it reads), and the `notifyPeerSig` calls kademlia owes for changes it has
made. -/
structure Node where
  kad : Kad
  sig : PeerSig
  read : Nat → Option PSlice
  due : Nat

/-- The steps of a kademlia and its subscribers, in any interleaving. -/
inductive Node.Step (maxPO : Nat) : Node → Node → Prop
  /-- a call into kademlia, which then owes a `notifyPeerSig` for each change of the
  connected peers it made -/
  | call (n : Node) (c : Call) :
      Step maxPO n
        { n with
          kad := (n.kad.step maxPO c).1
          due := n.due + ((n.kad.step maxPO c).2.filter Event.notifies).length }
  /-- one `notifyPeerSig` kademlia owes -/
  | notify {n : Node} (hdue : 0 < n.due) {sig : PeerSig} (h : n.sig.notifyPeerSig = some sig) :
      Step maxPO n { n with sig := sig, due := n.due - 1 }
  /-- `SubscribePeersChange`, by a subscriber that has read nothing yet -/
  | subscribe (n : Node) :
      Step maxPO n
        { n with
          sig := n.sig.subscribePeersChange
          read := Function.update n.read n.sig.next none }
  /-- a call of a subscription's unsubscribe function, any number of times -/
  | unsubscribe {n : Node} {ch : Nat} (hch : ch < n.sig.next) {sig : PeerSig}
      (h : n.sig.unsubscribe ch = some sig) : Step maxPO n { n with sig := sig }
  /-- a subscriber receives from its channel; after a signal it owes a read -/
  | recv {n : Node} {ch : Nat} (hch : ch < n.sig.next) {c : Chan} {ok : Bool}
      (h : (n.sig.subs ch).channel.recv = some (c, ok)) :
      Step maxPO n
        { n with
          sig := n.sig.setChan ch c
          read := if ok then Function.update n.read ch none else n.read }
  /-- a subscriber reads the connected peers -/
  | read {n : Node} {ch : Nat} (hch : ch < n.sig.next) :
      Step maxPO n { n with read := Function.update n.read ch (some n.kad.connectedPeers) }

/-- The states of a kademlia and its subscribers that a run from `New` reaches. -/
inductive Node.Reachable (maxPO : Nat) : Node → Prop
  | new (base : Address) (o : Options) :
      Reachable maxPO ⟨Kad.new maxPO base o, PeerSig.empty, fun _ => none, 0⟩
  | step {n n' : Node} : Reachable maxPO n → Step maxPO n n' → Reachable maxPO n'

/-- A subscriber whose registered channel is empty has read the connected peers as they
are, or has not read since its last signal, or kademlia still owes a `notifyPeerSig`. -/
def Node.Informed (n : Node) : Prop :=
  ∀ ch ∈ n.sig.peerSig, (n.sig.subs ch).channel.buffered = 0 →
    ∀ v, n.read ch = some v → v = n.kad.connectedPeers ∨ 0 < n.due

/-- What every reachable node keeps. -/
structure Node.Inv (maxPO : Nat) (n : Node) : Prop where
  kad : Kademlia.Reachable maxPO n.kad
  sound : n.sig.Sound
  informed : n.Informed

section
variable {maxPO : Nat}

theorem Node.inv_new (base : Address) (o : Options) :
    Node.Inv maxPO ⟨Kad.new maxPO base o, PeerSig.empty, fun _ => none, 0⟩ :=
  ⟨.new base o, PeerSig.sound_empty, fun _ h => nomatch h⟩

/-- A call keeps every subscriber informed: it owes a signal, or it leaves the connected
peers as they were. -/
theorem Node.Inv.call {n : Node} (hn : n.Inv maxPO) (c : Call) :
    Node.Inv maxPO { n with
      kad := (n.kad.step maxPO c).1
      due := n.due + ((n.kad.step maxPO c).2.filter Event.notifies).length } := by
  refine ⟨.step c hn.kad, hn.sound, fun ch hch hb v hv => ?_⟩
  dsimp only at hch hb hv ⊢
  cases hany : (n.kad.step maxPO c).2.any Event.notifies
  · rw [connectedPeers_step_of_silent hn.kad.consistent c hany]
    exact (hn.informed ch hch hb v hv).imp_right fun h => Nat.lt_add_right _ h
  · obtain ⟨e, he, hne⟩ := List.any_eq_true.1 hany
    exact .inr (Nat.add_pos_right _ (List.length_pos_of_mem (List.mem_filter.2 ⟨he, hne⟩)))

/-- An owed `notifyPeerSig` leaves a signal in every registered channel. -/
theorem Node.Inv.notify {n : Node} (hn : n.Inv maxPO) {sig : PeerSig}
    (h : n.sig.notifyPeerSig = some sig) : Node.Inv maxPO { n with sig := sig, due := n.due - 1 } := by
  rw [hn.sound.notifyPeerSig, Option.some_inj] at h
  subst h
  exact ⟨hn.kad, hn.sound.notified, fun ch hch hb => absurd hb
    (Nat.pos_iff_ne_zero.1 (hn.sound.buffered_notified hch))⟩

theorem Node.Inv.step {n n' : Node} (hn : n.Inv maxPO) (hs : Node.Step maxPO n n') :
    n'.Inv maxPO := by
  cases hs with
  | call c => exact hn.call c
  | notify _ h => exact hn.notify h
  | subscribe =>
    refine ⟨hn.kad, hn.sound.subscribePeersChange, fun ch hch hb v hv => ?_⟩
    dsimp only at hch hb hv ⊢
    rcases List.mem_append.1 hch with hch | hch
    · have hne := Nat.ne_of_lt (hn.sound.made ch hch)
      rw [Function.update_noteq hne] at hv
      simp only [PeerSig.subscribePeersChange, Function.update_noteq hne] at hb
      exact hn.informed ch hch hb v hv
    · rw [List.mem_singleton.1 hch, Function.update_same] at hv; cases hv
  | unsubscribe hch h =>
    rw [hn.sound.unsubscribe, Option.some_inj] at h
    subst h
    refine ⟨hn.kad, hn.sound.unsubscribe_sound _, fun c hc hb v hv => ?_⟩
    obtain ⟨hne, hc⟩ := hn.sound.nodup.mem_erase_iff.1 hc
    dsimp only at hb
    rw [Function.update_noteq hne] at hb
    exact hn.informed c hc hb v hv
  | recv hch h =>
    rename_i ch c ok
    have hb := hn.sound.buffered_le ch
    rcases Chan.recv_cases h with ⟨rfl, rfl⟩ | ⟨rfl, rfl⟩
    · refine ⟨hn.kad, hn.sound.setChan rfl (hn.sound.cap_eq ch) (by dsimp only; omega),
        fun c' hc' hb' v hv => ?_⟩
      dsimp only at hv hb' ⊢
      by_cases hce : c' = ch
      · subst hce; rw [if_pos rfl, Function.update_same] at hv; cases hv
      · rw [if_pos rfl, Function.update_noteq hce] at hv
        simp only [PeerSig.setChan, Function.update_noteq hce] at hb'
        exact hn.informed c' hc' hb' v hv
    · rw [PeerSig.setChan_self, if_neg Bool.false_ne_true]
      exact hn
  | read hch =>
    rename_i ch
    refine ⟨hn.kad, hn.sound, fun c hc hb v hv => ?_⟩
    dsimp only at hv ⊢
    by_cases hce : c = ch
    · subst hce; rw [Function.update_same, Option.some_inj] at hv; exact .inl hv.symm
    · rw [Function.update_noteq hce] at hv; exact hn.informed c hc hb v hv

theorem Node.Reachable.inv {n : Node} (h : Node.Reachable maxPO n) : n.Inv maxPO := by
  induction h with
  | new base o => exact Node.inv_new base o
  | step _ hs ih => exact ih.step hs

/-- **No send on a closed channel, no double close.** In every state that kademlia and
its subscribers reach, in any interleaving: every call into kademlia makes all its
notifications without sending on a closed channel, every unsubscribe function returns
without closing a closed channel however often it has run, and no channel holds more
than one signal. -/
theorem peerSig_safe {n : Node} (h : Node.Reachable maxPO n) :
    (∀ c : Call, ∃ sig, n.sig.notifyOn (n.kad.step maxPO c).2 = some sig) ∧
      (∀ ch, ∃ sig, n.sig.unsubscribe ch = some sig) ∧
      ∀ ch, (n.sig.subs ch).channel.buffered ≤ 1 := by
  have hs := h.inv.sound
  exact ⟨fun c => ⟨_, hs.notifyOn _⟩, fun ch => ⟨_, hs.unsubscribe ch⟩, hs.buffered_le⟩

/-- **Unsubscribing is for good.** In every reachable state, a subscription whose
unsubscribe function has run has its channel closed and not registered, and a further
call of that function changes nothing. -/
theorem unsubscribe_again {n : Node} (h : Node.Reachable maxPO n) {ch : Nat}
    (hone : (n.sig.subs ch).closeOnce = true) :
    (n.sig.subs ch).channel.closed = true ∧ ch ∉ n.sig.peerSig ∧
      n.sig.unsubscribe ch = some n.sig := by
  have hs := h.inv.sound
  have hclosed : (n.sig.subs ch).channel.closed = true := (hs.closed_eq_once ch).trans hone
  have hnot : ch ∉ n.sig.peerSig := fun hm => by
    rw [hs.registered_open ch hm] at hclosed; cases hclosed
  refine ⟨hclosed, hnot, ?_⟩
  unfold PeerSig.unsubscribe
  rw [List.erase_of_not_mem hnot]
  exact if_pos hone

/-- **No change of the connected peers goes unsignalled.** In every state that
kademlia and its subscribers reach, in any interleaving, a subscriber whose channel is
registered and empty has read the connected peers as they are now, or has not read
since its last signal, or kademlia still owes a `notifyPeerSig`; and an owed
`notifyPeerSig` can run, and leaves a signal in every registered channel. -/
theorem peersChange_signalled {n : Node} (h : Node.Reachable maxPO n) :
    (∀ ch ∈ n.sig.peerSig, (n.sig.subs ch).channel.buffered = 0 →
      n.read ch = none ∨ n.read ch = some n.kad.connectedPeers ∨ 0 < n.due) ∧
      (0 < n.due → ∃ sig, n.sig.notifyPeerSig = some sig ∧
        ∀ ch ∈ n.sig.peerSig, 0 < (sig.subs ch).channel.buffered) := by
  have hi := h.inv
  refine ⟨fun ch hch hb => ?_, fun _ => ⟨_, hi.sound.notifyPeerSig,
    fun _ hch => hi.sound.buffered_notified hch⟩⟩
  cases hv : n.read ch with
  | none => exact .inl rfl
  | some v => exact .inr ((hi.informed ch hch hb v hv).imp_left (congrArg some))

end

/-- A new kademlia with one subscriber. -/
def Node.subscribedOne : Node :=
  { kad := Kad.new 0 (Address.ofHead 0) ⟨none, [], false, false, 0⟩
    sig := PeerSig.empty.subscribePeersChange
    read := Function.update (fun _ => none) 0 none
    due := 0 }

theorem Node.reachable_subscribedOne : Node.Reachable 0 Node.subscribedOne :=
  .step (.new _ _) (.subscribe _)

theorem peerSig_safe_subscribedOne :
    Node.Reachable 0 Node.subscribedOne ∧
      ((∀ c : Call, ∃ sig, Node.subscribedOne.sig.notifyOn
          (Node.subscribedOne.kad.step 0 c).2 = some sig) ∧
        (∀ ch, ∃ sig, Node.subscribedOne.sig.unsubscribe ch = some sig) ∧
        ∀ ch, (Node.subscribedOne.sig.subs ch).channel.buffered ≤ 1) :=
  ⟨Node.reachable_subscribedOne, peerSig_safe Node.reachable_subscribedOne⟩

theorem unsubscribe_again_unsubscribed :
    let n : Node := { Node.subscribedOne with
      sig := (PeerSig.empty.subscribePeersChange.unsubscribe 0).getD PeerSig.empty }
    Node.Reachable 0 n ∧ (n.sig.subs 0).closeOnce = true ∧
      ((n.sig.subs 0).channel.closed = true ∧ 0 ∉ n.sig.peerSig ∧
        n.sig.unsubscribe 0 = some n.sig) := by
  intro n
  have hr : Node.Reachable 0 n := .step Node.reachable_subscribedOne
    (.unsubscribe (show 0 < Node.subscribedOne.sig.next by decide) rfl)
  have hone : (n.sig.subs 0).closeOnce = true := rfl
  exact ⟨hr, hone, unsubscribe_again hr hone⟩

/-- The subscriber reads the connected peers, then `connected` joins a peer: until the
owed `notifyPeerSig` runs, the subscriber's read is stale and its channel empty. -/
def Node.joinedUnsignalled : Node :=
  let n : Node := { Node.subscribedOne with
    read := Function.update Node.subscribedOne.read 0 (some Node.subscribedOne.kad.connectedPeers) }
  { n with
    kad := (n.kad.step 0 (.connected (Address.ofHead 128) true 0)).1
    due := n.due + ((n.kad.step 0 (.connected (Address.ofHead 128) true 0)).2.filter Event.notifies).length }

theorem peersChange_signalled_joinedUnsignalled :
    let n := Node.joinedUnsignalled
    Node.Reachable 0 n ∧
      ((n.read 0).map PSlice.length = some 0 ∧ n.kad.connectedPeers.length = 1 ∧ n.due = 1) ∧
      ((∀ ch ∈ n.sig.peerSig, (n.sig.subs ch).channel.buffered = 0 →
        n.read ch = none ∨ n.read ch = some n.kad.connectedPeers ∨ 0 < n.due) ∧
        (0 < n.due → ∃ sig, n.sig.notifyPeerSig = some sig ∧
          ∀ ch ∈ n.sig.peerSig, 0 < (sig.subs ch).channel.buffered)) := by
  have hr : Node.Reachable 0 Node.joinedUnsignalled :=
    .step (.step Node.reachable_subscribedOne (.read (show 0 < 1 by decide))) (.call _ _)
  exact ⟨hr, by decide, peersChange_signalled hr⟩

end Voyager.Kademlia
