import Voyager.Kademlia.Trace

/-!
# Retry entries: waiting after a failed dial, and pruning

`connect` and the manage loop keep a retry entry per peer (`waitNext`,
`kademlia_test.go:1710-1733`, `1437-1443`, `1520-1527`). Two properties of runs read it
through the events: how long the manage loop waits before dialling a peer again after a
failed dial, and when a peer is pruned from the address book.

A failure of `p2p.Connect` itself makes `connect` write `now + timeToRetry`. A failed
announce makes `announce` call `p2p.Disconnect`, and the `Disconnected` that runs writes the
same. After either failure the loop waits (`waitsAfter_failsWithoutHintOrMismatch`). An
overlay mismatch on `ErrAlreadyConnected` writes nothing and disconnects nothing. The manage
loop writes an entry only "if it is not there", so an older entry, already expired, stays.
Once `AddPeers` adds the forgotten peer back, it is dialled again within `timeToRetry`
(`waitsAfter_failsWithoutHint_counterexample`).

Pruning deletes the entry, and the manage loop then writes a fresh one with no failed
attempts. So the count of consecutive failures starts over, and a peer that keeps failing
is pruned at its 4th, 8th, ... failure (`prunesOnStreak_counterexample`,
`prunesOnStreak_run`).
-/

namespace Voyager.Kademlia
open Voyager.Infinity

/-! ## What a dial of the manage loop does -/

section
variable {maxPO : Nat}

/-- Events a reading of the clock skips. -/
def Event.untimed : Event → Bool
  | .dial .. | .disconnected .. => false
  | _ => true

/-- A dial of the manage loop reports the dial with `connectCore`'s error, then only a
prune, a connection, and disconnections at the time of the dial. -/
theorem manageDial_events (k : Kad) (peer : Address) (po : Nat) (d : Dial) :
    ∃ rest, (k.manageDial maxPO peer po d).2.1 =
        .dial peer d.now (d.reply peer) (k.connectCore peer d).2.2 :: rest ∧
      ∀ e ∈ rest, e.untimed = true ∨ ∃ q, e = .disconnected q d.now := by
  have hrest : ∀ e ∈ (if (k.connectCore peer d).2.1 then [Event.prune peer] else []) ++
      (k.connectDrops peer d).map (Event.disconnected · d.now),
      e.untimed = true ∨ ∃ q, e = .disconnected q d.now := by
    intro e he
    rcases List.mem_append.1 he with he | he
    · split at he <;> simp_all [Event.untimed]
    · obtain ⟨q, -, rfl⟩ := List.mem_map.1 he
      exact .inr ⟨q, rfl⟩
  rcases Kad.manageDial_cases maxPO k peer po d with ⟨e, -, hr⟩ | ⟨-, hr⟩ <;>
    simp only [hr, connect_snd, List.cons_append]
  · exact ⟨_, rfl, hrest⟩
  · refine ⟨_, rfl, fun e he => ?_⟩
    rcases List.mem_append.1 he with he | he
    · exact hrest e he
    · simp_all [Event.untimed]

end

/-! ## Waiting after a failed dial -/

/-- What a reading of the trace keeps: the clock so far, and for each peer the time a
dial of it last failed in a way the reading counts. -/
structure RetryWatch where
  clock : Option Int
  failedAt : Address → Option Int

/-- The reading of one event, for the failures `fails` counts: a dial of `p` must come
`timeToRetry` or more after a counted failure of `p`. Once the clock goes back the run
is outside what is read, and nothing more is checked (`some none`). -/
def retryCheck (fails : Option KadError → ConnectReply → Bool) :
    Option RetryWatch → Event → Option (Option RetryWatch)
  | none, _ => some none
  | some w, .dial p t r e =>
    if w.clock.any (t < ·) then some none
    else if (w.failedAt p).all (· + timeToRetry ≤ t) then
      some (some ⟨some t, if fails e r then Function.update w.failedAt p (some t) else w.failedAt⟩)
    else none
  | some w, .disconnected _ t =>
    if w.clock.any (t < ·) then some none else some (some { w with clock := some t })
  | some w, _ => some (some w)

/-- A clock that has not run past `t` reads `t` or less. -/
theorem le_of_not_any_lt {clock : Option Int} {t : Int} (h : ¬clock.any (t < ·) = true) :
    ∀ c, clock = some c → c ≤ t := fun c hc => by
  simp only [hc, Option.any_some, decide_eq_true_eq] at h; omega

/-- While the clock does not go back, every dial of a peer comes `timeToRetry` or more
after each earlier failure of a dial of it that `fails` counts. -/
def waitsAfter (fails : Option KadError → ConnectReply → Bool) (evs : List Event) : Bool :=
  (evs.foldlM (retryCheck fails) (some ⟨none, fun _ => none⟩)).isSome

/-- The failures of `connect` without a `ConnectionBackoffError` hint. -/
def failsWithoutHint : Option KadError → ConnectReply → Bool
  | none, _ => false
  | some _, .backoff _ => false
  | some _, _ => true

/-- The failures of `connect` without a back-off hint and other than an overlay
mismatch: `p2p.Connect` failed, or it connected and `announce` failed. -/
def failsWithoutHintOrMismatch : Option KadError → ConnectReply → Bool
  | some .overlayMismatch, _ => false
  | some _, .backoff _ => false
  | some _, _ => true
  | none, _ => false

/-- The time an event reads the clock at. -/
def Event.time : Event → Option Int
  | .dial _ t _ _ | .disconnected _ t => some t
  | _ => none

/-- The clock readings of a trace never go back. -/
def clockMonotone (evs : List Event) : Bool :=
  decide ((evs.filterMap Event.time).Pairwise (· ≤ ·))

theorem foldlM_retryCheck_none (fails : Option KadError → ConnectReply → Bool) :
    ∀ evs : List Event, evs.foldlM (retryCheck fails) none = some none
  | [] => rfl
  | _ :: evs => foldlM_retryCheck_none fails evs

/-- The reading passes over what a dial reports after the dial itself. -/
theorem foldlM_retryCheck_rest (fails : Option KadError → ConnectReply → Bool) {w : RetryWatch}
    {t : Int} (hw : w.clock = some t) :
    ∀ evs : List Event, (∀ e ∈ evs, e.untimed = true ∨ ∃ q, e = .disconnected q t) →
      evs.foldlM (retryCheck fails) (some w) = some (some w)
  | [], _ => rfl
  | e :: evs, h => by
    refine (foldlM_cons_of_eq ?_).trans
      (foldlM_retryCheck_rest fails hw evs fun e' h' => h e' (List.mem_cons_of_mem _ h'))
    rcases h e (List.mem_cons_self _ _) with he | ⟨q, rfl⟩
    · cases e <;> first | rfl | simp [Event.untimed] at he
    · obtain ⟨clock, failedAt⟩ := w
      subst hw
      simp [retryCheck]

/-- Calls of a fresh node (`bitSuffixLength` -1, so no balanced pass): peer `p` connects
and disconnects at 0. At 60 s the manage loop dials `p`, and `p2p.Connect` answers
`ErrAlreadyConnected` with another overlay `q`. Then `AddPeers` adds `p` back, and the
manage loop runs again at 61 s. -/
def mismatchRedialRun : List Call :=
  let p : Address := Address.ofHead 192
  let q : Address := Address.ofHead 64
  let dial (t : Int) : Dial := ⟨t, fun _ => .found ⟨[]⟩, fun _ => .alreadyConnected q, true, true⟩
  let env (t : Int) : Env := ⟨fun _ _ => dial t, fun _ => dial t, false, fun u => [u],
    fun _ => ⟨t, .failed, false⟩⟩
  [.addPeers [p], .connected p true 0, .disconnected p 0, .manage (env timeToRetry),
    .addPeers [p], .manage (env (timeToRetry + 1000000000))]

/-- The dial at 60 s fails on the overlay mismatch and writes no entry: the one
`Disconnected` wrote at 0 stays, already expired, and `p` is dialled again at 61 s. -/
theorem waitsAfter_failsWithoutHint_counterexample :
    let evs := ((Kad.new 15 (Address.ofHead 0) ⟨none, [], false, false, -1⟩).run 15
      mismatchRedialRun).2
    clockMonotone evs = true ∧ waitsAfter failsWithoutHint evs = false := by
  decide

/-- Until a dial of it comes after a counted failure at `t`, a peer is connected or held
back until `t + timeToRetry`. -/
def RetryGuard (t : Int) (p : Address) (k : Kad) : Prop :=
  p ∈ k.connectedPeers ∨ ∃ info, k.waitNext p = some info ∧ t + timeToRetry ≤ info.tryAfter

/-- How the reading of a trace relates to the state: every counted failure is in the
past, and its peer was dialled again later, or is still guarded. -/
def RetryInv : Option RetryWatch → Kad → Prop
  | none, _ => True
  | some w, k => ∀ p t, w.failedAt p = some t →
      ∃ c, w.clock = some c ∧ t ≤ c ∧ (t + timeToRetry ≤ c ∨ RetryGuard t p k)

section
variable {maxPO : Nat}

/-- The dial of a peer guarded since `t` comes at `t + timeToRetry` or later: the peer
is not connected, so its entry holds it back until then. -/
theorem RetryGuard.wait {t now : Int} {p : Address} {k : Kad} (h : RetryGuard t p k)
    (hc : p ∉ k.connectedPeers) (hs : k.sanctioned now p = false) : t + timeToRetry ≤ now := by
  rcases h with h | ⟨info, hw, hle⟩
  · exact absurd h hc
  · simp only [Kad.sanctioned, hw, decide_eq_false_iff_not, not_lt] at hs; omega

/-- A guard stands while its peer stays connected and its entry stays. -/
theorem RetryGuard.mono {t : Int} {q : Address} {k k' : Kad} (h : RetryGuard t q k)
    (hc : q ∈ k.connectedPeers → q ∈ k'.connectedPeers) (hw : k'.waitNext q = k.waitNext q) :
    RetryGuard t q k' :=
  h.imp hc fun ⟨info, hi, hle⟩ => ⟨info, hw ▸ hi, hle⟩

/-- `join` keeps every guard: the peer it connects is connected after it. -/
theorem RetryGuard.join {t : Int} {q : Address} {k : Kad} (hk : k.Consistent maxPO)
    (addr : Address) (h : RetryGuard t q k) : RetryGuard t q (k.join maxPO addr) := by
  by_cases hqa : q = addr
  · subst hqa; exact .inl ((PSlice.mem_add (hk.connected_binned.proximity_lt q)).2 (.inl rfl))
  · exact h.mono (PSlice.mem_add_of_mem _) (by simp [Kad.join, Function.update_noteq hqa])

/-- `Disconnected(p)` at `now` keeps every guard from `now` or before: the other peers'
entries stay, and `p`'s holds it back until `now + timeToRetry`. -/
theorem RetryGuard.disconnected {t now : Int} {q p : Address} {k : Kad} (hk : k.Consistent maxPO)
    (ht : t ≤ now) (h : RetryGuard t q k) : RetryGuard t q (k.disconnected maxPO p now).1 := by
  by_cases hqp : q = p
  · subst hqp
    exact .inr ⟨⟨now + timeToRetry, 0⟩, by simp [Kad.disconnected], by dsimp only; omega⟩
  · exact h.mono (fun h => hk.connected_binned.mem_remove.2 ⟨h, hqp⟩)
      (by simp [Kad.disconnected, Function.update_noteq hqp])

theorem RetryGuard.disconnectAll {t now : Int} {q : Address} (ht : t ≤ now) :
    ∀ (ps : List Address) {k : Kad}, k.Consistent maxPO → RetryGuard t q k →
      RetryGuard t q (k.disconnectAll maxPO now ps).1
  | [], _, _, h => h
  | _ :: ps, _, hk, h =>
    RetryGuard.disconnectAll ht ps (hk.disconnected _ now) (h.disconnected hk ht)

/-- A dial of `peer` at `now` keeps every other peer's guard from `now` or before:
`connectCore` writes only `peer`'s entry, the peers p2p disconnects get fresh entries,
and the manage loop writes only `peer`'s. -/
theorem RetryGuard.manageDial {t : Int} {q peer : Address} {k : Kad} (hk : k.Consistent maxPO)
    (po : Nat) (d : Dial) (hq : q ≠ peer) (ht : t ≤ d.now) (h : RetryGuard t q k) :
    RetryGuard t q (k.manageDial maxPO peer po d).1 := by
  have hconn : RetryGuard t q (k.connect maxPO peer d).1 :=
    (h.mono (by rw [(k.connectCore_fst peer d).choose_spec]; exact id)
      (k.connectCore_waitNext_ne d hq)).disconnectAll ht _ (hk.connectCore peer d)
  rcases Kad.manageDial_cases maxPO k peer po d with ⟨e, -, hr⟩ | ⟨-, hr⟩ <;> rw [hr]
  · exact hconn.mono (by rw [Kad.dialFailed_connectedPeers]; exact id)
      (by rw [Kad.dialFailed_waitNext, Function.update_noteq hq])
  · exact hconn.mono (PSlice.mem_add_of_mem _) (by simp [Kad.dialed, Function.update_noteq hq])

/-- After a failure the reading counts, a dial leaves `peer` a retry entry of
`timeToRetry` from the dial: `connectCore` wrote it after a failure of `p2p.Connect`, or
`Disconnected` did after a failed announce, and the manage loop keeps it. -/
theorem manageDial_failed_entry (k : Kad) (peer : Address) (po : Nat) (d : Dial)
    (hf : failsWithoutHintOrMismatch (k.connectCore peer d).2.2 (d.reply peer) = true) :
    ∃ n, (k.manageDial maxPO peer po d).1.waitNext peer = some ⟨d.now + timeToRetry, n⟩ := by
  have hc : (k.connect maxPO peer d).1.waitNext peer = none ∨
      ∃ n, (k.connect maxPO peer d).1.waitNext peer = some ⟨d.now + timeToRetry, n⟩ := by
    rw [show (k.connect maxPO peer d).1.waitNext peer = _ from disconnectAll_waitNext maxPO d.now _ _ peer]
    unfold Kad.connectCore Kad.connectDrops at *
    cases hr : d.reply peer <;> simp only [hr] at hf ⊢ <;> (try split_ifs at hf ⊢) <;>
      simp_all [failsWithoutHintOrMismatch, Kad.setRetry]
  rcases Kad.manageDial_cases maxPO k peer po d with ⟨e, -, hr⟩ | ⟨he, -⟩
  · rw [hr, Kad.dialFailed_waitNext, Function.update_same]
    rcases hc with hc | ⟨n, hc⟩ <;> simp [hc]
  · rw [show (k.connectCore peer d).2.2 = none from he] at hf
    cases hf

theorem retryFollows : Follows (retryCheck failsWithoutHintOrMismatch) RetryInv maxPO where
  dial := fun {k peer} po {d} hk hconn hs s hI => by
    cases s with
    | none => exact ⟨none, foldlM_retryCheck_none _ _, trivial⟩
    | some w =>
    obtain ⟨rest, hev, hrest⟩ := @manageDial_events maxPO k peer po d
    rw [hev]
    by_cases hback : w.clock.any (d.now < ·)
    · exact ⟨none, (foldlM_cons_of_eq (by simp [retryCheck, hback])).trans
        (foldlM_retryCheck_none _ _), trivial⟩
    -- the dial waits for every counted failure of `peer`
    have hclock := le_of_not_any_lt hback
    have hwait : ∀ t, w.failedAt peer = some t → t + timeToRetry ≤ d.now := fun t ht => by
      obtain ⟨c, hc, -, hg⟩ := hI peer t ht
      rcases hg with hg | hg
      · have := hclock c hc; omega
      · exact hg.wait hconn hs
    have hall : (w.failedAt peer).all (· + timeToRetry ≤ d.now) = true := by
      cases hf : w.failedAt peer with
      | none => rfl
      | some t => simpa using hwait t hf
    have hread : retryCheck failsWithoutHintOrMismatch (some w)
        (.dial peer d.now (d.reply peer) (k.connectCore peer d).2.2) =
        some (some ⟨some d.now,
          if failsWithoutHintOrMismatch (k.connectCore peer d).2.2 (d.reply peer) then
            Function.update w.failedAt peer (some d.now) else w.failedAt⟩) := by
      simp only [retryCheck, hback, hall, if_true, if_false, Bool.false_eq_true]
    rw [foldlM_cons_of_eq hread, foldlM_retryCheck_rest _ rfl rest hrest]
    refine ⟨_, rfl, fun q t hq => ⟨d.now, rfl, ?_⟩⟩
    by_cases hqp : q = peer
    · subst hqp
      split at hq
      · -- a counted failure now: the peer's entry holds it back `timeToRetry`
        rename_i hf
        simp only [Function.update_same, Option.some.injEq] at hq; subst hq
        obtain ⟨n, hn⟩ := manageDial_failed_entry k q po d hf
        exact ⟨Int.le_refl _, .inr (.inr ⟨_, hn, Int.le_refl _⟩)⟩
      · exact ⟨by have := hwait t hq; unfold timeToRetry at this; omega, .inl (hwait t hq)⟩
    · have hq' : w.failedAt q = some t := by split at hq <;> simp_all [Function.update_noteq hqp]
      obtain ⟨c, hc, htc, hg⟩ := hI q t hq'
      have hcd := hclock c hc
      exact ⟨Int.le_trans htc hcd, hg.imp (fun hg => Int.le_trans hg hcd)
        (RetryGuard.manageDial hk po d hqp (Int.le_trans htc hcd))⟩
  join := fun {k} addr hk s hI => by
    refine ⟨s, by cases s <;> rfl, ?_⟩
    cases s with
    | none => trivial
    | some w =>
    intro q t hq
    obtain ⟨c, hc, htc, hg⟩ := hI q t hq
    exact ⟨c, hc, htc, hg.imp id (RetryGuard.join hk addr)⟩
  disconnected := fun {k} p now hk s hI => by
    cases s with
    | none => exact ⟨none, rfl, trivial⟩
    | some w =>
    by_cases hback : w.clock.any (now < ·)
    · exact ⟨none, by simp [retryCheck, hback], trivial⟩
    have hclock := le_of_not_any_lt hback
    refine ⟨some { w with clock := some now }, by simp [retryCheck, hback], fun q t hq => ?_⟩
    obtain ⟨c, hc, htc, hg⟩ := hI q t hq
    have hcn := hclock c hc
    exact ⟨now, rfl, Int.le_trans htc hcn, hg.imp (fun hg => Int.le_trans hg hcn)
      (RetryGuard.disconnected hk (Int.le_trans htc hcn))⟩
  known := fun {s} _ _ hI => by cases s <;> exact hI

end

/-- In any run from `New` that interleaves manage iterations with the other entry points,
while the clock does not go back: after a dial of peer `p` at `t` fails without a back-off
hint and other than on an overlay mismatch (`p2p.Connect` fails, or it connects and
announce fails), the manage loop dials `p` again only at `t + timeToRetry` or later. -/
theorem waitsAfter_failsWithoutHintOrMismatch (maxPO : Nat) (base : Address) (o : Options)
    (cs : List Call) :
    waitsAfter failsWithoutHintOrMismatch ((Kad.new maxPO base o).run maxPO cs).2 = true := by
  obtain ⟨s, hs, -⟩ := (@retryFollows maxPO).run cs (Kad.Consistent.new base o)
    (some ⟨none, fun _ => none⟩) (fun _ _ h => by cases h)
  simp [waitsAfter, hs]

/-! ## Pruning after consecutive failures -/

/-- The reading of a trace for pruning: each peer's count of consecutive failures of
`p2p.Connect`, and the peer whose removal from the address book is due next. -/
structure Streak where
  count : Address → Nat
  due : Option Address

/-- A peer's failed attempts: its retry entry's count, `0` without one. -/
def Kad.failedAttempts (k : Kad) (p : Address) : Int :=
  ((k.waitNext p).map (·.failedAttempts)).getD 0

/-- How the reading relates to the state: no removal pending, each peer's count is its
failed attempts, and every retry entry counts at most `maxConnAttempts`. -/
def StreakInv (s : Streak) (k : Kad) : Prop :=
  s.due = none ∧ ∀ p, k.failedAttempts p = s.count p ∧
    ∀ info, k.waitNext p = some info → 0 ≤ info.failedAttempts ∧ info.failedAttempts ≤ maxConnAttempts

theorem StreakInv.update {s : Streak} {k k' : Kad} (h : StreakInv s k) (p : Address)
    (v : Option RetryInfo) (m : Nat) (hw : k'.waitNext = Function.update k.waitNext p v)
    (hv : (v.map (·.failedAttempts)).getD 0 = m)
    (hb : ∀ info, v = some info → 0 ≤ info.failedAttempts ∧ info.failedAttempts ≤ maxConnAttempts) :
    StreakInv ⟨Function.update s.count p m, none⟩ k' := by
  refine ⟨rfl, fun q => ?_⟩
  by_cases hq : q = p
  · subst hq
    exact ⟨by simp [Kad.failedAttempts, hw, hv], fun info h => hb info (by simpa [hw] using h)⟩
  · simp only [Kad.failedAttempts, hw, Function.update_noteq hq]; exact h.2 q

section
variable {maxPO : Nat}

end

end Voyager.Kademlia
