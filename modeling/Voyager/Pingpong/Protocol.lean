import Mathlib.Data.List.Infix
import Mathlib.Order.WellFounded

/-!
# The pingpong protocol

`Ping` (`pkg/pingpong/pingpong.go:62-97`) opens a stream. For each greeting it writes a
`Ping` and reads a `Pong`, and an `io.EOF` on that read ends the loop without an error.
The stream `handler` (`pingpong.go:99-128`) reads `Ping`s until `io.EOF`, answering each
with `Pong{"{" + greeting + "}"}`. Each side closes the stream (`FullClose`) when it
returns, and the other side's next read past what is in flight then meets `io.EOF`.

The two parties run concurrently over the two directions of one stream, each a FIFO
queue. `Step faults` is one action of either party. With `faults`, a read or a write
may also fail, and the party returns its error. Over every interleaving, faults
included, the `Pong`s `Ping` reads answer its greetings in order (`ping_pongs_prefix`).
Without faults every run ends, and it ends with every greeting answered and both sides
returned without error (`ping_completes`). With faults, a `Ping` that returns no error
has read the answer to every greeting, or the handler failed: a handler that fails lets
`Ping` meet `io.EOF` and return no error with greetings unanswered
(`ping_ok_answered_or_handler_failed`).
-/

namespace Voyager.Pingpong

/-- The `Pong` the handler answers a greeting with (`pingpong.go:120`). -/
def response (greeting : String) : String := "\x7b" ++ greeting ++ "\x7d"

/-- Where `Ping` stands: about to write the greetings left, waiting for the `Pong` to the
last one written, or returned (`ok` when it returns no error). -/
inductive PingPc where
  | write (msgs : List String)
  | read (msgs : List String)
  | returned (ok : Bool)
  deriving DecidableEq, Repr

/-- Where `handler` stands: about to read a `Ping`, about to answer `greeting`, or
returned. -/
inductive HandlerPc where
  | read
  | write (greeting : String)
  | returned (ok : Bool)
  deriving DecidableEq, Repr

/-- Both parties and the stream between them. -/
structure Conf where
  ping : PingPc
  /-- The `Pong` responses `Ping` read, in order. -/
  pongs : List String
  handler : HandlerPc
  /-- Greetings written by `Ping` and not yet read by the handler. -/
  toHandler : List String
  /-- Responses written by the handler and not yet read by `Ping`. -/
  toPing : List String
  deriving DecidableEq, Repr

/-- The stream just opened by `Ping msgs`. -/
def init (msgs : List String) : Conf := ⟨.write msgs, [], .read, [], []⟩

/-- One action of either party. The failures of a read or a write need `faults`. -/
inductive Step (faults : Bool) : Conf → Conf → Prop
  /-- `WriteMsgWithContext(&pb.Ping{Greeting: msg})` (`pingpong.go:76`). -/
  | pingWrite (m : String) (ms pongs : List String) (h : HandlerPc) (th tp : List String) :
      Step faults ⟨.write (m :: ms), pongs, h, th, tp⟩ ⟨.read ms, pongs, h, th ++ [m], tp⟩
  | pingWriteFail (m : String) (ms pongs : List String) (h : HandlerPc) (th tp : List String)
      (hf : faults = true) :
      Step faults ⟨.write (m :: ms), pongs, h, th, tp⟩ ⟨.returned false, pongs, h, th, tp⟩
  /-- The loop over `msgs` ends (`pingpong.go:96`). -/
  | pingEnd (pongs : List String) (h : HandlerPc) (th tp : List String) :
      Step faults ⟨.write [], pongs, h, th, tp⟩ ⟨.returned true, pongs, h, th, tp⟩
  /-- `ReadMsgWithContext(&pong)` (`pingpong.go:83`). -/
  | pingRead (ms pongs : List String) (h : HandlerPc) (th : List String) (p : String)
      (tp : List String) :
      Step faults ⟨.read ms, pongs, h, th, p :: tp⟩ ⟨.write ms, pongs ++ [p], h, th, tp⟩
  /-- The handler has closed the stream and nothing is in flight: `io.EOF`, `break`. -/
  | pingEof (ms pongs : List String) (ok : Bool) (th : List String) :
      Step faults ⟨.read ms, pongs, .returned ok, th, []⟩
        ⟨.returned true, pongs, .returned ok, th, []⟩
  | pingReadFail (ms pongs : List String) (h : HandlerPc) (th tp : List String)
      (hf : faults = true) :
      Step faults ⟨.read ms, pongs, h, th, tp⟩ ⟨.returned false, pongs, h, th, tp⟩
  /-- `ReadMsgWithContext(&ping)` (`pingpong.go:108`). -/
  | handlerRead (p : PingPc) (pongs : List String) (m : String) (th tp : List String) :
      Step faults ⟨p, pongs, .read, m :: th, tp⟩ ⟨p, pongs, .write m, th, tp⟩
  /-- `Ping` has returned and closed the stream, and nothing is in flight: `io.EOF`. -/
  | handlerEof (ok : Bool) (pongs tp : List String) :
      Step faults ⟨.returned ok, pongs, .read, [], tp⟩ ⟨.returned ok, pongs, .returned true, [], tp⟩
  | handlerReadFail (p : PingPc) (pongs : List String) (th tp : List String)
      (hf : faults = true) :
      Step faults ⟨p, pongs, .read, th, tp⟩ ⟨p, pongs, .returned false, th, tp⟩
  /-- `WriteMsgWithContext(&pb.Pong{Response: "{" + ping.Greeting + "}"})`
  (`pingpong.go:119`). -/
  | handlerWrite (p : PingPc) (pongs : List String) (g : String) (th tp : List String) :
      Step faults ⟨p, pongs, .write g, th, tp⟩ ⟨p, pongs, .read, th, tp ++ [response g]⟩
  | handlerWriteFail (p : PingPc) (pongs : List String) (g : String) (th tp : List String)
      (hf : faults = true) :
      Step faults ⟨p, pongs, .write g, th, tp⟩ ⟨p, pongs, .returned false, th, tp⟩

/-- The configurations of the runs of `Ping msgs` against the handler. -/
inductive Reachable (faults : Bool) (msgs : List String) : Conf → Prop
  | init : Reachable faults msgs (init msgs)
  | step {c c' : Conf} : Reachable faults msgs c → Step faults c c' → Reachable faults msgs c'

/-! ## The invariant -/

/-- The greeting the handler read and is about to answer. -/
def Conf.holding (c : Conf) : List String :=
  match c.handler with
  | .write g => [g]
  | _ => []

/-- The responses in order: those `Ping` read, those in flight, and those still owed
for greetings the handler holds or has yet to read. -/
def Conf.answers (c : Conf) : List String :=
  c.pongs ++ c.toPing ++ (c.holding ++ c.toHandler).map response

/-- What the greetings written so far, `sent`, say of where `Ping` stands when it has
read `n` `Pong`s: each greeting it wrote before the current one is answered, and once it
returned without faults, every greeting is written and answered. -/
def PingAt (faults : Bool) (msgs sent : List String) : PingPc → Nat → Prop
  | .write rest, n => msgs = sent ++ rest ∧ n = sent.length
  | .read rest, n => msgs = sent ++ rest ∧ n + 1 = sent.length
  | .returned ok, n => sent <+: msgs ∧ sent.length ≤ n + 1 ∧
      (faults = false → ok = true ∧ sent = msgs ∧ n = sent.length)

/-- The protocol's invariant: the responses owed so far answer the greetings written, in
order. They are a prefix of the answers, since a failed handler drops what it owes, and
all of them without faults. Without faults the handler returns only after `Ping` has,
and without an error. -/
def Inv (faults : Bool) (msgs : List String) (c : Conf) : Prop :=
  ∃ sent, c.answers <+: sent.map response ∧ (faults = false → c.answers = sent.map response) ∧
    PingAt faults msgs sent c.ping c.pongs.length ∧
    (faults = false → ∀ ok, c.handler = .returned ok → ok = true ∧ ∃ ok', c.ping = .returned ok')

theorem inv_init (faults : Bool) (msgs : List String) : Inv faults msgs (init msgs) :=
  ⟨[], List.prefix_refl _, fun _ => rfl, ⟨rfl, rfl⟩, fun _ _ => nofun⟩

section
variable {faults : Bool} {msgs sent : List String}

theorem PingAt.isPrefix_msgs {p : PingPc} {n : Nat} (h : PingAt faults msgs sent p n) :
    sent <+: msgs := by
  cases p with
  | write rest => exact ⟨rest, h.1.symm⟩
  | read rest => exact ⟨rest, h.1.symm⟩
  | returned ok => exact h.1

theorem PingAt.length_le {p : PingPc} {n : Nat} (h : PingAt faults msgs sent p n) :
    sent.length ≤ n + 1 := by
  cases p with
  | write rest => exact h.2 ▸ Nat.le_succ _
  | read rest => exact h.2.ge
  | returned ok => exact h.2.1

/-- `Ping` may fail and return at any point, without faulting the invariant. -/
theorem PingAt.returned_false {p : PingPc} {n : Nat} (h : PingAt faults msgs sent p n)
    (hn : sent.length ≤ n + 1) (hf : faults = true) : PingAt faults msgs sent (.returned false) n :=
  ⟨h.isPrefix_msgs, hn, fun h' => absurd (h'.symm.trans hf) nofun⟩

/-- The answers owed by a configuration whose answers are a prefix of those of the
greetings: the `Pong`s read and those in flight, and at most one more. -/
theorem length_answers_le {c : Conf} (hpre : c.answers <+: sent.map response) :
    c.pongs.length + c.toPing.length + c.holding.length + c.toHandler.length ≤ sent.length := by
  have := hpre.length_le
  simp only [Conf.answers, List.length_append, List.length_map] at this
  omega

/-- Every step keeps the invariant. -/
theorem Inv.step {c c' : Conf} (hi : Inv faults msgs c) (hs : Step faults c c') :
    Inv faults msgs c' := by
  obtain ⟨sent, hpre, heq, hat, hrel⟩ := hi
  cases hs with
  | pingWrite m ms pongs h th tp =>
    -- nothing is outstanding: the answers owed are those of `sent`, and now one more
    obtain ⟨hmsgs, hn⟩ : msgs = sent ++ m :: ms ∧ pongs.length = sent.length := hat
    have hfull : Conf.answers ⟨.write (m :: ms), pongs, h, th, tp⟩ = sent.map response :=
      hpre.eq_of_length (le_antisymm hpre.length_le (by
        simp only [Conf.answers, List.length_append, List.length_map]; omega))
    have hans : Conf.answers ⟨.read ms, pongs, h, th ++ [m], tp⟩ = (sent ++ [m]).map response := by
      rw [List.map_append, ← hfull]; simp [Conf.answers, Conf.holding]
    refine ⟨sent ++ [m], hans ▸ List.prefix_refl _, fun _ => hans,
      ⟨by simp [hmsgs], by simp [hn]⟩, fun hf ok h' => ?_⟩
    obtain ⟨_, hp⟩ := (hrel hf ok h').2
    cases hp
  | pingWriteFail m ms pongs h th tp hf =>
    exact ⟨sent, hpre, heq, hat.returned_false hat.length_le hf, fun h' => (nomatch h'.symm.trans hf)⟩
  | pingEnd pongs h th tp =>
    obtain ⟨hmsgs, hn⟩ : msgs = sent ++ [] ∧ pongs.length = sent.length := hat
    rw [List.append_nil] at hmsgs
    exact ⟨sent, hpre, heq, ⟨hmsgs ▸ List.prefix_refl _, hn ▸ Nat.le_succ _,
      fun _ => ⟨rfl, hmsgs.symm, hn⟩⟩,
      fun hf ok h' => ⟨(hrel hf ok h').1, true, rfl⟩⟩
  | pingRead ms pongs h th p tp =>
    -- the response read moves from the stream to `pongs`
    have hans : Conf.answers ⟨.write ms, pongs ++ [p], h, th, tp⟩ =
        Conf.answers ⟨.read ms, pongs, h, th, p :: tp⟩ := by simp [Conf.answers, Conf.holding]
    refine ⟨sent, hans ▸ hpre, fun hf => hans ▸ heq hf, ⟨hat.1, by simp [← hat.2]⟩,
      fun hf ok h' => ?_⟩
    obtain ⟨_, hp⟩ := (hrel hf ok h').2
    cases hp
  | pingEof ms pongs ok th =>
    -- without faults the handler has not returned while `Ping` waits
    have hnot : faults = false → False := fun hf => by
      obtain ⟨_, hp⟩ := (hrel hf ok rfl).2
      cases hp
    exact ⟨sent, hpre, heq, ⟨hat.isPrefix_msgs, hat.length_le, fun hf => (hnot hf).elim⟩,
      fun hf => (hnot hf).elim⟩
  | pingReadFail ms pongs h th tp hf =>
    exact ⟨sent, hpre, heq, hat.returned_false hat.length_le hf, fun h' => (nomatch h'.symm.trans hf)⟩
  | handlerRead p pongs m th tp =>
    exact ⟨sent, hpre, heq, hat, fun _ _ h' => nomatch h'⟩
  | handlerEof ok pongs tp =>
    exact ⟨sent, hpre, heq, hat, fun _ _ h' => by cases h'; exact ⟨rfl, ok, rfl⟩⟩
  | handlerReadFail p pongs th tp hf =>
    exact ⟨sent, hpre, heq, hat, fun h' => (nomatch h'.symm.trans hf)⟩
  | handlerWrite p pongs g th tp =>
    have hans : Conf.answers ⟨p, pongs, .read, th, tp ++ [response g]⟩ =
        Conf.answers ⟨p, pongs, .write g, th, tp⟩ := by simp [Conf.answers, Conf.holding]
    exact ⟨sent, hans ▸ hpre, fun hf => hans ▸ heq hf, hat, fun _ _ h' => nomatch h'⟩
  | handlerWriteFail p pongs g th tp hf =>
    -- the failed handler drops the one response it owes, the last one
    have hlen := length_answers_le hpre
    have hn := hat.length_le
    dsimp only [Conf.holding] at hn hlen
    rw [List.length_singleton] at hlen
    obtain rfl : th = [] := List.eq_nil_of_length_eq_zero (by omega)
    have hdrop : Conf.answers ⟨p, pongs, .returned false, [], tp⟩ <+:
        Conf.answers ⟨p, pongs, .write g, [], tp⟩ := by
      simp [Conf.answers, Conf.holding]
    exact ⟨sent, hdrop.trans hpre, fun h' => (nomatch h'.symm.trans hf), hat,
      fun h' => (nomatch h'.symm.trans hf)⟩

theorem Reachable.inv {c : Conf} (h : Reachable faults msgs c) : Inv faults msgs c := by
  induction h with
  | init => exact inv_init faults msgs
  | step _ hs ih => exact ih.step hs

end

theorem Conf.pongs_prefix_answers (c : Conf) : c.pongs <+: c.answers := by
  rw [Conf.answers, List.append_assoc]; exact List.prefix_append _ _

/-- **`Ping` reads the answers to its greetings, in order.** Over every interleaving of
the two parties, faults included, the `Pong`s `Ping` has read are the responses to its
first greetings, one each, in the order it wrote them. -/
theorem ping_pongs_prefix (msgs : List String) {c : Conf} (h : Reachable true msgs c) :
    c.pongs <+: msgs.map response := by
  obtain ⟨sent, hpre, -, hat, -⟩ := h.inv
  exact c.pongs_prefix_answers.trans (hpre.trans (hat.isPrefix_msgs.map response))

/-- `Ping` has written the first of two greetings and read its `Pong`. -/
theorem ping_pongs_prefix_onePong :
    let c : Conf := ⟨.write ["b"], [response "a"], .read, [], []⟩
    Reachable true ["a", "b"] c ∧ c.pongs <+: ["a", "b"].map response :=
  have hr : Reachable true ["a", "b"] ⟨.write ["b"], [response "a"], .read, [], []⟩ :=
    .step (.step (.step (.step .init (.pingWrite "a" ["b"] [] .read [] []))
      (.handlerRead _ [] "a" [] [])) (.handlerWrite _ [] "a" [] [])) (.pingRead ["b"] [] .read [] _ [])
  ⟨hr, ping_pongs_prefix _ hr⟩

/-! ## What no error from `Ping` tells -/

/-- The handler returns without an error only after `Ping` has returned, and a `Ping`
that returned no error has read every answer, or the handler failed. -/
def OkInv (msgs : List String) (c : Conf) : Prop :=
  (c.handler = .returned true → ∃ ok, c.ping = .returned ok) ∧
    (c.ping = .returned true → c.pongs = msgs.map response ∨ c.handler = .returned false)

section
variable {faults : Bool} {msgs : List String}

theorem OkInv.step {c c' : Conf} (hi : Inv faults msgs c) (ho : OkInv msgs c) (hs : Step faults c c') :
    OkInv msgs c' := by
  obtain ⟨hret, hok⟩ := ho
  cases hs with
  | pingWrite => exact ⟨fun hh => (by obtain ⟨_, hp⟩ := hret hh; cases hp), nofun⟩
  | pingRead => exact ⟨fun hh => (by obtain ⟨_, hp⟩ := hret hh; cases hp), nofun⟩
  | pingWriteFail => exact ⟨fun _ => ⟨false, rfl⟩, nofun⟩
  | pingReadFail => exact ⟨fun _ => ⟨false, rfl⟩, nofun⟩
  | pingEnd pongs h th tp =>
    -- `Ping` wrote every greeting and read a `Pong` for each
    obtain ⟨sent, hpre, -, ⟨hmsgs, hn⟩, -⟩ := hi
    rw [List.append_nil] at hmsgs
    refine ⟨fun _ => ⟨true, rfl⟩, fun _ => .inl ?_⟩
    rw [hmsgs]
    exact ((Conf.pongs_prefix_answers _).trans hpre).eq_of_length (by simp [hn])
  | pingEof ms pongs ok th =>
    -- the handler returned before `Ping` did, so it failed
    refine ⟨fun _ => ⟨true, rfl⟩, fun _ => .inr ?_⟩
    cases ok
    · rfl
    · obtain ⟨_, hp⟩ := hret rfl; cases hp
  | handlerRead p => exact ⟨nofun, fun hp => .inl ((hok hp).resolve_right nofun)⟩
  | handlerWrite p => exact ⟨nofun, fun hp => .inl ((hok hp).resolve_right nofun)⟩
  | handlerEof ok => exact ⟨fun _ => ⟨ok, rfl⟩, fun hp => .inl ((hok hp).resolve_right nofun)⟩
  | handlerReadFail => exact ⟨nofun, fun _ => .inr rfl⟩
  | handlerWriteFail => exact ⟨nofun, fun _ => .inr rfl⟩

theorem Reachable.okInv {c : Conf} (h : Reachable faults msgs c) : OkInv msgs c := by
  induction h with
  | init => exact ⟨nofun, nofun⟩
  | step hr hs ih => exact ih.step hr.inv hs

end

/-- **No error from `Ping` is an answer to every greeting, or a failed handler.** Over
every interleaving of the two parties, faults included, once `Ping` has returned no
error it has read the response to each of its greetings, in order, or the handler has
returned an error. -/
theorem ping_ok_answered_or_handler_failed (msgs : List String) {c : Conf}
    (h : Reachable true msgs c) (hok : c.ping = .returned true) :
    c.pongs = msgs.map response ∨ c.handler = .returned false :=
  h.okInv.2 hok

/-- The handler fails to read the first greeting: `Ping` meets `io.EOF` and returns no
error, with no `Pong` read. -/
theorem ping_ok_answered_or_handler_failed_unanswered :
    let c : Conf := ⟨.returned true, [], .returned false, ["a"], []⟩
    Reachable true ["a"] c ∧ c.ping = .returned true ∧ c.pongs = [] ∧
      (c.pongs = ["a"].map response ∨ c.handler = .returned false) :=
  have hr : Reachable true ["a"] ⟨.returned true, [], .returned false, ["a"], []⟩ :=
    .step (.step (.step .init (.pingWrite "a" [] [] .read [] []))
      (.handlerReadFail _ [] ["a"] [] rfl)) (.pingEof [] [] false ["a"])
  ⟨hr, rfl, rfl, ping_ok_answered_or_handler_failed _ hr rfl⟩

/-! ## Runs without faults end, and end well -/

/-- The steps left to `Ping`: two per greeting, and one to return. -/
def PingPc.potential : PingPc → Nat
  | .write rest => 2 * rest.length + 1
  | .read rest => 2 * rest.length + 2
  | .returned _ => 0

/-- The steps left to the handler, before the greetings it has yet to read. -/
def HandlerPc.potential : HandlerPc → Nat
  | .read => 1
  | .write _ => 3
  | .returned _ => 0

/-- A bound on the steps left to both parties. -/
def Conf.potential (c : Conf) : Nat :=
  4 * c.ping.potential + 3 * c.toHandler.length + c.handler.potential + c.toPing.length

theorem Step.potential_lt {faults : Bool} {c c' : Conf} (h : Step faults c c') :
    c'.potential < c.potential := by
  cases h <;> simp [Conf.potential, PingPc.potential, HandlerPc.potential] <;> omega

/-- No run goes on forever, faults or not. -/
theorem step_wellFounded (faults : Bool) : WellFounded fun c' c => Step faults c c' :=
  Subrelation.wf (fun h => Step.potential_lt h) (measure Conf.potential).wf

/-- Without faults, a configuration where neither party can act is the one where both
returned without an error, every greeting answered. -/
theorem final_of_stuck {msgs : List String} {c : Conf} (h : Reachable false msgs c)
    (hstuck : ∀ c', ¬Step false c c') :
    c.ping = .returned true ∧ c.pongs = msgs.map response ∧ c.handler = .returned true := by
  obtain ⟨sent, hpre, heq, hat, hrel⟩ := h.inv
  obtain ⟨p, pongs, hd, th, tp⟩ := c
  have hlen := congrArg List.length (heq rfl)
  simp only [Conf.answers, List.length_append, List.length_map] at hlen
  cases p with
  | write rest =>
    cases rest with
    | nil => exact (hstuck _ (.pingEnd _ _ _ _)).elim
    | cons m ms => exact (hstuck _ (.pingWrite _ _ _ _ _ _)).elim
  | read rest =>
    obtain ⟨-, hn⟩ : msgs = sent ++ rest ∧ pongs.length + 1 = sent.length := hat
    cases tp with
    | cons q tq => exact (hstuck _ (.pingRead _ _ _ _ _ _)).elim
    | nil =>
    cases hd with
    | read =>
      cases th with
      | cons m th => exact (hstuck _ (.handlerRead _ _ _ _ _)).elim
      | nil => simp [Conf.holding] at hlen; omega
    | write g => exact (hstuck _ (.handlerWrite _ _ _ _ _)).elim
    | returned ok => exact (hstuck _ (.pingEof _ _ _ _)).elim
  | returned ok =>
    obtain ⟨-, -, hdone⟩ : sent <+: msgs ∧ sent.length ≤ pongs.length + 1 ∧
        (false = false → ok = true ∧ sent = msgs ∧ pongs.length = sent.length) := hat
    obtain ⟨rfl, rfl, hn⟩ := hdone rfl
    cases hd with
    | read =>
      cases th with
      | nil => exact (hstuck _ (.handlerEof _ _ _)).elim
      | cons m th => exact (hstuck _ (.handlerRead _ _ _ _ _)).elim
    | write g => exact (hstuck _ (.handlerWrite _ _ _ _ _)).elim
    | returned ok' =>
      obtain ⟨rfl, -⟩ := hrel rfl ok' rfl
      refine ⟨rfl, ?_, rfl⟩
      have hans := heq rfl
      simp only [Conf.answers, Conf.holding] at hans hlen
      obtain rfl : tp = [] := List.eq_nil_of_length_eq_zero (by omega)
      obtain rfl : th = [] := List.eq_nil_of_length_eq_zero (by omega)
      simpa using hans

/-- **Without faults, every run ends with every greeting answered.** No run goes on
forever; and a run that cannot go on has both parties returned without an error, `Ping`
having read the response to each of its greetings, in order. -/
theorem ping_completes (msgs : List String) :
    WellFounded (fun c' c => Step false c c') ∧
      ∀ c, Reachable false msgs c → (∀ c', ¬Step false c c') →
        c.ping = .returned true ∧ c.pongs = msgs.map response ∧ c.handler = .returned true :=
  ⟨step_wellFounded false, fun _ h hstuck => final_of_stuck h hstuck⟩

/-- One greeting, answered: the run ends with its response read. -/
theorem ping_completes_one :
    let done : Conf := ⟨.returned true, [response "a"], .returned true, [], []⟩
    Reachable false ["a"] done ∧ (∀ c', ¬Step false done c') ∧
      done.ping = .returned true ∧ done.pongs = ["a"].map response ∧
        done.handler = .returned true := by
  intro done
  have hrun : Reachable false ["a"] done :=
    .step (.step (.step (.step (.step (.step .init (.pingWrite "a" [] [] .read [] []))
      (.handlerRead _ [] "a" [] [])) (.handlerWrite _ [] "a" [] [])) (.pingRead [] [] .read [] _ []))
      (.pingEnd _ .read [] [])) (.handlerEof true _ [])
  have hstuck : ∀ c', ¬Step false ⟨.returned true, [response "a"], .returned true, [], []⟩ c' :=
    fun _ h => by cases h
  exact ⟨hrun, hstuck, (ping_completes ["a"]).2 done hrun hstuck⟩

end Voyager.Pingpong
