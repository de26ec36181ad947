import Voyager.Chunk.Format

/-!
# NetStore: the local store with the network behind it

`store.Get` (`netstore.go:41-66`) asks the local store for a chunk. It asks the network
(`retrieval.RetrieveChunk`) only on `storage.ErrNotFound`, and stores what comes back
(`ModePutRequest`) before returning it. A failed retrieval starts the recovery callback
when the request carries targets and a callback is set (`ErrRecoveryAttempt`), and
otherwise returns the retrieval's error. A chunk put with `ModePutRequest` is a cache
entry the local store's garbage collection may evict (spec §4.C, I4), so a run
interleaves `Get`s with collections (`Op`).

The local store holds each chunk under its own address, and every `Get` and every
collection keeps it so. When retrieval answers with the chunk asked for, a `Get` returns
the chunk asked for and never changes or removes a chunk the store holds, and only a
collection that evicts it removes one. A chunk one `Get` returned is returned again,
without the network, by every later `Get` of its address that the local store answers,
unless a collection evicted it in between (`netstore_cache`).
-/

namespace Voyager.Netstore
open Voyager.Infinity

/-- What `store.Get` returns besides a chunk: the local store's error other than
`storage.ErrNotFound` (`"netstore get: %w"`), the retrieval's error, `ErrRecoveryAttempt`,
or the local store's error on storing the chunk retrieved
(`"netstore retrieve put: %w"`). -/
inductive GetError where
  | get
  | retrieve
  | recoveryAttempt
  | put
  deriving DecidableEq, Repr

/-- The collaborators' answers to one `Get`: whether the local `Storer.Get` fails with an
error other than `storage.ErrNotFound`, what `RetrieveChunk` returns (`none` on an error),
whether `Storer.Put` fails, and whether the request carries targets
(`sctx.GetTargets(ctx) != nil`). -/
structure Answers where
  getFails : Bool
  retrieve : Option Chunk
  putFails : Bool
  hasTargets : Bool

/-- A NetStore: the chunks the local store holds, by address, and whether a recovery
callback is set. -/
structure Store where
  chunks : Address → Option Chunk
  recoveryCallback : Bool

/-- `store.Get` (`netstore.go:42`). Returns the store after the call, the result, and
the addresses the recovery callback was started for. -/
def Store.get (s : Store) (a : Answers) (addr : Address) :
    Store × Except GetError Chunk × List Address :=
  if a.getFails then (s, .error .get, [])
  else
    match s.chunks addr with
    | some ch => (s, .ok ch, [])
    | none =>
      match a.retrieve with
      | none =>
        if a.hasTargets && s.recoveryCallback then (s, .error .recoveryAttempt, [addr])
        else (s, .error .retrieve, [])
      | some ch =>
        if a.putFails then (s, .error .put, [])
        else ({ s with chunks := Function.update s.chunks ch.address (some ch) }, .ok ch, [])

/-- Modelled from the spec (§4.C, I4): a garbage collection of the local store. Which
chunks it evicts (the least recently accessed, until a capacity target is met) is not in
the source tree; `evict` names them, any set. -/
def Store.collect (s : Store) (evict : Address → Bool) : Store :=
  { s with chunks := fun x => if evict x then none else s.chunks x }

/-- What happens to a NetStore: a `Get` with the collaborators' answers, or a garbage
collection of its local store. -/
inductive Op where
  | get (a : Answers) (addr : Address)
  | collect (evict : Address → Bool)

/-- One operation. -/
def Store.step (s : Store) : Op → Store
  | .get a addr => (s.get a addr).1
  | .collect evict => s.collect evict

/-- A run of operations. -/
def Store.run (s : Store) : List Op → Store
  | [] => s
  | o :: rest => (s.step o).run rest

/-- Whether an operation evicts the chunk at `x`. -/
def Op.evicts (x : Address) : Op → Bool
  | .get .. => false
  | .collect evict => evict x

/-- Each chunk of the local store is held under its own address. -/
def Store.Consistent (s : Store) : Prop :=
  ∀ addr ch, s.chunks addr = some ch → ch.address = addr

/-- Retrieval answers with the chunk asked for, if with any. -/
def Answers.Honest (a : Answers) (addr : Address) : Prop :=
  ∀ ch, a.retrieve = some ch → ch.address = addr

/-- Retrieval answers a `Get` with the chunk asked for, if with any. -/
def Op.Honest : Op → Prop
  | .get a addr => a.Honest addr
  | .collect _ => True

/-- What one `Get` can do: fail and leave the store as it is; find the chunk in the
local store; or, on a miss, store the chunk retrieval returned and return it. -/
theorem Store.get_cases (s : Store) (a : Answers) (addr : Address) :
    (∃ e cbs, s.get a addr = (s, .error e, cbs)) ∨
      (∃ ch, s.chunks addr = some ch ∧ s.get a addr = (s, .ok ch, [])) ∨
      ∃ ch, s.chunks addr = none ∧ a.retrieve = some ch ∧
        s.get a addr = ({ s with chunks := Function.update s.chunks ch.address (some ch) },
          .ok ch, []) := by
  unfold Store.get
  by_cases hg : a.getFails
  · exact .inl ⟨_, _, by rw [if_pos hg]⟩
  rw [if_neg hg]
  cases hs : s.chunks addr with
  | some ch => exact .inr (.inl ⟨ch, rfl, rfl⟩)
  | none =>
    cases hr : a.retrieve with
    | none => exact .inl (by dsimp only; split <;> exact ⟨_, _, rfl⟩)
    | some ch =>
      by_cases hp : a.putFails
      · exact .inl ⟨_, _, by dsimp only; rw [if_pos hp]⟩
      · exact .inr (.inr ⟨ch, rfl, rfl, by dsimp only; rw [if_neg hp]⟩)

/-- `Get` keeps each chunk under its own address. -/
theorem Store.Consistent.get {s : Store} (hs : s.Consistent) (a : Answers) (addr : Address) :
    (s.get a addr).1.Consistent := by
  rcases s.get_cases a addr with ⟨e, cbs, h⟩ | ⟨ch, -, h⟩ | ⟨ch, -, -, h⟩
  · rwa [h]
  · rwa [h]
  · rw [h]
    intro x c hx
    dsimp only at hx
    by_cases hxa : x = ch.address
    · subst hxa
      simp only [Function.update_same, Option.some_inj] at hx
      rw [← hx]
    · rw [Function.update_noteq hxa] at hx
      exact hs x c hx

/-- Under honest retrieval, `Get` never changes or removes a chunk the store holds. -/
theorem Store.get_keeps {s : Store} {a : Answers} {addr : Address} (ha : a.Honest addr)
    {x : Address} {c : Chunk} (hx : s.chunks x = some c) : (s.get a addr).1.chunks x = some c := by
  rcases s.get_cases a addr with ⟨e, cbs, h⟩ | ⟨ch, -, h⟩ | ⟨ch, hnone, hr, h⟩
  · rw [h]; exact hx
  · rw [h]; exact hx
  · rw [h]
    dsimp only
    have hxa : x ≠ ch.address := by
      rw [ha ch hr]; rintro rfl; rw [hnone] at hx; cases hx
    rw [Function.update_noteq hxa]; exact hx

/-- Under honest retrieval, a chunk `Get` returns is held under its address afterwards. -/
theorem Store.get_ok_stored {s : Store} {a : Answers} {addr : Address} (ha : a.Honest addr)
    {ch : Chunk} (hok : (s.get a addr).2.1 = .ok ch) : (s.get a addr).1.chunks addr = some ch := by
  rcases s.get_cases a addr with ⟨e, cbs, h⟩ | ⟨c, hc, h⟩ | ⟨c, -, hr, h⟩
  · rw [h] at hok; cases hok
  · rw [h] at hok ⊢; cases hok; exact hc
  · rw [h] at hok ⊢
    cases hok
    dsimp only
    rw [← ha ch hr, Function.update_same]

/-- A `Get` the local store answers returns what it holds, and asks no one else. -/
theorem Store.get_of_stored {s : Store} {a : Answers} {addr : Address} (hg : a.getFails = false)
    {ch : Chunk} (hs : s.chunks addr = some ch) : s.get a addr = (s, .ok ch, []) := by
  rw [Store.get, if_neg (by simp [hg]), hs]

/-- A collection keeps each chunk under its own address, and every chunk it does not
evict. -/
theorem Store.Consistent.collect {s : Store} (hs : s.Consistent) (evict : Address → Bool) :
    (s.collect evict).Consistent := fun x c hx => by
  dsimp only [Store.collect] at hx
  split at hx
  · cases hx
  · exact hs x c hx

theorem Store.Consistent.run {s : Store} (hs : s.Consistent) : ∀ ops : List Op, (s.run ops).Consistent
  | [] => hs
  | .get a addr :: rest => (hs.get a addr).run rest
  | .collect evict :: rest => (hs.collect evict).run rest

theorem Store.step_keeps {s : Store} {o : Op} (ho : o.Honest) {x : Address} (hx : o.evicts x = false)
    {c : Chunk} (hc : s.chunks x = some c) : (s.step o).chunks x = some c := by
  cases o with
  | get a addr => exact Store.get_keeps ho hc
  | collect evict => simp only [Op.evicts] at hx; simp [Store.step, Store.collect, hx, hc]

theorem Store.run_keeps {s : Store} :
    ∀ ops : List Op, (∀ o ∈ ops, o.Honest) → ∀ {x}, (∀ o ∈ ops, o.evicts x = false) →
      ∀ {c}, s.chunks x = some c → (s.run ops).chunks x = some c
  | [], _, _, _, _, hx => hx
  | o :: rest, honest, _, hev, _, hx =>
    Store.run_keeps rest (fun o' ho => honest o' (List.mem_cons_of_mem _ ho))
      (fun o' ho => hev o' (List.mem_cons_of_mem _ ho))
      (Store.step_keeps (honest o (List.mem_cons_self _ _)) (hev o (List.mem_cons_self _ _)) hx)

theorem Store.run_append (s : Store) (l₁ l₂ : List Op) : s.run (l₁ ++ l₂) = (s.run l₁).run l₂ := by
  induction l₁ generalizing s with
  | nil => rfl
  | cons o l₁ ih => exact ih _

/-- **NetStore keeps what it fetched until it is collected.** Over every run of `Get`s and
garbage collections from a consistent store, the store stays consistent. When retrieval
answers each request with the chunk asked for, a chunk the store holds is removed only
by a collection that evicts it, and never changed; a chunk a `Get` of the run returned is
the chunk asked for, and it is returned by every `Get` of its address after the run that
the local store answers, which asks the network nothing and starts no recovery, unless a
collection after that `Get` evicted it. -/
theorem netstore_cache (s : Store) (hs : s.Consistent) (ops : List Op)
    (honest : ∀ o ∈ ops, o.Honest) :
    (s.run ops).Consistent ∧
      (∀ x c, s.chunks x = some c → (∀ o ∈ ops, o.evicts x = false) →
        (s.run ops).chunks x = some c) ∧
      ∀ pre a addr post ch, ops = pre ++ .get a addr :: post →
        ((s.run pre).get a addr).2.1 = .ok ch →
        ch.address = addr ∧ ((∀ o ∈ post, o.evicts addr = false) →
          ∀ a', a'.getFails = false → (s.run ops).get a' addr = (s.run ops, .ok ch, [])) := by
  refine ⟨hs.run ops, fun x c hx hev => Store.run_keeps ops honest hev hx, ?_⟩
  rintro pre a addr post ch rfl hok
  have hmid : a.Honest addr := honest (.get a addr) (List.mem_append_right _ (List.mem_cons_self _ _))
  have hstored := Store.get_ok_stored hmid hok
  refine ⟨((hs.run pre).get a addr) addr ch hstored, fun hev a' hg => Store.get_of_stored hg ?_⟩
  rw [Store.run_append]
  exact Store.run_keeps post
    (fun o ho => honest o (List.mem_append_right _ (List.mem_cons_of_mem _ ho))) hev hstored

/-- An empty store fetches one chunk, then a collection evicts another address. -/
theorem netstore_cache_collect :
    let ch : Chunk := ⟨Address.ofHead 1, [7]⟩
    let s : Store := ⟨fun _ => none, false⟩
    let ops : List Op :=
      [.get ⟨false, some ch, false, false⟩ ch.address, .collect fun x => decide (x = Address.ofHead 2)]
    s.Consistent ∧ (∀ o ∈ ops, o.Honest) ∧
      ((s.run ops).Consistent ∧
        (∀ x c, s.chunks x = some c → (∀ o ∈ ops, o.evicts x = false) →
          (s.run ops).chunks x = some c) ∧
        ∀ pre a addr post c, ops = pre ++ .get a addr :: post →
          ((s.run pre).get a addr).2.1 = .ok c →
          c.address = addr ∧ ((∀ o ∈ post, o.evicts addr = false) →
            ∀ a', a'.getFails = false → (s.run ops).get a' addr = (s.run ops, .ok c, []))) := by
  intro ch s ops
  have hs : s.Consistent := fun _ _ h => nomatch h
  have honest : ∀ o ∈ ops, o.Honest := by
    intro o ho
    simp only [ops, List.mem_cons, List.mem_singleton, List.not_mem_nil, or_false] at ho
    rcases ho with rfl | rfl
    · rintro c ⟨⟩; rfl
    · trivial
  exact ⟨hs, honest, netstore_cache s hs ops honest⟩

end Voyager.Netstore
