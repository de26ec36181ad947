import Mathlib.Logic.Function.Basic
import Mathlib.Data.List.Basic

/-!
# Chequebook initialisation across restarts

`chequebook.Init` and `checkBalance` (`part_009:27-221`). `Init` finds the node's
chequebook in the state store, or deploys one, waits for it, stores its address
and makes the initial deposit. Every collaborator (the factory, the backend, the
ERC-20 service, the chequebook service, the state store's reads and writes) is
modelled by its answers in one invocation (`Env`), so one definition covers every
way a call may fail. The state store itself persists: it is the state that
invocations, one per start of the node, share (`initRuns`).

The store is written before the deposit is made, so an invocation whose deposit
fails leaves the address stored, and the next one takes the "using existing
chequebook" branch and succeeds without depositing
(`initRuns_deposit_counterexample`). What holds is that an invocation that
succeeds with a non-zero deposit either made and confirmed the deposit itself, or
found the chequebook already stored (`initRuns_deposit`); and once stored, the
address never changes, so every invocation that succeeds returns the same
chequebook (`initRuns_agree`). Whatever fails, a chequebook is deployed only after
`checkBalance` saw enough IFI and IFIE (`init_deploys_funded`).

Two small program logics carry the proofs: `OnSuccess` follows the successful runs of
an invocation, `EventsKeep` every run, failed or not; each has one rule per primitive.
-/

namespace Voyager.Chequebook

/-- `chequebookKey`. -/
def chequebookKey : String := "swap_chequebook"

/-- `chequebookDeploymentKey`. -/
def chequebookDeploymentKey : String := "swap_chequebook_transaction_deployment"

/-- The state store: what each key holds, addresses and hashes as numbers. -/
def Store := String → Option Nat

/-- One pass of `checkBalance`'s loop: what the ERC-20 service and the backend
answered, each a value or an error. -/
structure Reading where
  erc20Balance : Except Nat Int
  ethBalance : Except Nat Int
  gasPrice : Except Nat Int

/-- Why `Init` failed: a collaborator's error, which it returns as it is, or one of
`checkBalance`'s own. -/
inductive InitError where
  | failed (err : Nat)
  | insufficientIFI
  | insufficientIFIE
  deriving DecidableEq, Repr

/-- The error's text, a collaborator's being its own. -/
def InitError.text (errText : Nat → String) : InitError → String
  | .failed e => errText e
  | .insufficientIFI => "insufficient IFI for initial deposit"
  | .insufficientIFIE => "insufficient IFIE for initial deposit"

/-- `checkBalance` (`part_009:27`), over the readings its loop takes before the
deadline. An insufficient reading is followed by the next one, or, after the
last, by the deadline, which ends the loop with an error. The ETH needed is the
gas price times 2000000. -/
def checkBalance (swapInitialDeposit : Int) : Reading → List Reading → Option InitError
  | r, rest =>
    match r.erc20Balance, r.ethBalance, r.gasPrice with
    | .error e, _, _ => some (.failed e)
    | .ok _, .error e, _ => some (.failed e)
    | .ok _, .ok _, .error e => some (.failed e)
    | .ok erc20Balance, .ok ethBalance, .ok gasPrice =>
      let insufficientERC20 := decide (erc20Balance < swapInitialDeposit)
      let insufficientETH := decide (ethBalance < gasPrice * 2000000)
      if insufficientERC20 || insufficientETH then
        match rest with
        | [] => some (if insufficientERC20 then .insufficientIFI else .insufficientIFIE)
        | r' :: rest' => checkBalance swapInitialDeposit r' rest'
      else none

/-- The answers of `Init`'s collaborators in one invocation; a call the invocation
does not make leaves its answer unread. -/
structure Env where
  /-- `chequebookFactory.VerifyBytecode` -/
  verifyBytecode : Option Nat
  /-- `chequebookFactory.ERC20Address` -/
  erc20Address : Except Nat Nat
  /-- `stateStore.Get(key)` failing with an error other than `storage.ErrNotFound` -/
  getError : String → Option Nat
  /-- the readings of `checkBalance` -/
  balances : Reading × List Reading
  /-- `chequebookFactory.Deploy`: the deployment transaction's hash -/
  deploy : Except Nat Nat
  /-- `chequebookFactory.WaitDeployed(txHash)`: the chequebook's address -/
  waitDeployed : Nat → Except Nat Nat
  /-- `stateStore.Put(key)` failing -/
  putError : String → Option Nat
  /-- `New(..., chequebookAddress, ...)` failing -/
  new : Nat → Option Nat
  /-- `chequebookService.Deposit`: the deposit transaction's hash -/
  deposit : Except Nat Nat
  /-- `chequebookService.WaitForDeposit(depositHash)` -/
  waitForDeposit : Nat → Option Nat
  /-- `chequebookFactory.VerifyChequebook(address)` -/
  verifyChequebook : Nat → Option Nat

/-- What an invocation does that the claims watch. -/
inductive Event where
  /-- the deployment transaction was sent -/
  | deployed (txHash : Nat)
  /-- a deposit of `amount` into `chequebook` was sent and confirmed -/
  | deposited (chequebook : Nat) (amount : Int)
  deriving DecidableEq, Repr

/-- What an invocation has done so far: the state store, and its events. -/
structure Ctx where
  store : Store
  events : List Event

/-- An invocation: it may stop with an error, and what it stored stays stored. -/
abbrev InitM := ExceptT InitError (StateM Ctx)

/-- A call that answers only an error. -/
def check (r : Option Nat) : InitM Unit :=
  match r with
  | some e => throw (.failed e)
  | none => pure ()

/-- A call that answers a value or an error. -/
def answer {α : Type} (r : Except Nat α) : InitM α :=
  match r with
  | .error e => throw (.failed e)
  | .ok a => pure a

/-- `stateStore.Get(key)`: the value, or none for `storage.ErrNotFound`. -/
def storeGet (env : Env) (key : String) : InitM (Option Nat) := do
  check (env.getError key)
  return (← get).store key

/-- `stateStore.Put(key, v)`. -/
def storePut (env : Env) (key : String) (v : Nat) : InitM Unit := do
  check (env.putError key)
  modify fun c => { c with store := Function.update c.store key (some v) }

/-- Record an event. -/
def emit (e : Event) : InitM Unit :=
  modify fun c => { c with events := c.events ++ [e] }

/-- `Init` (`part_009:109`): the address of the chequebook the service uses. -/
def init (env : Env) (swapInitialDeposit : Int) : InitM Nat := do
  check env.verifyBytecode
  let _ ← answer env.erc20Address
  match ← storeGet env chequebookKey with
  | some chequebookAddress =>
    check (env.new chequebookAddress)
    check (env.verifyChequebook chequebookAddress)
    return chequebookAddress
  | none =>
    let txHash ← match ← storeGet env chequebookDeploymentKey with
      | some txHash => pure txHash
      | none => do
        match checkBalance swapInitialDeposit env.balances.1 env.balances.2 with
        | some e => throw e
        | none => pure ()
        let txHash ← answer env.deploy
        emit (.deployed txHash)
        storePut env chequebookDeploymentKey txHash
        pure txHash
    let chequebookAddress ← answer (env.waitDeployed txHash)
    storePut env chequebookKey chequebookAddress
    check (env.new chequebookAddress)
    if swapInitialDeposit ≠ 0 then
      let depositHash ← answer env.deposit
      check (env.waitForDeposit depositHash)
      emit (.deposited chequebookAddress swapInitialDeposit)
    check (env.verifyChequebook chequebookAddress)
    return chequebookAddress

/-- One invocation from the store `s`: its result and what it did. -/
def Env.run (env : Env) (swapInitialDeposit : Int) (s : Store) : Except InitError Nat × Ctx :=
  (init env swapInitialDeposit).run.run ⟨s, []⟩

/-- Invocations one after another over one state store, each with its own
answers: for each, the store it started from, its result and its events. -/
def initRuns (swapInitialDeposit : Int) : Store → List Env → List (Store × Except InitError Nat × List Event)
  | _, [] => []
  | s, env :: envs =>
    let r := env.run swapInitialDeposit s
    (s, r.1, r.2.events) :: initRuns swapInitialDeposit r.2.store envs

/-! ## Runs of an invocation -/

theorem run_bind {α β : Type} (x : InitM α) (f : α → InitM β) (c : Ctx) :
    (x >>= f).run.run c = match x.run.run c with
      | (.ok a, c') => (f a).run.run c'
      | (.error e, c') => (.error e, c') := by
  simp only [ExceptT.run_bind, StateT.run_bind]
  generalize StateT.run (ExceptT.run x) c = p
  obtain ⟨_ | _, _⟩ := p <;> rfl

@[simp] theorem check_run (r : Option Nat) (c : Ctx) :
    (check r).run.run c = (match r with | some e => .error (.failed e) | none => .ok (), c) := by
  cases r <;> rfl

@[simp] theorem answer_run {α : Type} (r : Except Nat α) (c : Ctx) :
    (answer r).run.run c = (match r with | .error e => .error (.failed e) | .ok a => .ok a, c) := by
  cases r <;> rfl

@[simp] theorem storeGet_run (env : Env) (key : String) (c : Ctx) :
    (storeGet env key).run.run c =
      (match env.getError key with | some e => .error (.failed e) | none => .ok (c.store key), c) := by
  unfold storeGet
  cases env.getError key <;> rfl

@[simp] theorem storePut_run (env : Env) (key : String) (v : Nat) (c : Ctx) :
    (storePut env key v).run.run c = match env.putError key with
      | some e => (.error (.failed e), c)
      | none => (.ok (), { c with store := Function.update c.store key (some v) }) := by
  unfold storePut
  cases env.putError key <;> rfl

@[simp] theorem run_map {α β : Type} (f : α → β) (x : InitM α) (c : Ctx) :
    (f <$> x).run.run c = match x.run.run c with
      | (.ok a, c') => (.ok (f a), c')
      | (.error e, c') => (.error e, c') := by
  simp only [ExceptT.run_map, StateT.run_map]
  generalize StateT.run (ExceptT.run x) c = p
  obtain ⟨_ | _, _⟩ := p <;> rfl

/-- An invocation that finds the chequebook stored writes nothing, records nothing,
and uses that chequebook. -/
theorem init_found (env : Env) (d : Int) (c : Ctx) {a : Nat} (h : c.store chequebookKey = some a) :
    ((init env d).run.run c).2 = c ∧ ∀ cb, ((init env d).run.run c).1 = .ok cb → cb = a := by
  simp only [init, run_bind, run_map, check_run, answer_run, storeGet_run]
  cases env.verifyBytecode <;> cases env.erc20Address <;> cases env.getError chequebookKey <;>
    simp only [h, run_bind, run_map, check_run] <;>
    cases env.new a <;> cases env.verifyChequebook a <;> simp

/-- `Q` holds of the result and the state of every successful run of `x` from `c`. -/
def OnSuccess {α : Type} (x : InitM α) (c : Ctx) (Q : α → Ctx → Prop) : Prop :=
  ∀ a c', x.run.run c = (.ok a, c') → Q a c'

namespace OnSuccess

variable {α β : Type} {c : Ctx}

theorem bind {x : InitM α} {f : α → InitM β} {Q : β → Ctx → Prop}
    (h : OnSuccess x c fun a c₁ => OnSuccess (f a) c₁ Q) : OnSuccess (x >>= f) c Q := by
  intro b c' hr
  rw [run_bind] at hr
  split at hr
  · exact h _ _ ‹_› _ _ hr
  · cases hr

theorem pure {a : α} {Q : α → Ctx → Prop} (h : Q a c) : OnSuccess (Pure.pure a) c Q := by
  rintro _ _ ⟨⟩
  exact h

theorem check {r : Option Nat} {Q : Unit → Ctx → Prop} (h : r = none → Q () c) :
    OnSuccess (Chequebook.check r) c Q := by
  cases r <;> rintro _ _ ⟨⟩
  exact h rfl

theorem answer {r : Except Nat α} {Q : α → Ctx → Prop} (h : ∀ a, r = .ok a → Q a c) :
    OnSuccess (Chequebook.answer r) c Q := by
  cases r <;> rintro _ _ ⟨⟩
  exact h _ rfl

theorem storeGet {env : Env} {key : String} {Q : Option Nat → Ctx → Prop}
    (h : env.getError key = none → Q (c.store key) c) : OnSuccess (Chequebook.storeGet env key) c Q := by
  intro a c' hr
  rw [storeGet_run] at hr
  split at hr <;> cases hr
  exact h ‹_›

theorem storePut {env : Env} {key : String} {v : Nat} {Q : Unit → Ctx → Prop}
    (h : env.putError key = none → Q () { c with store := Function.update c.store key (some v) }) :
    OnSuccess (Chequebook.storePut env key v) c Q := by
  intro a c' hr
  rw [storePut_run] at hr
  split at hr <;> cases hr
  exact h ‹_›

theorem throw {e : InitError} {Q : α → Ctx → Prop} : OnSuccess (MonadExcept.throw e) c Q := by
  rintro _ _ ⟨⟩

theorem emit {e : Event} {Q : Unit → Ctx → Prop} (h : Q () { c with events := c.events ++ [e] }) :
    OnSuccess (Chequebook.emit e) c Q := by
  rintro _ _ ⟨⟩
  exact h

end OnSuccess

/-- An invocation that finds no chequebook stored and succeeds has stored the one
it returns, and has made and confirmed the deposit if there is one. -/
theorem init_deployed {env : Env} {d : Int} {c : Ctx} (h : c.store chequebookKey = none) :
    OnSuccess (init env d) c fun cb c' =>
      c'.store chequebookKey = some cb ∧ (d ≠ 0 → Event.deposited cb d ∈ c'.events) := by
  unfold init
  refine .bind (.check fun _ => ?_)
  refine .bind (.answer fun _ _ => ?_)
  refine .bind (.storeGet fun _ => ?_)
  rw [h]
  dsimp only
  refine .bind (.storeGet fun _ => ?_)
  split
  on_goal 2 =>
    split
    · exact .bind .throw
    refine .bind (.pure (.bind (.answer fun _ _ => .bind (.emit (.bind (.storePut fun _ => ?_))))))
  all_goals
    refine .bind (.pure (.bind (.answer fun cb _ => .bind (.storePut fun _ => .bind (.check fun _ => ?_)))))
    split
    · refine .bind (.answer fun _ _ => .bind (.check fun _ => .bind (.emit ?_)))
      exact .bind (.check fun _ => .pure ⟨by simp, fun _ => by simp⟩)
    · exact .bind (.pure (.bind (.check fun _ => .pure ⟨by simp, fun hd => absurd hd ‹_›⟩)))

/-! ## Deployments -/

/-- A reading that shows at least `swapInitialDeposit` IFI and the IFIE for 2000000
units of gas. -/
def Reading.Sufficient (swapInitialDeposit : Int) (x : Reading) : Prop :=
  ∃ erc20Balance ethBalance gasPrice, x.erc20Balance = .ok erc20Balance ∧
    x.ethBalance = .ok ethBalance ∧ x.gasPrice = .ok gasPrice ∧
    swapInitialDeposit ≤ erc20Balance ∧ gasPrice * 2000000 ≤ ethBalance

/-- `checkBalance` lets the deployment go ahead only after a sufficient reading. -/
theorem checkBalance_eq_none (d : Int) (rest : List Reading) :
    ∀ r, checkBalance d r rest = none → ∃ x ∈ r :: rest, x.Sufficient d := by
  induction rest with
  | nil =>
    rintro ⟨_ | erc, _ | eth, _ | gas⟩ h <;> rw [checkBalance] at h <;>
      simp only [Bool.or_eq_true, decide_eq_true_eq, reduceCtorEq] at h
    by_cases hlow : erc < d ∨ eth < gas * 2000000
    · simp [hlow] at h
    · exact ⟨_, List.mem_singleton_self _, _, _, _, rfl, rfl, rfl, by omega, by omega⟩
  | cons r' rest ih =>
    rintro ⟨_ | erc, _ | eth, _ | gas⟩ h <;> rw [checkBalance] at h <;>
      simp only [Bool.or_eq_true, decide_eq_true_eq, reduceCtorEq] at h
    by_cases hlow : erc < d ∨ eth < gas * 2000000
    · simp only [hlow, if_true] at h
      obtain ⟨x, hx, hs⟩ := ih r' h
      exact ⟨x, List.mem_cons_of_mem _ hx, hs⟩
    · exact ⟨_, List.mem_cons_self _ _, _, _, _, rfl, rfl, rfl, by omega, by omega⟩

/-- Every run of `x`, failed or not, keeps `P` of the events. -/
def EventsKeep {α : Type} (P : List Event → Prop) (x : InitM α) : Prop :=
  ∀ c, P c.events → P (x.run.run c).2.events

namespace EventsKeep

variable {α β : Type} {P : List Event → Prop}

theorem bind {x : InitM α} {f : α → InitM β} (hx : EventsKeep P x) (hf : ∀ a, EventsKeep P (f a)) :
    EventsKeep P (x >>= f) := by
  intro c hc
  have h := hx c hc
  rw [run_bind]
  rcases hr : x.run.run c with ⟨_ | a, c₁⟩ <;> rw [hr] at h
  · exact h
  · exact hf a c₁ h

theorem pure {a : α} : EventsKeep P (Pure.pure a) := fun _ hc => hc

theorem throw {e : InitError} : EventsKeep P (MonadExcept.throw e : InitM α) := fun _ hc => hc

theorem check {r : Option Nat} : EventsKeep P (Chequebook.check r) := by
  intro c hc
  cases r <;> exact hc

theorem answer {r : Except Nat α} : EventsKeep P (Chequebook.answer r) := by
  intro c hc
  cases r <;> exact hc

theorem storeGet {env : Env} {key : String} : EventsKeep P (Chequebook.storeGet env key) := by
  intro c hc
  rw [storeGet_run]
  exact hc

theorem storePut {env : Env} {key : String} {v : Nat} : EventsKeep P (Chequebook.storePut env key v) := by
  intro c hc
  rw [storePut_run]
  split <;> exact hc

theorem emit {e : Event} (h : ∀ evs, P evs → P (evs ++ [e])) : EventsKeep P (Chequebook.emit e) :=
  fun _ hc => h _ hc

theorem throw_bind {e : InitError} {f : α → InitM β} : EventsKeep P (MonadExcept.throw e >>= f) :=
  fun _ hc => hc

end EventsKeep

/-- Every `deployed` event of an invocation came after `checkBalance` let it through. -/
theorem init_deployed_events (env : Env) (d : Int) :
    EventsKeep (fun evs => ∀ tx, Event.deployed tx ∈ evs →
      checkBalance d env.balances.1 env.balances.2 = none) (init env d) := by
  have hdep : ∀ e : Event, (∀ tx, e ≠ .deployed tx) → ∀ evs : List Event,
      (∀ tx, Event.deployed tx ∈ evs → checkBalance d env.balances.1 env.balances.2 = none) →
        ∀ tx, Event.deployed tx ∈ evs ++ [e] → checkBalance d env.balances.1 env.balances.2 = none := by
    intro e he evs h tx hm
    rcases List.mem_append.1 hm with hm | hm
    · exact h tx hm
    · exact absurd (List.mem_singleton.1 hm).symm (he tx)
  unfold init
  refine .bind .check fun _ => .bind .answer fun _ => .bind .storeGet fun _ => ?_
  dsimp only
  split
  · exact .bind .check fun _ => .bind .check fun _ => .pure
  refine .bind .storeGet fun _ => ?_
  split
  on_goal 2 =>
    split
    · exact .throw_bind
    rename_i hcb
    refine .bind .pure fun _ => .bind .answer fun _ =>
      .bind (.emit fun evs h tx hm => ?_) fun _ => .bind .storePut fun _ => ?_
    · rcases List.mem_append.1 hm with hm | _
      · exact h tx hm
      · exact hcb
  all_goals
    refine .bind .pure fun _ => .bind .answer fun _ => .bind .storePut fun _ => .bind .check fun _ => ?_
    split
    · exact .bind .answer fun _ => .bind .check fun _ =>
        .bind (.emit (hdep _ fun _ => nofun)) fun _ => .bind .check fun _ => .pure
    · exact .bind .pure fun _ => .bind .check fun _ => .pure

/-- `Init` deploys a new chequebook only after a reading that showed enough IFI for
the deposit and enough IFIE for gas, whatever fails afterwards. -/
theorem init_deploys_funded {env : Env} {d : Int} {s : Store} {tx : Nat}
    (h : Event.deployed tx ∈ (env.run d s).2.events) :
    ∃ x ∈ env.balances.1 :: env.balances.2, x.Sufficient d :=
  checkBalance_eq_none d _ _ (init_deployed_events env d ⟨s, []⟩ (fun _ h => nomatch h) tx h)

/-- An invocation that deploys and then fails at the deposit has met a sufficient
reading before deploying. -/
theorem init_deploys_funded_failing :
    let env : Env := ⟨none, .ok 0, fun _ => none, (⟨.ok 1, .ok 0, .ok 0⟩, []), .ok 5, fun _ => .ok 42,
      fun _ => none, fun _ => none, .error 7, fun _ => none, fun _ => none⟩
    Event.deployed 5 ∈ (env.run 1 (fun _ => none)).2.events ∧
      ∃ x ∈ env.balances.1 :: env.balances.2, x.Sufficient 1 := by
  intro env
  have h : Event.deployed 5 ∈ (env.run 1 (fun _ => none)).2.events := by decide
  exact ⟨h, init_deploys_funded h⟩

/-! ## Invocations over one store -/

theorem run_stored {env : Env} {d : Int} {s : Store} {cb : Nat} (h : (env.run d s).1 = .ok cb) :
    (env.run d s).2.store chequebookKey = some cb := by
  cases hs : s chequebookKey with
  | none => exact (init_deployed hs _ _ (Prod.ext h rfl)).1
  | some a =>
    obtain ⟨hc, ha⟩ := init_found env d ⟨s, []⟩ hs
    rw [Env.run, hc, ha cb h]
    exact hs

theorem mem_initRuns {d : Int} {r : Store × Except InitError Nat × List Event} :
    ∀ {s : Store} {envs : List Env}, r ∈ initRuns d s envs →
      ∃ (env : Env) (s' : Store), r = (s', (env.run d s').1, (env.run d s').2.events)
  | _, [], h => nomatch h
  | s, env :: envs, h => by
    rcases List.mem_cons.1 h with rfl | h
    · exact ⟨env, s, rfl⟩
    · exact mem_initRuns h

theorem initRuns_deposit (d : Int) (s : Store) (envs : List Env) :
    ∀ r ∈ initRuns d s envs, ∀ cb, r.2.1 = .ok cb → d ≠ 0 →
      (r.1 chequebookKey = none ∧ Event.deposited cb d ∈ r.2.2) ∨
        (r.1 chequebookKey = some cb ∧ r.2.2 = []) := by
  intro r hr cb h hd
  obtain ⟨env, s', rfl⟩ := mem_initRuns hr
  cases hs : s' chequebookKey with
  | none => exact .inl ⟨hs, (init_deployed hs _ _ (Prod.ext h rfl)).2 hd⟩
  | some a =>
    obtain ⟨hc, ha⟩ := init_found env d ⟨s', []⟩ hs
    refine .inr ⟨?_, ?_⟩
    · rw [ha cb h]
      exact hs
    · simp only [Env.run, hc]

/-- A first invocation whose deposit goes through records it. -/
theorem initRuns_deposit_confirmed :
    let env : Env := ⟨none, .ok 0, fun _ => none, (⟨.ok 1, .ok 0, .ok 0⟩, []), .ok 5, fun _ => .ok 42,
      fun _ => none, fun _ => none, .ok 9, fun _ => none, fun _ => none⟩
    ∃ r ∈ initRuns 1 (fun _ => none) [env], r.2.1 = .ok 42 ∧
      ((r.1 chequebookKey = none ∧ Event.deposited 42 1 ∈ r.2.2) ∨
        (r.1 chequebookKey = some 42 ∧ r.2.2 = [])) := by
  intro env
  exact ⟨_, List.Mem.head _, rfl,
    initRuns_deposit 1 (fun _ => none) [env] _ (List.Mem.head _) 42 rfl (by decide)⟩

theorem initRuns_deposit_counterexample :
    let env : Env := ⟨none, .ok 0, fun _ => none, (⟨.ok 1, .ok 0, .ok 0⟩, []), .ok 5, fun _ => .ok 42,
      fun _ => none, fun _ => none, .error 7, fun _ => none, fun _ => none⟩
    let runs := initRuns 1 (fun _ => none) [env, env]
    runs.map (fun r => r.2.1.toOption) = [none, some 42] ∧
      runs.map (fun r => r.2.2) = [[.deployed 5], []] := by
  decide

/-- Once the chequebook's address is stored, it stays, and every invocation that
succeeds uses it. -/
theorem initRuns_stable {d : Int} {a : Nat} : ∀ {s : Store} (envs : List Env), s chequebookKey = some a →
    ∀ r ∈ initRuns d s envs, r.1 chequebookKey = some a ∧ ∀ cb, r.2.1 = .ok cb → cb = a
  | _, [], _, _, h => nomatch h
  | s, env :: envs, hs, r, hr => by
    have hf := init_found env d ⟨s, []⟩ hs
    rcases List.mem_cons.1 hr with rfl | hr
    · exact ⟨hs, hf.2⟩
    · have hs' : (env.run d s).2.store = s := congrArg Ctx.store hf.1
      exact initRuns_stable envs (hs'.symm ▸ hs) r hr

/-- Every invocation that succeeds uses the same chequebook. -/
theorem initRuns_agree (d : Int) : ∀ (s : Store) (envs : List Env),
    ∀ r ∈ initRuns d s envs, ∀ r' ∈ initRuns d s envs,
      ∀ cb cb', r.2.1 = .ok cb → r'.2.1 = .ok cb' → cb = cb'
  | _, [] => fun _ h => nomatch h
  | s, env :: envs => by
    intro r hr r' hr' cb cb' h h'
    have later : ∀ cb, (env.run d s).1 = .ok cb →
        ∀ r ∈ initRuns d (env.run d s).2.store envs, ∀ cb', r.2.1 = .ok cb' → cb' = cb :=
      fun cb h r hr => (initRuns_stable envs (run_stored h) r hr).2
    rcases List.mem_cons.1 hr with rfl | hr <;> rcases List.mem_cons.1 hr' with rfl | hr'
    · exact Except.ok.inj (h.symm.trans h')
    · exact (later cb h r' hr' cb' h').symm
    · exact later cb' h' r hr cb h
    · exact initRuns_agree d _ envs r hr r' hr' cb cb' h h'

/-- A node started twice: the first start deploys, the restart finds the address,
and both use the same chequebook. -/
theorem initRuns_agree_restart :
    let env : Env := ⟨none, .ok 0, fun _ => none, (⟨.ok 1, .ok 0, .ok 0⟩, []), .ok 5, fun _ => .ok 42,
      fun _ => none, fun _ => none, .ok 9, fun _ => none, fun _ => none⟩
    let runs := initRuns 1 (fun _ => none) [env, env]
    ∃ r ∈ runs, ∃ r' ∈ runs, r.1 chequebookKey = none ∧ r'.1 chequebookKey = some 42 ∧
      r.2.1 = .ok 42 ∧ r'.2.1 = .ok 42 ∧ (42 : Nat) = 42 := by
  intro env runs
  exact ⟨_, List.Mem.head _, _, List.Mem.tail _ (List.Mem.head _), rfl, rfl, rfl, rfl,
    initRuns_agree 1 (fun _ => none) [env, env] _ (List.Mem.head _) _
      (List.Mem.tail _ (List.Mem.head _)) 42 42 rfl rfl⟩

end Voyager.Chequebook
