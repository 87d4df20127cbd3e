import IntramindRuntime.Ledger.Rows
import Mathlib.Logic.Function.Basic
import Mathlib.Logic.Relation

/-!
# The abstract ledger

What the ledger is for, without its tables: budgets that attempts are charged to,
operations that are carried out by one attempt at a time, and compute that an
attempt holds at an engine until its inference is known to be over. The abstract
ledger changes by a small number of moves, and its invariants are proved once for
each move. `IntramindRuntime.Ledger.Refinement` shows that every method of the
store is a sequence of moves.

## Main definitions

* `Task`, `Book` — an operation, and the abstract ledger
* `Move`, `Path` — its labelled moves, and sequences of moves with allowed labels
* `Book.Accounted` — budgets equal what their attempts hold and have used
* `Book.Opened` — the state of an operation agrees with its open attempt
* `Book.Valid` — all invariants

## Main results

* `Move.valid`, `Path.valid` — every move keeps the invariants
* `Path.keeps_ended` — an ended attempt is never changed again
* `Path.keeps_compute` — compute is released only by a move that says so
* `Path.keeps_epochs`, `Path.current` — held compute and engine epochs
-/

namespace IntramindRuntime.Ledger

open Library

/-- What the ledger records about an operation. -/
structure Task where
  rootId : String
  spec : OperationSpec
  state : OperationState
  active : Option String

/-- The abstract ledger: the roots and whether they run, the budgets, the
operations, the attempts, and the engine epoch of each pool. -/
@[ext]
structure Book where
  running : String → Option Bool
  accounts : String → BudgetUnit → Option Budget
  tasks : String → Option Task
  attempts : Table AttemptRow
  epochs : String → Option String

/-- `a'` is a later version of the attempt `a`. -/
structure SameAttempt (a a' : AttemptRow) : Prop where
  attemptId : a'.attemptId = a.attemptId
  operationId : a'.operationId = a.operationId
  poolId : a'.poolId = a.poolId
  engineEpoch : a'.engineEpoch = a.engineEpoch
  budgetBound : a'.budgetBound = a.budgetBound
  budgetUnit : a'.budgetUnit = a.budgetUnit
  ownerId : a'.ownerId = a.ownerId
  leaseEpoch : a'.leaseEpoch = a.leaseEpoch

theorem SameAttempt.refl (a : AttemptRow) : SameAttempt a a :=
  ⟨rfl, rfl, rfl, rfl, rfl, rfl, rfl, rfl⟩

theorem SameAttempt.trans {a a' a'' : AttemptRow} (first : SameAttempt a a')
    (second : SameAttempt a' a'') : SameAttempt a a'' :=
  ⟨second.attemptId.trans first.attemptId, second.operationId.trans first.operationId,
    second.poolId.trans first.poolId, second.engineEpoch.trans first.engineEpoch,
    second.budgetBound.trans first.budgetBound, second.budgetUnit.trans first.budgetUnit,
    second.ownerId.trans first.ownerId, second.leaseEpoch.trans first.leaseEpoch⟩

namespace AttemptRow

/-- The attempt has not ended. -/
def isOpen (a : AttemptRow) : Prop := a.state.ended = false

/-- The claims an attempt makes fit its state: an open attempt is not settled,
only a sent attempt holds budget, and only one whose inference may be running
holds compute. -/
structure Consistent (a : AttemptRow) : Prop where
  unsettled : a.isOpen → a.usage = none
  budget : a.budgetHeld = true →
    a.state = .sendIntent ∨ a.state = .active ∨ a.state = .unknown ∨ a.state = .backendFinished
  compute : a.computeHeld = true →
    a.budgetHeld = true ∧ (a.state = .sendIntent ∨ a.state = .active ∨ a.state = .unknown)

theorem Consistent.open_of_budget {a : AttemptRow} (consistent : a.Consistent)
    (held : a.budgetHeld = true) : a.isOpen := by
  rcases consistent.budget held with state | state | state | state <;>
    simp [isOpen, state, AttemptState.ended]

/-- The attempt was never charged. -/
def Uncharged (a : AttemptRow) : Prop := a.budgetHeld = false ∧ a.usage = none

/-- A reserved attempt was never charged. -/
theorem Consistent.uncharged {a : AttemptRow} (consistent : a.Consistent)
    (reserved : a.state = .reserved) : a.Uncharged := by
  refine ⟨?_, consistent.unsettled (by simp [isOpen, reserved, AttemptState.ended])⟩
  cases held : a.budgetHeld with
  | false => rfl
  | true =>
    have state := consistent.budget held
    simp [reserved] at state

/-- What an attempt holds of its budget. -/
def held (a : AttemptRow) : ℤ := if a.budgetHeld then a.budgetBound else 0

/-- What an attempt was charged. -/
def used (a : AttemptRow) : ℤ := a.usage.getD 0

/-- By how much an attempt was charged more than its bound. -/
def excess (a : AttemptRow) : ℤ := (a.usage.map fun usage => max 0 (usage - a.budgetBound)).getD 0

end AttemptRow

namespace Book

/-- Record an operation. -/
@[simps]
def putTask (b : Book) (id : String) (task : Task) : Book :=
  { b with tasks := Function.update b.tasks id (some task) }

/-- Record an attempt. -/
@[simps]
def putAttempt (b : Book) (a : AttemptRow) : Book := { b with attempts := b.attempts.put a }

/-- Record a budget. -/
@[simps]
def putAccount (b : Book) (rootId : String) (unit : BudgetUnit) (account : Budget) : Book :=
  { b with accounts := fun r u => if r = rootId ∧ u = unit then some account else b.accounts r u }

/-- Record whether a root runs. -/
@[simps]
def setRunning (b : Book) (rootId : String) (running : Bool) : Book :=
  { b with running := Function.update b.running rootId (some running) }

/-- Record the engine epoch of a pool. -/
@[simps]
def setEpoch (b : Book) (poolId engineEpoch : String) : Book :=
  { b with epochs := Function.update b.epochs poolId (some engineEpoch) }

/-- The root fails if its budget is overspent. -/
def overspend (b : Book) (rootId : String) (account : Budget) : Book :=
  if account.limit < account.spent then b.setRunning rootId false else b

@[simp] theorem overspend_accounts (b : Book) (rootId : String) (account : Budget) :
    (b.overspend rootId account).accounts = b.accounts := by unfold overspend; split <;> rfl
@[simp] theorem overspend_tasks (b : Book) (rootId : String) (account : Budget) :
    (b.overspend rootId account).tasks = b.tasks := by unfold overspend; split <;> rfl
@[simp] theorem overspend_attempts (b : Book) (rootId : String) (account : Budget) :
    (b.overspend rootId account).attempts = b.attempts := by unfold overspend; split <;> rfl
@[simp] theorem overspend_epochs (b : Book) (rootId : String) (account : Budget) :
    (b.overspend rootId account).epochs = b.epochs := by unfold overspend; split <;> rfl

/-- The root that an attempt works for. -/
def rootOf (b : Book) (a : AttemptRow) : Option String := (b.tasks a.operationId).map Task.rootId

/-- The sum of a column over the attempts charged to a budget. -/
def total (b : Book) (rootId : String) (unit : BudgetUnit) (column : AttemptRow → ℤ) : ℤ :=
  b.attempts.total fun a => if b.rootOf a = some rootId ∧ a.budgetUnit = unit then column a else 0

end Book

/-- The budget after an attempt of bound `bound` was charged `usage`. -/
def Budget.settle (account : Budget) (bound usage : ℤ) : Budget :=
  { account with reserved := account.reserved - bound, spent := account.spent + usage }

/-- The budget after an attempt of bound `bound` was allowed to be sent. -/
def Budget.charge (account : Budget) (bound : ℤ) : Budget :=
  { account with reserved := account.reserved + bound }

/-- What may become of an operation when an attempt of it ends in a state: an operation
that has ended keeps its state, a committed result ends it, and nothing else lets it
succeed. -/
structure Task.Follows (task task' : Task) (ended : AttemptState) : Prop where
  kept : task.state.terminal = true → task'.state = task.state
  committed : ended = .resultCommitted → task'.state.terminal = true
  succeeded : task'.state = .succeeded → task.state = .succeeded ∨ ended = .resultCommitted

/-- What a move is allowed or forbidden by. -/
inductive Label
  | quiet
  | send (attemptId : String)
  | release (attemptId : String)
  | configure (poolId : String)

/-- The label of a move that turns the attempt `a` into `a'`. -/
def Label.of (a a' : AttemptRow) : Label :=
  if a.computeHeld && !a'.computeHeld then .release a.attemptId else .quiet

/-- The moves of the abstract ledger. -/
inductive Move : Label → Book → Book → Prop
  /-- A root is admitted with its tokens. -/
  | openRoot {b : Book} {rootId : String} {limit : ℤ} (fresh : b.running rootId = none)
      (positive : 0 < limit) :
      Move .quiet b ((b.setRunning rootId true).putAccount rootId .tokens ⟨limit, 0, 0⟩)
  /-- A root without operations gets a resource budget. -/
  | openBudget {b : Book} {rootId : String} {unit : Resource} {limit : ℤ}
      (unused : ∀ id task, b.tasks id = some task → task.rootId ≠ rootId)
      (positive : 0 < limit) :
      Move .quiet b (b.putAccount rootId (.resource unit) ⟨limit, 0, 0⟩)
  /-- A root ends. -/
  | endRoot {b : Book} {rootId : String} (known : b.running rootId ≠ none) :
      Move .quiet b (b.setRunning rootId false)
  /-- An operation is admitted. -/
  | openTask {b : Book} {id rootId : String} {spec : OperationSpec} (fresh : b.tasks id = none)
      (root : b.running rootId ≠ none) (named : spec.operationId = id)
      (rooted : spec.rootId = rootId) :
      Move .quiet b (b.putTask id ⟨rootId, spec, .ready, none⟩)
  /-- A pool is configured: to a new epoch only when nothing is held there. -/
  | configure {b : Book} {poolId engineEpoch : String}
      (free : b.epochs poolId = some engineEpoch ∨
        ∀ a ∈ b.attempts.rows, a.poolId = poolId → a.computeHeld = false) :
      Move (.configure poolId) b (b.setEpoch poolId engineEpoch)
  /-- An operation ends. -/
  | endTask {b : Book} {id : String} {task : Task} {state : OperationState}
      (found : b.tasks id = some task) (terminal : state.terminal = true)
      (pending : task.state.terminal = false) (failed : state ≠ .succeeded) :
      Move .quiet b (b.putTask id { task with state := state })
  /-- The attempt of an operation is out of sight. -/
  | reconcile {b : Book} {id : String} {task : Task} (found : b.tasks id = some task)
      (busy : task.state = .executing ∨ task.state = .reconciling) :
      Move .quiet b (b.putTask id { task with state := .reconciling })
  /-- An executor takes an operation. -/
  | reserve {b : Book} {task : Task} {a : AttemptRow} (found : b.tasks a.operationId = some task)
      (waiting : task.state.waiting = true) (fresh : b.attempts.find? a.attemptId = none)
      (state : a.state = .reserved) (compute : a.computeHeld = false)
      (budget : a.budgetHeld = false) (usage : a.usage = none)
      (bound : a.budgetBound = task.spec.budgetBound) (unit : a.budgetUnit = task.spec.budgetUnit)
      (epoch : b.epochs a.poolId = some a.engineEpoch) :
      Move .quiet b ((b.putAttempt a).putTask a.operationId
        { task with state := .executing, active := some a.attemptId })
  /-- An open attempt changes its state and stays open. It may give up its compute. -/
  | progress {b : Book} {a a' : AttemptRow} (found : b.attempts.find? a.attemptId = some a)
      (same : SameAttempt a a') (isOpen : a.isOpen) (isOpen' : a'.isOpen)
      (budget : a'.budgetHeld = a.budgetHeld) (usage : a'.usage = a.usage)
      (compute : a'.computeHeld = true → a.computeHeld = true) (consistent : a'.Consistent) :
      Move (Label.of a a') b (b.putAttempt a')
  /-- A reserved attempt is charged and may be sent. -/
  | send {b : Book} {a a' : AttemptRow} {task : Task} {account : Budget}
      (found : b.attempts.find? a.attemptId = some a) (same : SameAttempt a a')
      (task_found : b.tasks a.operationId = some task)
      (account_found : b.accounts task.rootId a.budgetUnit = some account)
      (reserved : a.state = .reserved) (budget : a.budgetHeld = false)
      (fits : account.spent + account.reserved + a.budgetBound ≤ account.limit)
      (state' : a'.state = .sendIntent) (compute' : a'.computeHeld = true)
      (budget' : a'.budgetHeld = true) (usage' : a'.usage = a.usage) :
      Move (.send a.attemptId) b ((b.putAttempt a').putAccount task.rootId a.budgetUnit
        (account.charge a.budgetBound))
  /-- An attempt that was not charged ends. -/
  | endUncharged {b : Book} {a a' : AttemptRow} {task task' : Task}
      (found : b.attempts.find? a.attemptId = some a) (same : SameAttempt a a')
      (isOpen : a.isOpen) (ended : a'.state.ended = true) (budget : a.budgetHeld = false)
      (compute' : a'.computeHeld = false) (budget' : a'.budgetHeld = false)
      (usage : a'.usage = a.usage) (task_found : b.tasks a.operationId = some task)
      (rootId : task'.rootId = task.rootId) (spec : task'.spec = task.spec)
      (decided : task'.state.terminal = true ∨ task'.state.waiting = true)
      (outcome : task.Follows task' a'.state) :
      Move (Label.of a a') b ((b.putAttempt a').putTask a.operationId task')
  /-- A charged attempt ends and its budget is settled. -/
  | endCharged {b : Book} {a a' : AttemptRow} {task task' : Task} {account : Budget} {usage : ℤ}
      (found : b.attempts.find? a.attemptId = some a) (same : SameAttempt a a')
      (ended : a'.state.ended = true) (budget : a.budgetHeld = true)
      (compute' : a'.computeHeld = false) (budget' : a'.budgetHeld = false)
      (usage' : a'.usage = some usage) (task_found : b.tasks a.operationId = some task)
      (account_found : b.accounts task.rootId a.budgetUnit = some account)
      (rootId : task'.rootId = task.rootId) (spec : task'.spec = task.spec)
      (decided : task'.state.terminal = true ∨ task'.state.waiting = true)
      (outcome : task.Follows task' a'.state) :
      Move (Label.of a a') b ((((b.putAttempt a').putTask a.operationId task').putAccount
        task.rootId a.budgetUnit (account.settle a.budgetBound usage)).overspend task.rootId
          (account.settle a.budgetBound usage))

/-! ### The invariants -/

/-- An operation in `EXECUTING` or `RECONCILING` has an open attempt, a waiting one
has none, and an open attempt is the active one. -/
structure Task.Agrees (task : Task) (id : String) (attempts : Table AttemptRow) : Prop where
  active : ∀ a ∈ attempts.rows, a.operationId = id → a.isOpen → task.active = some a.attemptId
  busy : task.state = .executing ∨ task.state = .reconciling →
    ∃ a ∈ attempts.rows, a.operationId = id ∧ a.isOpen
  waiting : task.state.waiting = true → ∀ a ∈ attempts.rows, a.operationId = id → ¬ a.isOpen

namespace Book

/-- Every reference between records has its target. -/
structure Linked (b : Book) : Prop where
  attempt : ∀ a ∈ b.attempts.rows, ∃ task, b.tasks a.operationId = some task ∧
    a.budgetBound = task.spec.budgetBound ∧ a.budgetUnit = task.spec.budgetUnit
  pool : ∀ a ∈ b.attempts.rows, b.epochs a.poolId ≠ none
  task : ∀ id task, b.tasks id = some task → b.running task.rootId ≠ none ∧
    task.spec.operationId = id ∧ task.spec.rootId = task.rootId

/-- Every operation agrees with its attempts. -/
def Opened (b : Book) : Prop := ∀ id task, b.tasks id = some task → task.Agrees id b.attempts

/-- Every budget equals what the attempts charged to it hold and have used. -/
structure Accounted (b : Book) : Prop where
  reserved : ∀ rootId unit account, b.accounts rootId unit = some account →
    account.reserved = b.total rootId unit AttemptRow.held
  spent : ∀ rootId unit account, b.accounts rootId unit = some account →
    account.spent = b.total rootId unit AttemptRow.used
  bounded : ∀ rootId unit account, b.accounts rootId unit = some account →
    account.reserved + account.spent ≤
      account.limit + b.total rootId unit AttemptRow.excess
  within : ∀ rootId unit account, b.accounts rootId unit = some account →
    b.running rootId = some true → account.spent ≤ account.limit
  backed : ∀ a ∈ b.attempts.rows, a.budgetHeld = true → ∀ task,
    b.tasks a.operationId = some task → b.accounts task.rootId a.budgetUnit ≠ none

/-- The invariants of the abstract ledger. -/
structure Valid (b : Book) : Prop where
  linked : b.Linked
  consistent : ∀ a ∈ b.attempts.rows, a.Consistent
  opened : b.Opened
  accounted : b.Accounted

/-- Held compute belongs to the current engine epoch of its pool. -/
def Current (b : Book) : Prop :=
  ∀ a ∈ b.attempts.rows, a.computeHeld = true → b.epochs a.poolId = some a.engineEpoch

end Book

/-! ### References -/

namespace Book.Linked

variable {b : Book}

theorem putAccount (linked : b.Linked) (rootId : String) (unit : BudgetUnit) (account : Budget) :
    (b.putAccount rootId unit account).Linked :=
  ⟨linked.attempt, linked.pool, linked.task⟩

theorem setRunning (linked : b.Linked) (rootId : String) (running : Bool) :
    (b.setRunning rootId running).Linked := by
  refine ⟨linked.attempt, linked.pool, fun id task found => ?_⟩
  obtain ⟨known, named⟩ := linked.task id task found
  refine ⟨?_, named⟩
  by_cases here : task.rootId = rootId
  · simp [here]
  · simpa [here] using known

theorem overspend (linked : b.Linked) (rootId : String) (account : Budget) :
    (b.overspend rootId account).Linked := by
  unfold Book.overspend
  split
  · exact linked.setRunning rootId false
  · exact linked

theorem setEpoch (linked : b.Linked) (poolId engineEpoch : String) :
    (b.setEpoch poolId engineEpoch).Linked := by
  refine ⟨linked.attempt, fun a member => ?_, linked.task⟩
  by_cases here : a.poolId = poolId
  · simp [here]
  · simpa [here] using linked.pool a member

theorem putTask (linked : b.Linked) {id : String} {task task' : Task}
    (found : b.tasks id = some task) (rootId : task'.rootId = task.rootId)
    (spec : task'.spec = task.spec) : (b.putTask id task').Linked := by
  refine ⟨fun a member => ?_, linked.pool, fun id' other found' => ?_⟩
  · obtain ⟨owner, known, charged⟩ := linked.attempt a member
    by_cases here : a.operationId = id
    · rw [here, found] at known
      cases known
      exact ⟨task', by simp [here], by rwa [spec]⟩
    · exact ⟨owner, by simpa [here] using known, charged⟩
  · by_cases here : id' = id
    · subst here
      rw [putTask_tasks, Function.update_self] at found'
      cases found'
      rw [putTask_running, rootId, spec]
      exact linked.task id' task found
    · rw [putTask_tasks, Function.update_of_ne here] at found'
      exact linked.task id' other found'

theorem putAttempt (linked : b.Linked) {a a' : AttemptRow}
    (found : b.attempts.find? a.attemptId = some a) (same : SameAttempt a a') :
    (b.putAttempt a').Linked := by
  have member := Table.mem_of_find? found
  refine ⟨fun x xMem => ?_, fun x xMem => ?_, linked.task⟩
  · rcases Table.mem_put_iff.mp xMem with rfl | ⟨old, -⟩
    · rw [same.operationId, same.budgetBound, same.budgetUnit]
      exact linked.attempt a member
    · exact linked.attempt x old
  · rcases Table.mem_put_iff.mp xMem with rfl | ⟨old, -⟩
    · rw [same.poolId]
      exact linked.pool a member
    · exact linked.pool x old

end Book.Linked

theorem Move.linked {label : Label} {b b' : Book} (move : Move label b b') (linked : b.Linked) :
    b'.Linked := by
  cases move with
  | openRoot fresh positive => exact (linked.setRunning _ _).putAccount _ _ _
  | openBudget unused positive => exact linked.putAccount _ _ _
  | endRoot known => exact linked.setRunning _ _
  | @openTask _ new rootId spec fresh root named rooted =>
    refine ⟨fun a member => ?_, linked.pool, fun id task found => ?_⟩
    · obtain ⟨owner, known, charged⟩ := linked.attempt a member
      have elsewhere : a.operationId ≠ new := fun h => by rw [h, fresh] at known; cases known
      exact ⟨owner, by simpa [elsewhere] using known, charged⟩
    · by_cases here : id = new
      · subst here
        rw [Book.putTask_tasks, Function.update_self] at found
        cases found
        exact ⟨root, named, rooted⟩
      · rw [Book.putTask_tasks, Function.update_of_ne here] at found
        exact linked.task id task found
  | configure free => exact linked.setEpoch _ _
  | endTask found terminal => exact linked.putTask found rfl rfl
  | reconcile found busy => exact linked.putTask found rfl rfl
  | @reserve _ task a found waiting fresh state compute budget usage bound unit epoch =>
    have grown : (b.putAttempt a).Linked := by
      refine ⟨fun x xMem => ?_, fun x xMem => ?_, linked.task⟩
      · rcases Table.mem_put_iff.mp xMem with rfl | ⟨old, -⟩
        · exact ⟨task, found, bound, unit⟩
        · exact linked.attempt x old
      · rcases Table.mem_put_iff.mp xMem with rfl | ⟨old, -⟩
        · simp [epoch]
        · exact linked.pool x old
    exact grown.putTask found rfl rfl
  | progress found same => exact linked.putAttempt found same
  | send found same => exact (linked.putAttempt found same).putAccount _ _ _
  | endUncharged found same isOpen ended budget compute' budget' usage task_found rootId spec =>
    exact (linked.putAttempt found same).putTask task_found rootId spec
  | endCharged found same ended budget compute' budget' usage' task_found account_found rootId
      spec =>
    exact (((linked.putAttempt found same).putTask task_found rootId spec).putAccount
      _ _ _).overspend _ _

/-! ### Attempts -/

theorem Move.consistent {label : Label} {b b' : Book} (move : Move label b b')
    (consistent : ∀ a ∈ b.attempts.rows, a.Consistent) :
    ∀ a ∈ b'.attempts.rows, a.Consistent := by
  have put : ∀ {a' : AttemptRow}, a'.Consistent →
      ∀ a ∈ (b.attempts.put a').rows, a.Consistent := by
    intro a' here a member
    rcases Table.mem_put_iff.mp member with rfl | ⟨old, -⟩
    · exact here
    · exact consistent a old
  cases move with
  | openRoot | openBudget | endRoot | openTask | configure | endTask | reconcile =>
    exact consistent
  | reserve found waiting fresh state compute budget usage =>
    exact put ⟨fun _ => usage, by simp [budget], by simp [compute]⟩
  | progress found same isOpen isOpen' budget usage compute here => exact put here
  | send found same task_found account_found reserved budget fits state' compute' budget' usage' =>
    have fresh := (consistent _ (Table.mem_of_find? found)).unsettled
      (by simp [AttemptRow.isOpen, reserved, AttemptState.ended])
    exact put ⟨fun _ => usage'.trans fresh, fun _ => Or.inl state',
      fun _ => ⟨budget', Or.inl state'⟩⟩
  | endUncharged found same isOpen ended budget compute' budget' =>
    exact put ⟨fun here => by simp [AttemptRow.isOpen, ended] at here, by simp [budget'],
      by simp [compute']⟩
  | endCharged found same ended budget compute' budget' =>
    rw [Book.overspend_attempts]
    exact put ⟨fun here => by simp [AttemptRow.isOpen, ended] at here, by simp [budget'],
      by simp [compute']⟩

/-! ### Operations and their open attempts -/

namespace Task.Agrees

variable {task task' : Task} {id : String} {attempts : Table AttemptRow} {a a' : AttemptRow}

/-- Two open attempts of one operation are the same attempt. -/
theorem unique (agrees : task.Agrees id attempts) (member : a ∈ attempts.rows)
    (member' : a' ∈ attempts.rows) (mine : a.operationId = id) (mine' : a'.operationId = id)
    (isOpen : a.isOpen) (isOpen' : a'.isOpen) : a' = a := by
  have first := agrees.active a member mine isOpen
  have second := agrees.active a' member' mine' isOpen'
  rw [first, Option.some.injEq] at second
  have found := Table.find?_of_mem member
  have found' := Table.find?_of_mem member'
  rw [key_attempt] at found found'
  rw [← second, found] at found'
  exact (Option.some.inj found').symm

/-- An attempt of another operation does not matter. -/
theorem elsewhere (agrees : task.Agrees id attempts) (different : a'.operationId ≠ id)
    (old : ∀ a, attempts.find? a'.attemptId = some a → a.operationId ≠ id) :
    task.Agrees id (attempts.put a') where
  active a member mine isOpen := by
    rcases Table.mem_put_iff.mp member with rfl | ⟨before, -⟩
    · exact (different mine).elim
    · exact agrees.active a before mine isOpen
  busy state := by
    obtain ⟨a, member, mine, isOpen⟩ := agrees.busy state
    refine ⟨a, Table.mem_put_iff.mpr (Or.inr ⟨member, fun same => ?_⟩), mine, isOpen⟩
    have found := Table.find?_of_mem member
    rw [← same] at found
    exact old a found mine
  waiting state a member mine := by
    rcases Table.mem_put_iff.mp member with rfl | ⟨before, -⟩
    · exact (different mine).elim
    · exact agrees.waiting state a before mine

/-- An open attempt stays open. -/
theorem progress (agrees : task.Agrees id attempts)
    (found : attempts.find? a.attemptId = some a) (same : SameAttempt a a') (isOpen : a.isOpen)
    (isOpen' : a'.isOpen) : task.Agrees id (attempts.put a') where
  active x member mine open_ := by
    rcases Table.mem_put_iff.mp member with rfl | ⟨before, -⟩
    · rw [same.attemptId]
      exact agrees.active a (Table.mem_of_find? found) (same.operationId ▸ mine) isOpen
    · exact agrees.active x before mine open_
  busy state := by
    obtain ⟨x, member, mine, open_⟩ := agrees.busy state
    by_cases here : a'.attemptId = x.attemptId
    · have found' := Table.find?_of_mem member
      rw [key_attempt, ← here, same.attemptId, found] at found'
      cases found'
      exact ⟨a', Table.mem_put_iff.mpr (Or.inl rfl), same.operationId.trans mine, isOpen'⟩
    · exact ⟨x, Table.mem_put_iff.mpr (Or.inr ⟨member, here⟩), mine, open_⟩
  waiting state x member mine := by
    rcases Table.mem_put_iff.mp member with rfl | ⟨before, -⟩
    · exact absurd isOpen (agrees.waiting state a (Table.mem_of_find? found)
        (same.operationId ▸ mine))
    · exact agrees.waiting state x before mine

/-- The open attempt ends, and the operation is decided. -/
theorem ended (agrees : task.Agrees id attempts) (found : attempts.find? a.attemptId = some a)
    (same : SameAttempt a a') (mine : a.operationId = id) (isOpen : a.isOpen)
    (ended : a'.state.ended = true)
    (decided : task'.state.terminal = true ∨ task'.state.waiting = true) :
    task'.Agrees id (attempts.put a') := by
  have closed : ∀ x ∈ (attempts.put a').rows, x.operationId = id → ¬ x.isOpen := by
    intro x member mine' open_
    rcases Table.mem_put_iff.mp member with rfl | ⟨before, different⟩
    · simp [AttemptRow.isOpen, ended] at open_
    · have := agrees.unique (Table.mem_of_find? found) before mine mine' isOpen open_
      rw [key_attempt, key_attempt, same.attemptId, this] at different
      exact different rfl
  refine ⟨fun x member mine open_ => (closed x member mine open_).elim, fun state => ?_,
    fun _ => closed⟩
  rcases decided with terminal | waiting <;> rcases state with state | state <;>
    simp_all [OperationState.terminal, OperationState.waiting]

/-- A waiting operation is taken by a new attempt. -/
theorem reserve (agrees : task.Agrees id attempts) (waiting : task.state.waiting = true)
    (mine : a.operationId = id) (isOpen : a.isOpen) :
    { task with state := .executing, active := some a.attemptId }.Agrees id (attempts.put a) where
  active x member mine' open_ := by
    rcases Table.mem_put_iff.mp member with rfl | ⟨before, -⟩
    · rfl
    · exact (agrees.waiting waiting x before mine' open_).elim
  busy _ := ⟨a, Table.mem_put_iff.mpr (Or.inl rfl), mine, isOpen⟩
  waiting state := by simp [OperationState.waiting] at state

end Task.Agrees

namespace Book.Opened

variable {b : Book}

theorem putTask (opened : b.Opened) {id : String} {task : Task}
    (agrees : task.Agrees id b.attempts) : (b.putTask id task).Opened := by
  intro id' other found
  by_cases here : id' = id
  · subst here
    rw [putTask_tasks, Function.update_self] at found
    cases found
    exact agrees
  · rw [putTask_tasks, Function.update_of_ne here] at found
    exact opened id' other found

/-- Writing an attempt and its operation: the other operations do not notice. -/
theorem putBoth (opened : b.Opened) {a' : AttemptRow} {task : Task}
    (agrees : task.Agrees a'.operationId (b.attempts.put a'))
    (old : ∀ a, b.attempts.find? a'.attemptId = some a → a.operationId = a'.operationId) :
    ((b.putAttempt a').putTask a'.operationId task).Opened := by
  intro id other found
  by_cases here : id = a'.operationId
  · subst here
    rw [putTask_tasks, Function.update_self] at found
    cases found
    exact agrees
  · rw [putTask_tasks, Function.update_of_ne here] at found
    exact (opened id other found).elsewhere (Ne.symm here)
      fun a found' => (old a found').trans_ne (Ne.symm here)

theorem putAttempt (opened : b.Opened) {a a' : AttemptRow}
    (found : b.attempts.find? a.attemptId = some a) (same : SameAttempt a a')
    (isOpen : a.isOpen) (isOpen' : a'.isOpen) : (b.putAttempt a').Opened :=
  fun id task known => (opened id task known).progress found same isOpen isOpen'

end Book.Opened

theorem Move.opened {label : Label} {b b' : Book} (move : Move label b b') (linked : b.Linked)
    (consistent : ∀ a ∈ b.attempts.rows, a.Consistent) (opened : b.Opened) : b'.Opened := by
  cases move with
  | openRoot | openBudget | endRoot | configure => exact opened
  | @openTask _ id rootId spec fresh =>
    have none : ∀ a ∈ b.attempts.rows, a.operationId ≠ id := by
      intro a member here
      obtain ⟨task, found, -⟩ := linked.attempt a member
      rw [here, fresh] at found
      cases found
    exact opened.putTask ⟨fun a member mine => (none a member mine).elim,
      fun state => by simp at state, fun _ a member mine => (none a member mine).elim⟩
  | @endTask _ id task state found terminal =>
    refine opened.putTask ⟨(opened id task found).active, fun busy => ?_, fun waiting => ?_⟩
    · rcases busy with rfl | rfl <;> cases terminal
    · cases state <;> simp_all [OperationState.terminal, OperationState.waiting]
  | @reconcile _ id task found busy =>
    exact opened.putTask ⟨(opened id task found).active,
      fun _ => (opened id task found).busy busy, fun waiting => by cases waiting⟩
  | @reserve _ task a found waiting fresh state =>
    refine opened.putBoth ((opened _ task found).reserve waiting rfl ?_) fun old known => ?_
    · simp [AttemptRow.isOpen, state, AttemptState.ended]
    · rw [fresh] at known
      cases known
  | progress found same isOpen isOpen' => exact opened.putAttempt found same isOpen isOpen'
  | send found same task_found account_found reserved budget fits state' =>
    refine opened.putAttempt found same ?_ ?_
    · simp [AttemptRow.isOpen, reserved, AttemptState.ended]
    · simp [AttemptRow.isOpen, state', AttemptState.ended]
  | endUncharged found same isOpen ended budget compute' budget' usage task_found rootId spec
      decided =>
    rw [← same.operationId]
    refine opened.putBoth ?_ fun old known => ?_
    · rw [same.operationId]
      exact (opened _ _ task_found).ended found same rfl isOpen ended decided
    · rw [same.attemptId, found] at known
      cases known
      exact same.operationId.symm
  | endCharged found same ended budget compute' budget' usage' task_found account_found rootId
      spec decided =>
    have isOpen := (consistent _ (Table.mem_of_find? found)).open_of_budget budget
    unfold Book.Opened
    rw [Book.overspend_tasks, Book.overspend_attempts, ← same.operationId]
    refine opened.putBoth ?_ fun old known => ?_
    · rw [same.operationId]
      exact (opened _ _ task_found).ended found same rfl isOpen ended decided
    · rw [same.attemptId, found] at known
      cases known
      exact same.operationId.symm

/-! ### Budgets -/

namespace Book

variable {b : Book} {rootId : String} {unit : BudgetUnit} {column : AttemptRow → ℤ}

@[simp] theorem total_putAccount (r : String) (u : BudgetUnit) (account : Budget) :
    (b.putAccount r u account).total rootId unit column = b.total rootId unit column := rfl

@[simp] theorem total_overspend (r : String) (account : Budget) :
    (b.overspend r account).total rootId unit column = b.total rootId unit column := by
  unfold overspend
  split <;> rfl

theorem rootOf_putTask {id : String} {task task' : Task} (found : b.tasks id = some task)
    (same : task'.rootId = task.rootId) (a : AttemptRow) :
    (b.putTask id task').rootOf a = b.rootOf a := by
  unfold rootOf
  by_cases here : a.operationId = id
  · simp [here, found, same]
  · simp [here]

theorem total_putTask {id : String} {task task' : Task} (found : b.tasks id = some task)
    (same : task'.rootId = task.rootId) :
    (b.putTask id task').total rootId unit column = b.total rootId unit column := by
  unfold total
  simp only [rootOf_putTask found same, putTask_attempts]

/-- No attempt is charged to a root without operations. -/
theorem total_of_unused (unused : ∀ id task, b.tasks id = some task → task.rootId ≠ rootId) :
    b.total rootId unit column = 0 := by
  refine Table.total_eq_zero fun a _ => if_neg ?_
  rintro ⟨root, -⟩
  obtain ⟨task, found, same⟩ := Option.map_eq_some_iff.mp root
  exact unused _ task found same

@[simp] theorem rootOf_putAttempt (a a' : AttemptRow) : (b.putAttempt a').rootOf a = b.rootOf a :=
  rfl

/-- A rewritten attempt changes the totals of its own budget only. -/
theorem total_putAttempt {a a' : AttemptRow} (found : b.attempts.find? a.attemptId = some a)
    (same : SameAttempt a a') :
    (b.putAttempt a').total rootId unit column = b.total rootId unit column +
      if b.rootOf a = some rootId ∧ a.budgetUnit = unit then column a' - column a else 0 := by
  have replaced : b.attempts.find? (Keyed.key a') = some a := by
    rw [key_attempt, same.attemptId, found]
  have root : b.rootOf a' = b.rootOf a := by
    unfold rootOf
    rw [same.operationId]
  change (b.attempts.put a').total _ = _
  rw [Table.total_put_of_found _ replaced]
  change b.total rootId unit column -
    (if b.rootOf a = some rootId ∧ a.budgetUnit = unit then column a else 0) + _ = _
  have home' : ((b.putAttempt a').rootOf a' = some rootId ∧ a'.budgetUnit = unit) ↔
      (b.rootOf a = some rootId ∧ a.budgetUnit = unit) := by
    rw [rootOf_putAttempt, root, same.budgetUnit]
  by_cases home : b.rootOf a = some rootId ∧ a.budgetUnit = unit
  · rw [if_pos home, if_pos (home'.mpr home), if_pos home]
    ring
  · rw [if_neg home, if_neg (mt home'.mp home), if_neg home]
    ring

/-- A new attempt adds to the totals of its own budget only. -/
theorem total_newAttempt {a : AttemptRow} (fresh : b.attempts.find? a.attemptId = none)
    (nothing : column a = 0) :
    (b.putAttempt a).total rootId unit column = b.total rootId unit column := by
  change (b.attempts.put a).total _ = _
  rw [Table.total_put_of_new _ fresh]
  change b.total rootId unit column + _ = _
  simp [nothing]

end Book

namespace Book.Accounted

variable {b : Book}

theorem setRunning (accounted : b.Accounted) (rootId : String) :
    (b.setRunning rootId false).Accounted where
  reserved := accounted.reserved
  spent := accounted.spent
  bounded := accounted.bounded
  backed := accounted.backed
  within r u account found running := by
    by_cases here : r = rootId
    · simp [here] at running
    · exact accounted.within r u account found (by simpa [here] using running)

/-- A budget of a root without operations starts empty. -/
theorem putEmpty (accounted : b.Accounted) {rootId : String} {unit : BudgetUnit} {limit : ℤ}
    (unused : ∀ id task, b.tasks id = some task → task.rootId ≠ rootId) (positive : 0 < limit) :
    (b.putAccount rootId unit ⟨limit, 0, 0⟩).Accounted where
  reserved r u account found := by
    by_cases here : r = rootId ∧ u = unit
    · obtain ⟨rfl, rfl⟩ := here
      cases (by simpa using found : _ = account)
      exact (total_of_unused unused).symm
    · exact accounted.reserved r u account (by simpa [here] using found)
  spent r u account found := by
    by_cases here : r = rootId ∧ u = unit
    · obtain ⟨rfl, rfl⟩ := here
      cases (by simpa using found : _ = account)
      exact (total_of_unused unused).symm
    · exact accounted.spent r u account (by simpa [here] using found)
  bounded r u account found := by
    by_cases here : r = rootId ∧ u = unit
    · obtain ⟨rfl, rfl⟩ := here
      cases (by simpa using found : _ = account)
      rw [total_putAccount, total_of_unused unused]
      simp only
      omega
    · exact accounted.bounded r u account (by simpa [here] using found)
  within r u account found running := by
    by_cases here : r = rootId ∧ u = unit
    · obtain ⟨rfl, rfl⟩ := here
      cases (by simpa using found : _ = account)
      exact positive.le
    · exact accounted.within r u account (by simpa [here] using found) running
  backed a member held task found := by
    by_cases here : task.rootId = rootId ∧ a.budgetUnit = unit
    · simp [here]
    · simpa [here] using accounted.backed a member held task found

theorem putTask (accounted : b.Accounted) {id : String} {task task' : Task}
    (found : b.tasks id = some task) (same : task'.rootId = task.rootId) :
    (b.putTask id task').Accounted where
  reserved r u account known := by
    rw [total_putTask found same]
    exact accounted.reserved r u account known
  spent r u account known := by
    rw [total_putTask found same]
    exact accounted.spent r u account known
  bounded r u account known := by
    rw [total_putTask found same]
    exact accounted.bounded r u account known
  within := accounted.within
  backed a member held other known := by
    by_cases here : a.operationId = id
    · rw [putTask_tasks, here, Function.update_self] at known
      cases known
      rw [same]
      exact accounted.backed a member held task (here ▸ found)
    · rw [putTask_tasks, Function.update_of_ne here] at known
      exact accounted.backed a member held other known

/-- An attempt is rewritten, and its budget with it. -/
theorem putCharged (accounted : b.Accounted) {a a' : AttemptRow} {task : Task}
    {account account' : Budget} (found : b.attempts.find? a.attemptId = some a)
    (same : SameAttempt a a') (task_found : b.tasks a.operationId = some task)
    (account_found : b.accounts task.rootId a.budgetUnit = some account)
    (reserved : account'.reserved = account.reserved + (a'.held - a.held))
    (spent : account'.spent = account.spent + (a'.used - a.used))
    (bounded : account'.reserved + account'.spent ≤
      account'.limit + (b.total task.rootId a.budgetUnit AttemptRow.excess +
        (a'.excess - a.excess)))
    (within : b.running task.rootId = some true → account'.spent ≤ account'.limit) :
    ((b.putAttempt a').putAccount task.rootId a.budgetUnit account').Accounted := by
  have root : b.rootOf a = some task.rootId := by simp [rootOf, task_found]
  have home : ∀ r u, (b.rootOf a = some r ∧ a.budgetUnit = u) ↔
      (r = task.rootId ∧ u = a.budgetUnit) := by
    intro r u
    rw [root, Option.some.injEq, eq_comm, eq_comm (a := a.budgetUnit)]
  constructor
  · intro r u other known
    rw [total_putAccount, total_putAttempt found same]
    by_cases here : r = task.rootId ∧ u = a.budgetUnit
    · obtain ⟨rfl, rfl⟩ := here
      cases (by simpa using known : _ = other)
      rw [if_pos ((home _ _).mpr ⟨rfl, rfl⟩), reserved, accounted.reserved _ _ _ account_found]
    · rw [if_neg (mt (home r u).mp here), add_zero]
      exact accounted.reserved r u other (by simpa [here] using known)
  · intro r u other known
    rw [total_putAccount, total_putAttempt found same]
    by_cases here : r = task.rootId ∧ u = a.budgetUnit
    · obtain ⟨rfl, rfl⟩ := here
      cases (by simpa using known : _ = other)
      rw [if_pos ((home _ _).mpr ⟨rfl, rfl⟩), spent, accounted.spent _ _ _ account_found]
    · rw [if_neg (mt (home r u).mp here), add_zero]
      exact accounted.spent r u other (by simpa [here] using known)
  · intro r u other known
    rw [total_putAccount, total_putAttempt found same]
    by_cases here : r = task.rootId ∧ u = a.budgetUnit
    · obtain ⟨rfl, rfl⟩ := here
      cases (by simpa using known : _ = other)
      rw [if_pos ((home _ _).mpr ⟨rfl, rfl⟩)]
      exact bounded
    · rw [if_neg (mt (home r u).mp here), add_zero]
      exact accounted.bounded r u other (by simpa [here] using known)
  · intro r u other known running
    by_cases here : r = task.rootId ∧ u = a.budgetUnit
    · obtain ⟨rfl, rfl⟩ := here
      cases (by simpa using known : _ = other)
      exact within running
    · exact accounted.within r u other (by simpa [here] using known) running
  · intro x member held other known
    by_cases here : other.rootId = task.rootId ∧ x.budgetUnit = a.budgetUnit
    · simp [here]
    · rcases Table.mem_put_iff.mp member with rfl | ⟨before, -⟩
      · change b.tasks _ = _ at known
        rw [same.operationId, task_found] at known
        cases known
        exact (here ⟨rfl, same.budgetUnit⟩).elim
      · simpa [here] using accounted.backed x before held other known

/-- An attempt is rewritten in columns that no budget counts. -/
theorem putAttempt (accounted : b.Accounted) {a a' : AttemptRow}
    (found : b.attempts.find? a.attemptId = some a) (same : SameAttempt a a')
    (budget : a'.budgetHeld = a.budgetHeld) (usage : a'.usage = a.usage) :
    (b.putAttempt a').Accounted := by
  have unchanged : ∀ r u column, column a' = column a →
      (b.putAttempt a').total r u column = b.total r u column := by
    intro r u column equal
    rw [total_putAttempt found same, equal]
    simp
  have held : a'.held = a.held := by simp [AttemptRow.held, budget, same.budgetBound]
  have used : a'.used = a.used := by simp [AttemptRow.used, usage]
  have excess : a'.excess = a.excess := by simp [AttemptRow.excess, usage, same.budgetBound]
  constructor
  · intro r u account known
    rw [unchanged r u _ held]
    exact accounted.reserved r u account known
  · intro r u account known
    rw [unchanged r u _ used]
    exact accounted.spent r u account known
  · intro r u account known
    rw [unchanged r u _ excess]
    exact accounted.bounded r u account known
  · exact accounted.within
  · intro x member held' task known
    rcases Table.mem_put_iff.mp member with rfl | ⟨before, -⟩
    · rw [same.budgetUnit]
      rw [same.operationId] at known
      exact accounted.backed a (Table.mem_of_find? found) (budget ▸ held') task known
    · exact accounted.backed x before held' task known

end Book.Accounted

theorem Move.accounted {label : Label} {b b' : Book} (move : Move label b b') (linked : b.Linked)
    (consistent : ∀ a ∈ b.attempts.rows, a.Consistent) (accounted : b.Accounted) :
    b'.Accounted := by
  cases move with
  | @openRoot _ rootId limit fresh positive =>
    have unused : ∀ id task, b.tasks id = some task → task.rootId ≠ rootId := by
      intro id task found same
      exact (linked.task id task found).1 (same ▸ fresh)
    have empty : (b.putAccount rootId .tokens ⟨limit, 0, 0⟩).Accounted :=
      accounted.putEmpty unused positive
    refine ⟨empty.reserved, empty.spent, empty.bounded, fun r u account found running => ?_,
      empty.backed⟩
    by_cases here : r = rootId
    · by_cases tokens : u = .tokens
      · cases (by simpa [here, tokens] using found : _ = account)
        exact positive.le
      · subst here
        have known : b.accounts r u = some account := by simpa [tokens] using found
        rw [accounted.spent r u account known, Book.total_of_unused unused]
        have := accounted.bounded r u account known
        rw [accounted.spent r u account known, accounted.reserved r u account known,
          Book.total_of_unused unused, Book.total_of_unused unused,
          Book.total_of_unused unused] at this
        omega
    · exact empty.within r u account found (by simpa [here] using running)
  | openBudget unused positive => exact accounted.putEmpty unused positive
  | endRoot known => exact accounted.setRunning _
  | @openTask _ id rootId spec fresh =>
    have elsewhere : ∀ a ∈ b.attempts.rows, a.operationId ≠ id := by
      intro a member here
      obtain ⟨task, found, -⟩ := linked.attempt a member
      rw [here, fresh] at found
      cases found
    have unchanged : ∀ r u column, (b.putTask id ⟨rootId, spec, .ready, none⟩).total r u column =
        b.total r u column := by
      intro r u column
      refine Table.total_congr fun a member => ?_
      have root : (b.putTask id ⟨rootId, spec, .ready, none⟩).rootOf a = b.rootOf a := by
        unfold Book.rootOf
        rw [Book.putTask_tasks, Function.update_of_ne (elsewhere a member)]
      simp only [root]
    constructor
    · intro r u account found
      rw [unchanged]
      exact accounted.reserved r u account found
    · intro r u account found
      rw [unchanged]
      exact accounted.spent r u account found
    · intro r u account found
      rw [unchanged]
      exact accounted.bounded r u account found
    · exact accounted.within
    · intro a member held task found
      rw [Book.putTask_tasks, Function.update_of_ne (elsewhere a member)] at found
      exact accounted.backed a member held task found
  | configure free => exact ⟨accounted.reserved, accounted.spent, accounted.bounded,
      accounted.within, accounted.backed⟩
  | endTask found terminal => exact accounted.putTask found rfl
  | reconcile found busy => exact accounted.putTask found rfl
  | @reserve _ task a found waiting fresh state compute budget usage =>
    have unchanged : ∀ r u column, column a = 0 →
        (b.putAttempt a).total r u column = b.total r u column :=
      fun r u column nothing => Book.total_newAttempt fresh nothing
    have grown : (b.putAttempt a).Accounted := by
      constructor
      · intro r u account known
        rw [unchanged r u _ (by simp [AttemptRow.held, budget])]
        exact accounted.reserved r u account known
      · intro r u account known
        rw [unchanged r u _ (by simp [AttemptRow.used, usage])]
        exact accounted.spent r u account known
      · intro r u account known
        rw [unchanged r u _ (by simp [AttemptRow.excess, usage])]
        exact accounted.bounded r u account known
      · exact accounted.within
      · intro x member held other known
        rcases Table.mem_put_iff.mp member with rfl | ⟨before, -⟩
        · simp [budget] at held
        · exact accounted.backed x before held other known
    exact grown.putTask found rfl
  | progress found same isOpen isOpen' budget usage =>
    exact accounted.putAttempt found same budget usage
  | @send _ a a' task account found same task_found account_found reserved budget fits state'
      compute' budget' usage' =>
    have isOpen : a.isOpen := by simp [AttemptRow.isOpen, reserved, AttemptState.ended]
    have usage := (consistent a (Table.mem_of_find? found)).unsettled isOpen
    refine accounted.putCharged found same task_found account_found ?_ ?_ ?_ ?_
    · simp [Budget.charge, AttemptRow.held, budget, budget', same.budgetBound]
    · simp [Budget.charge, AttemptRow.used, usage']
    · have excess : 0 ≤ b.total task.rootId a.budgetUnit AttemptRow.excess := by
        refine Table.total_nonneg fun x _ => ?_
        split
        · unfold AttemptRow.excess
          cases x.usage <;> simp
        · rfl
      simp only [Budget.charge, AttemptRow.excess, usage', usage]
      simp only [Option.map_none, Option.getD_none]
      omega
    · exact accounted.within _ _ account account_found
  | endUncharged found same isOpen ended budget compute' budget' usage task_found rootId =>
    exact (accounted.putAttempt found same (budget'.trans budget.symm) usage).putTask task_found
      rootId
  | @endCharged _ a a' task task' account usage found same ended budget compute' budget' usage'
      task_found account_found rootId spec decided =>
    have unsettled := (consistent a (Table.mem_of_find? found)).unsettled
      ((consistent a (Table.mem_of_find? found)).open_of_budget budget)
    have settled : (((b.overspend task.rootId (account.settle a.budgetBound usage)).putAttempt
        a').putAccount task.rootId a.budgetUnit (account.settle a.budgetBound usage)).Accounted := by
      have before : (b.overspend task.rootId (account.settle a.budgetBound usage)).Accounted := by
        unfold Book.overspend
        split
        · exact accounted.setRunning _
        · exact accounted
      refine before.putCharged (a := a) (by simpa using found) same (by simpa using task_found)
        (by simpa using account_found) ?_ ?_ ?_ ?_
      · simp [Budget.settle, AttemptRow.held, budget, budget', sub_eq_add_neg]
      · simp [Budget.settle, AttemptRow.used, usage', unsettled]
      · have := accounted.bounded _ _ account account_found
        simp only [Book.total_overspend, Budget.settle, AttemptRow.excess, usage', unsettled,
          same.budgetBound, Option.map_some, Option.map_none, Option.getD_some,
          Option.getD_none] at this ⊢
        omega
      · intro running
        unfold Book.overspend at running
        split at running
        · simp at running
        · next within => exact not_lt.mp within
    have task_found' : (((b.overspend task.rootId (account.settle a.budgetBound usage)).putAttempt
        a').putAccount task.rootId a.budgetUnit (account.settle a.budgetBound usage)).tasks
          a.operationId = some task := by simpa using task_found
    have done := settled.putTask task_found' rootId
    by_cases isOver : (account.settle a.budgetBound usage).limit <
        (account.settle a.budgetBound usage).spent
    · simp only [Book.overspend, isOver, if_true] at done ⊢
      exact done
    · simp only [Book.overspend, isOver, if_false] at done ⊢
      exact done

/-! ### Moves and sequences of moves -/

theorem Move.valid {label : Label} {b b' : Book} (move : Move label b b') (valid : b.Valid) :
    b'.Valid where
  linked := move.linked valid.linked
  consistent := move.consistent valid.consistent
  opened := move.opened valid.linked valid.consistent valid.opened
  accounted := move.accounted valid.linked valid.consistent valid.accounted

/-- What a move can do to the attempts: nothing, add a reserved one, or rewrite an
open one. Only a `send` gives compute, and only a `release` takes it. -/
theorem Move.attempts {label : Label} {b b' : Book} (move : Move label b b')
    (consistent : ∀ a ∈ b.attempts.rows, a.Consistent) :
    b'.attempts = b.attempts ∨
    (∃ a, b.attempts.find? a.attemptId = none ∧ a.computeHeld = false ∧
      b'.attempts = b.attempts.put a) ∨
    (∃ a a', b.attempts.find? a.attemptId = some a ∧ SameAttempt a a' ∧ a.isOpen ∧
      b'.attempts = b.attempts.put a' ∧
      (label = .send a.attemptId ∧ a'.computeHeld = true ∨
        label = Label.of a a' ∧ (a'.computeHeld = true → a.computeHeld = true))) := by
  cases move with
  | openRoot | openBudget | endRoot | openTask | configure | endTask | reconcile =>
    exact Or.inl rfl
  | reserve found waiting fresh state compute => exact Or.inr (Or.inl ⟨_, fresh, compute, rfl⟩)
  | progress found same isOpen isOpen' budget usage compute =>
    exact Or.inr (Or.inr ⟨_, _, found, same, isOpen, rfl, Or.inr ⟨rfl, compute⟩⟩)
  | send found same task_found account_found reserved budget fits state' compute' =>
    refine Or.inr (Or.inr ⟨_, _, found, same, ?_, rfl, Or.inl ⟨rfl, compute'⟩⟩)
    simp [AttemptRow.isOpen, reserved, AttemptState.ended]
  | endUncharged found same isOpen ended budget compute' =>
    exact Or.inr (Or.inr ⟨_, _, found, same, isOpen, rfl, Or.inr ⟨rfl, by simp [compute']⟩⟩)
  | endCharged found same ended budget compute' =>
    exact Or.inr (Or.inr ⟨_, _, found, same,
      (consistent _ (Table.mem_of_find? found)).open_of_budget budget,
      Book.overspend_attempts .., Or.inr ⟨rfl, by simp [compute']⟩⟩)

/-- Only a send charges an attempt that was never charged. -/
theorem Move.keeps_uncharged {label : Label} {b b' : Book} (move : Move label b b') {id : String}
    (unsent : label ≠ .send id)
    (before : ∀ a, b.attempts.find? id = some a → a.Uncharged) :
    ∀ a, b'.attempts.find? id = some a → a.Uncharged := by
  have written : ∀ {x : AttemptRow}, (x.attemptId = id → x.Uncharged) →
      ∀ a, (b.attempts.put x).find? id = some a → a.Uncharged := by
    intro x here a found
    rw [Table.find?_put] at found
    split at found
    · next named =>
      cases found
      exact here named
    · exact before a found
  cases move with
  | openRoot | openBudget | endRoot | openTask | configure | endTask | reconcile => exact before
  | reserve found waiting fresh state compute budget usage => exact written fun _ => ⟨budget, usage⟩
  | @progress _ a a' found same isOpen isOpen' budget usage =>
    refine written fun named => ?_
    have known := before a (named ▸ same.attemptId.symm ▸ found)
    exact ⟨budget.trans known.1, usage.trans known.2⟩
  | send found same =>
    exact written fun named => (unsent (congrArg Label.send (same.attemptId.symm.trans named))).elim
  | @endUncharged _ a a' _ _ found same isOpen ended budget compute' budget' usage =>
    refine written fun named => ⟨budget', usage.trans ?_⟩
    exact (before a (named ▸ same.attemptId.symm ▸ found)).2
  | @endCharged _ a a' _ _ _ _ found same ended budget =>
    rw [Book.overspend_attempts]
    refine written fun named => ?_
    have known := (before a (named ▸ same.attemptId.symm ▸ found)).1
    rw [budget] at known
    cases known

/-- What a move can do to the operations: nothing, or record one, which keeps its
root and its specification. -/
theorem Move.tasks {label : Label} {b b' : Book} (move : Move label b b') :
    b'.tasks = b.tasks ∨ ∃ id new, b'.tasks = Function.update b.tasks id (some new) ∧
      ∀ old, b.tasks id = some old → new.rootId = old.rootId ∧ new.spec = old.spec := by
  have known : ∀ {id : String} {task new : Task}, b.tasks id = some task →
      new.rootId = task.rootId → new.spec = task.spec →
      ∀ old, b.tasks id = some old → new.rootId = old.rootId ∧ new.spec = old.spec := by
    rintro id task new found rootId spec old found'
    rw [found, Option.some.injEq] at found'
    exact found' ▸ ⟨rootId, spec⟩
  cases move with
  | openRoot | openBudget | endRoot | configure | progress | send => exact Or.inl rfl
  | openTask fresh => exact Or.inr ⟨_, _, rfl, by simp [fresh]⟩
  | endTask found | reconcile found | reserve found =>
    exact Or.inr ⟨_, _, rfl, known found rfl rfl⟩
  | endUncharged found same isOpen ended budget compute' budget' usage task_found rootId spec =>
    exact Or.inr ⟨_, _, rfl, known task_found rootId spec⟩
  | endCharged found same ended budget compute' budget' usage' task_found account_found rootId spec =>
    exact Or.inr ⟨_, _, Book.overspend_tasks .., known task_found rootId spec⟩

/-- Sequences of moves whose labels are all allowed. -/
def Path (allowed : Label → Prop) : Book → Book → Prop :=
  Relation.ReflTransGen fun b b' => ∃ label, allowed label ∧ Move label b b'

namespace Path

variable {allowed allowed' : Label → Prop} {b b' b'' : Book} {a a' : AttemptRow}

theorem refl (b : Book) : Path allowed b b := Relation.ReflTransGen.refl

theorem trans (first : Path allowed b b') (second : Path allowed b' b'') :
    Path allowed b b'' :=
  Relation.ReflTransGen.trans first second

theorem single {label : Label} (ok : allowed label) (move : Move label b b') :
    Path allowed b b' :=
  Relation.ReflTransGen.single ⟨label, ok, move⟩

theorem mono (weaker : ∀ label, allowed label → allowed' label) (path : Path allowed b b') :
    Path allowed' b b' := by
  induction path with
  | refl => exact refl b
  | tail _ step ih =>
    obtain ⟨label, ok, move⟩ := step
    exact ih.trans (single (weaker label ok) move)

/-- Every path keeps the invariants. -/
theorem valid (path : Path allowed b b') (valid : b.Valid) : b'.Valid := by
  induction path with
  | refl => exact valid
  | tail _ step ih =>
    obtain ⟨label, -, move⟩ := step
    exact move.valid ih

/-- An operation keeps its root and its specification. -/
theorem keeps_task (path : Path allowed b b') {id : String} {task : Task}
    (found : b.tasks id = some task) :
    ∃ task', b'.tasks id = some task' ∧ task'.rootId = task.rootId ∧ task'.spec = task.spec := by
  induction path with
  | refl => exact ⟨task, found, rfl, rfl⟩
  | tail path step ih =>
    obtain ⟨label, -, move⟩ := step
    obtain ⟨task', found', rootId, spec⟩ := ih
    rcases move.tasks with same | ⟨other, new, put, known⟩
    · exact ⟨task', by rw [same, found'], rootId, spec⟩
    · by_cases here : id = other
      · subst here
        obtain ⟨rootId', spec'⟩ := known task' found'
        exact ⟨new, by rw [put, Function.update_self], rootId'.trans rootId, spec'.trans spec⟩
      · exact ⟨task', by rw [put, Function.update_of_ne here, found'], rootId, spec⟩

/-- No budget disappears. -/
theorem keeps_account (path : Path allowed b b') {rootId : String} {unit : BudgetUnit}
    {account : Budget} (known : b.accounts rootId unit = some account) :
    ∃ account', b'.accounts rootId unit = some account' := by
  induction path with
  | refl => exact ⟨account, known⟩
  | tail _ step ih =>
    obtain ⟨label, -, move⟩ := step
    obtain ⟨account', known'⟩ := ih
    have put : ∀ (b : Book) r u new, b.accounts rootId unit = some account' →
        ∃ account'', (b.putAccount r u new).accounts rootId unit = some account'' := by
      intro b r u new known
      by_cases here : rootId = r ∧ unit = u
      · exact ⟨new, by simp [here]⟩
      · exact ⟨account', by simpa [here] using known⟩
    cases move with
    | endRoot | openTask | configure | endTask | reconcile | reserve | progress | endUncharged =>
      exact ⟨account', known'⟩
    | openRoot => exact put (Book.setRunning _ _ true) _ _ _ known'
    | openBudget => exact put _ _ _ _ known'
    | send => exact put (Book.putAttempt _ _) _ _ _ known'
    | endCharged =>
      rw [Book.overspend_accounts]
      exact put (Book.putTask (Book.putAttempt _ _) _ _) _ _ _ known'

/-- An ended attempt is never changed again. -/
theorem keeps_ended (path : Path allowed b b') (valid : b.Valid)
    (member : a ∈ b.attempts.rows) (ended : a.state.ended = true) : a ∈ b'.attempts.rows := by
  induction path with
  | refl => exact member
  | tail path step ih =>
    obtain ⟨label, -, move⟩ := step
    rcases move.attempts (Path.valid path valid).consistent with
      same | ⟨new, fresh, -, added⟩ | ⟨old, new, found, same, isOpen, put, -⟩
    · rwa [same]
    · rw [added]
      refine Table.mem_put_iff.mpr (Or.inr ⟨ih, fun here => ?_⟩)
      have found := Table.find?_of_mem ih
      rw [← here, key_attempt, fresh] at found
      cases found
    · rw [put]
      refine Table.mem_put_iff.mpr (Or.inr ⟨ih, fun here => ?_⟩)
      have found' := Table.find?_of_mem ih
      rw [← here, key_attempt, same.attemptId, found] at found'
      cases found'
      simp [AttemptRow.isOpen, ended] at isOpen

/-- No attempt disappears, and its compute is released only by a move that is
labelled so. -/
theorem keeps_compute (path : Path allowed b b') (valid : b.Valid)
    (member : a ∈ b.attempts.rows) :
    ∃ a' ∈ b'.attempts.rows, SameAttempt a a' ∧
      (a.computeHeld = true → a'.computeHeld = true ∨ allowed (.release a.attemptId)) := by
  induction path with
  | refl => exact ⟨a, member, .refl a, Or.inl⟩
  | tail path step ih =>
    obtain ⟨label, ok, move⟩ := step
    obtain ⟨x, xMem, same, kept⟩ := ih
    rcases move.attempts (Path.valid path valid).consistent with
      equal | ⟨new, fresh, -, added⟩ | ⟨old, new, found, same', -, put, labelled⟩
    · exact ⟨x, by rwa [equal], same, kept⟩
    · refine ⟨x, ?_, same, kept⟩
      rw [added]
      refine Table.mem_put_iff.mpr (Or.inr ⟨xMem, fun here => ?_⟩)
      have found := Table.find?_of_mem xMem
      rw [← here, key_attempt, fresh] at found
      cases found
    · rw [put]
      by_cases here : new.attemptId = x.attemptId
      · have found' := Table.find?_of_mem xMem
        rw [key_attempt, ← here, same'.attemptId, found] at found'
        cases found'
        refine ⟨new, Table.mem_put_iff.mpr (Or.inl rfl), same.trans same', fun held => ?_⟩
        rcases kept held with still | released
        · rcases labelled with ⟨-, compute⟩ | ⟨rfl, -⟩
          · exact Or.inl compute
          · by_cases lost : new.computeHeld = true
            · exact Or.inl lost
            · have label : Label.of x new = .release a.attemptId := by
                simp [Label.of, still, lost, same.attemptId]
              exact Or.inr (label ▸ ok)
        · exact Or.inr released
      · exact ⟨x, Table.mem_put_iff.mpr (Or.inr ⟨xMem, here⟩), same, kept⟩

/-- An attempt that is not sent stays uncharged. -/
theorem keeps_uncharged (path : Path allowed b b') {id : String} (unsent : ¬ allowed (.send id))
    (before : ∀ a, b.attempts.find? id = some a → a.Uncharged) :
    ∀ a, b'.attempts.find? id = some a → a.Uncharged := by
  induction path with
  | refl => exact before
  | tail _ step ih =>
    obtain ⟨label, ok, move⟩ := step
    exact move.keeps_uncharged (fun here => unsent (here ▸ ok)) ih

/-- Every attempt that holds compute held it before, or a move labelled so has
given it. -/
theorem compute_origin (path : Path allowed b b') (valid : b.Valid)
    (member : a' ∈ b'.attempts.rows) (held : a'.computeHeld = true) :
    allowed (.send a'.attemptId) ∨
      ∃ a ∈ b.attempts.rows, SameAttempt a a' ∧ a.computeHeld = true := by
  induction path generalizing a' with
  | refl => exact Or.inr ⟨a', member, .refl a', held⟩
  | tail path step ih =>
    obtain ⟨label, ok, move⟩ := step
    rcases move.attempts (Path.valid path valid).consistent with
      equal | ⟨new, -, compute, added⟩ | ⟨old, new, found, same, -, put, labelled⟩
    · exact ih (by rwa [← equal]) held
    · rw [added] at member
      rcases Table.mem_put_iff.mp member with rfl | ⟨before, -⟩
      · simp [compute] at held
      · exact ih before held
    · rw [put] at member
      rcases Table.mem_put_iff.mp member with rfl | ⟨before, -⟩
      · rcases labelled with ⟨rfl, -⟩ | ⟨-, compute⟩
        · exact Or.inl (same.attemptId ▸ ok)
        · rcases ih (Table.mem_of_find? found) (compute held) with sent | ⟨a, aMem, same', was⟩
          · exact Or.inl (same.attemptId ▸ sent)
          · exact Or.inr ⟨a, aMem, same'.trans same, was⟩
      · exact ih before held

/-- Without a configuration every pool keeps its engine epoch. -/
theorem keeps_epochs (path : Path allowed b b')
    (unconfigured : ∀ poolId, ¬ allowed (.configure poolId)) : b'.epochs = b.epochs := by
  induction path with
  | refl => rfl
  | tail path step ih =>
    obtain ⟨label, ok, move⟩ := step
    rw [← ih]
    cases move with
    | configure free => exact (unconfigured _ ok).elim
    | endCharged => exact Book.overspend_epochs ..
    | _ => rfl

/-- Without a send, held compute stays with the current engine epochs. -/
theorem current (path : Path allowed b b') (valid : b.Valid) (current : b.Current)
    (unsent : ∀ attemptId, ¬ allowed (.send attemptId)) : b'.Current := by
  induction path with
  | refl => exact current
  | tail path step ih =>
    have step' := step
    obtain ⟨label, ok, move⟩ := step
    intro a' member held
    rcases compute_origin (Relation.ReflTransGen.single step') (Path.valid path valid) member
      held with sent | ⟨a, aMem, same, was⟩
    · exact (unsent _ sent).elim
    · have before := ih a aMem was
      rw [same.poolId, same.engineEpoch]
      cases move with
      | @configure _ poolId engineEpoch free =>
        by_cases here : a.poolId = poolId
        · rcases free with known | idle
          · rw [here, known] at before
            simpa [here] using before
          · simp [idle a aMem here] at was
        · simpa [here] using before
      | endCharged => rwa [Book.overspend_epochs]
      | _ => exact before

end Path

end IntramindRuntime.Ledger
