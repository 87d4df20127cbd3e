import IntramindRuntime.Ledger.Book
import IntramindRuntime.Ledger.Store

/-!
# The abstract ledger of a database

What the tables say about the abstract ledger, and what the helpers that the
methods of the store share do to it. A helper that touches more than one row ends
in a single move: an attempt is settled, ended, and its operation decided at once.

## Main definitions

* `Db.book` — the abstract ledger of a database
* `Sql.OffBook` — statements that the abstract ledger does not see
* `Owns` — a reservation owns its attempt
* `Ends` — an attempt ends, and nothing but its own operation changes with it

## Main results

* `terminal_spec`, `settle_spec`, `owned_spec` — what the shared helpers of the store do
* `end_spec` — settling an attempt, ending it and deciding its operation is one move
-/

namespace IntramindRuntime.Ledger

open Library

/-- What the abstract ledger keeps of an operation. -/
@[simps]
def OperationRow.task (row : OperationRow) : Task where
  rootId := row.rootId
  spec := row.spec
  state := row.state
  active := row.activeAttempt

namespace Db

/-- The budget of a root in a unit. -/
def account (d : Db) (rootId : String) : BudgetUnit → Option Budget
  | .tokens => (d.roots.find? rootId).map Budget.ofRoot
  | .resource unit => (d.budgets.find? (rootId, unit)).map Budget.ofRow

/-- The abstract ledger of a database. -/
def book (d : Db) : Book where
  running rootId := (d.roots.find? rootId).map fun root => decide (root.state = .running)
  accounts := d.account
  tasks id := (d.operations.find? id).map OperationRow.task
  attempts := d.attempts
  epochs poolId := (d.pools.find? poolId).map PoolRow.engineEpoch

variable {d : Db}

@[simp] theorem book_attempts : d.book.attempts = d.attempts := rfl

theorem book_tasks {id : String} : d.book.tasks id = (d.operations.find? id).map OperationRow.task :=
  rfl

theorem book_task_of_found {id : String} {op : OperationRow}
    (found : d.operations.find? id = some op) : d.book.tasks id = some op.task := by
  rw [book_tasks, found, Option.map_some]

theorem book_running_of_found {rootId : String} {root : RootRow}
    (found : d.roots.find? rootId = some root) :
    d.book.running rootId = some (decide (root.state = .running)) := by
  simp [book, found]

theorem book_tokens_of_found {rootId : String} {root : RootRow}
    (found : d.roots.find? rootId = some root) :
    d.book.accounts rootId .tokens = some (Budget.ofRoot root) := by
  simp [book, account, found]

theorem book_resource_of_found {rootId : String} {unit : Resource} {budget : BudgetRow}
    (found : d.budgets.find? (rootId, unit) = some budget) :
    d.book.accounts rootId (.resource unit) = some (Budget.ofRow budget) := by
  simp [book, account, found]

theorem book_epoch_of_found {poolId : String} {pool : PoolRow}
    (found : d.pools.find? poolId = some pool) :
    d.book.epochs poolId = some pool.engineEpoch := by
  simp [book, found]

/-! ### What a write does to the abstract ledger -/

private theorem update_self {α : Type} {f : String → Option α} {k : String} {value : α}
    (found : f k = some value) : Function.update f k (some value) = f := by
  rw [← found, Function.update_eq_self]

theorem book_putRoot (row : RootRow) :
    book { d with roots := d.roots.put row } =
      (d.book.setRunning row.rootId (decide (row.state = .running))).putAccount row.rootId
        .tokens (Budget.ofRoot row) := by
  refine Book.ext (funext fun rootId => ?_) (funext fun rootId => funext fun unit => ?_)
    rfl rfl rfl
  · by_cases here : rootId = row.rootId
    · subst here; simp [book]
    · simp [book, here, Ne.symm here]
  · cases unit with
    | tokens =>
      by_cases here : rootId = row.rootId
      · subst here; simp [book, account]
      · simp [book, account, here, Ne.symm here]
    | resource unit => simp [book, account]

/-- Recording a budget as it is changes nothing. -/
theorem putAccount_of_found {b : Book} {rootId : String} {unit : BudgetUnit} {account : Budget}
    (found : b.accounts rootId unit = some account) : b.putAccount rootId unit account = b := by
  refine Book.ext rfl (funext fun r => funext fun u => ?_) rfl rfl rfl
  by_cases here : r = rootId ∧ u = unit
  · obtain ⟨rfl, rfl⟩ := here
    simp [found]
  · simp [here]

/-- Recording whether a root runs, as it is, changes nothing. -/
theorem setRunning_of_found {b : Book} {rootId : String} {running : Bool}
    (found : b.running rootId = some running) : b.setRunning rootId running = b :=
  Book.ext (update_self found) rfl rfl rfl rfl

/-- Recording an operation as it is changes nothing. -/
theorem putTask_of_found {b : Book} {id : String} {task : Task}
    (found : b.tasks id = some task) : b.putTask id task = b :=
  Book.ext rfl rfl (update_self found) rfl rfl

/-- A root is rewritten in columns the abstract ledger does not keep. -/
theorem book_editRoot {row : RootRow} (old : RootRow) (found : d.roots.find? row.rootId = some old)
    (state : row.state = old.state) (budget : Budget.ofRoot row = Budget.ofRoot old) :
    book { d with roots := d.roots.put row } = d.book := by
  rw [book_putRoot, state, budget, setRunning_of_found (book_running_of_found found),
    putAccount_of_found (book_tokens_of_found found)]

/-- A root ends. -/
theorem book_endRoot {row old : RootRow} (found : d.roots.find? row.rootId = some old)
    (state : row.state ≠ .running) (budget : Budget.ofRoot row = Budget.ofRoot old) :
    book { d with roots := d.roots.put row } = d.book.setRunning row.rootId false := by
  rw [book_putRoot, budget, decide_eq_false state]
  exact putAccount_of_found (b := d.book.setRunning row.rootId false) (book_tokens_of_found found)

/-- A root is rewritten in its budget. -/
theorem book_chargeRoot {row old : RootRow} (found : d.roots.find? row.rootId = some old)
    (state : row.state = old.state) :
    book { d with roots := d.roots.put row } =
      d.book.putAccount row.rootId .tokens (Budget.ofRoot row) := by
  rw [book_putRoot, state, setRunning_of_found (book_running_of_found found)]

theorem book_putBudget (row : BudgetRow) :
    book { d with budgets := d.budgets.put row } =
      d.book.putAccount row.rootId (.resource row.unit) (Budget.ofRow row) := by
  refine Book.ext rfl (funext fun rootId => funext fun unit => ?_) rfl rfl rfl
  cases unit with
  | tokens => simp [book, account]
  | resource unit =>
    by_cases here : rootId = row.rootId ∧ unit = row.unit
    · obtain ⟨rfl, rfl⟩ := here
      simp [book, account]
    · have : ¬ (row.rootId = rootId ∧ row.unit = unit) :=
        fun same => here ⟨same.1.symm, same.2.symm⟩
      simp [book, account, here, this]

theorem book_putOperation (row : OperationRow) :
    book { d with operations := d.operations.put row } =
      d.book.putTask row.operationId row.task := by
  refine Book.ext rfl rfl (funext fun id => ?_) rfl rfl
  by_cases here : id = row.operationId
  · subst here; simp [book]
  · simp [book, here, Ne.symm here]

/-- An operation is rewritten in columns the abstract ledger does not keep. -/
theorem book_editOperation {row : OperationRow} (old : OperationRow)
    (found : d.operations.find? row.operationId = some old) (same : row.task = old.task) :
    book { d with operations := d.operations.put row } = d.book := by
  rw [book_putOperation, same, putTask_of_found (book_task_of_found found)]

theorem book_putPool (row : PoolRow) :
    book { d with pools := d.pools.put row } = d.book.setEpoch row.poolId row.engineEpoch := by
  refine Book.ext rfl rfl rfl rfl (funext fun poolId => ?_)
  by_cases here : poolId = row.poolId
  · subst here; simp [book]
  · simp [book, here, Ne.symm here]

/-- A pool is rewritten within its epoch. -/
theorem book_editPool {row : PoolRow} (old : PoolRow) (found : d.pools.find? row.poolId = some old)
    (same : row.engineEpoch = old.engineEpoch) :
    book { d with pools := d.pools.put row } = d.book := by
  rw [book_putPool, same]
  exact Book.ext rfl rfl rfl rfl (update_self (book_epoch_of_found found))

end Db

/-! ### Statements that the abstract ledger does not see -/

section OffBook

open RowStore

variable {β : Type} {d : Db}

@[simp] theorem book_write_root (row : RootRow) :
    (apply (roots.write row) d : Db).book =
      (d.book.setRunning row.rootId (decide (row.state = .running))).putAccount row.rootId
        .tokens (Budget.ofRoot row) := Db.book_putRoot row

@[simp] theorem book_write_budget (row : BudgetRow) :
    (apply (budgets.write row) d : Db).book =
      d.book.putAccount row.rootId (.resource row.unit) (Budget.ofRow row) :=
  Db.book_putBudget row

@[simp] theorem book_write_operation (row : OperationRow) :
    (apply (operations.write row) d : Db).book = d.book.putTask row.operationId row.task :=
  Db.book_putOperation row

@[simp] theorem book_write_attempt (row : AttemptRow) :
    (apply (attempts.write row) d : Db).book = d.book.putAttempt row := rfl

@[simp] theorem book_write_pool (row : PoolRow) :
    (apply (pools.write row) d : Db).book = d.book.setEpoch row.poolId row.engineEpoch :=
  Db.book_putPool row

/-- A statement whose writes the abstract ledger does not keep. -/
def Sql.OffBook (statement : Sql β) : Prop :=
  ∀ d : Db, (applyAll (Engine.exec statement (fun _ => false) d d).writes d).book = d.book

private theorem book_applyAll {writes : List Write}
    (off : ∀ w ∈ writes, w.table = .outbox ∨ w.table = .bindings ∨ w.table.minor = true) :
    (applyAll writes d).book = d.book := by
  induction writes generalizing d with
  | nil => rfl
  | cons w rest ih =>
    rw [applyAll_cons, ih fun v member => off v (List.mem_cons_of_mem w member)]
    have here := off w List.mem_cons_self
    cases w <;> first
      | rfl
      | simp [Write.table, TableName.minor] at here

theorem offBook_outbox (statement : OutboxSql β) : (Sql.outbox statement).OffBook :=
  fun _ => book_applyAll fun _ member => Or.inl (statement.exec_table member)

theorem offBook_binding (statement : BindingSql β) : (Sql.binding statement).OffBook :=
  fun _ => book_applyAll fun _ member => Or.inr (Or.inl (statement.exec_table member))

theorem offBook_other (statement : OtherSql β) : (Sql.other statement).OffBook :=
  fun _ => book_applyAll fun _ member => Or.inr (Or.inr (statement.exec_table member))

/-- A statement that writes nothing. -/
theorem offBook_of_writes {statement : Sql β}
    (nothing : ∀ d : Db, (Engine.exec statement (fun _ => false) d d).writes = []) :
    statement.OffBook := fun d => by rw [nothing d, applyAll_nil]

/-- An update of columns that the abstract ledger does not keep. -/
theorem offBook_update {ρ κ : Type} [Keyed ρ κ] [DecidableEq κ] {A : Access Db Write Key ρ}
    {id : κ} {cond : ρ → Bool} {f : ρ → ρ} {statement : Sql (Option ρ)}
    (exec : ∀ d : Db, Engine.exec statement (fun _ => false) d d = A.update id cond f d d)
    (same : ∀ (d : Db) row, (A.table d).find? id = some row →
      (apply (A.write (f row)) d : Db).book = d.book) : statement.OffBook := by
  intro d
  rw [exec, Access.update, Access.target_self]
  cases here : A.find? id cond d with
  | none => rfl
  | some row => exact same d row (Access.find?_eq_some_iff.mp here).1

theorem offBook_countOperation (rootId : String) :
    (Sql.root (RootSql.countOperation rootId)).OffBook :=
  offBook_update (fun _ => rfl) fun _ row found => by
    obtain rfl : row.rootId = rootId := Table.key_of_find? found
    exact Db.book_editRoot row found rfl rfl

theorem offBook_serve (rootId : String) (clock : ℤ) :
    (Sql.root (RootSql.serve rootId clock)).OffBook :=
  offBook_update (fun _ => rfl) fun _ row found => by
    obtain rfl : row.rootId = rootId := Table.key_of_find? found
    exact Db.book_editRoot row found rfl rfl

theorem offBook_awaitBudget (operationId : String) :
    (Sql.operation (OperationSql.awaitBudget operationId)).OffBook :=
  offBook_update (fun _ => rfl) fun _ row found => by
    obtain rfl : row.operationId = operationId := Table.key_of_find? found
    exact Db.book_editOperation row found rfl

theorem offBook_degrade (poolId : String) : (Sql.pool (PoolSql.degrade poolId)).OffBook :=
  offBook_update (fun _ => rfl) fun _ row found => by
    obtain rfl : row.poolId = poolId := Table.key_of_find? found
    exact Db.book_editPool row found rfl

theorem offBook_quiesce (poolId engineEpoch token : String) :
    (Sql.pool (PoolSql.quiesce poolId engineEpoch token)).OffBook :=
  offBook_update (fun _ => rfl) fun _ row found => by
    obtain rfl : row.poolId = poolId := Table.key_of_find? found
    exact Db.book_editPool row found rfl

theorem offBook_resume (poolId engineEpoch : String) (target : ℕ) :
    (Sql.pool (PoolSql.resume poolId engineEpoch target)).OffBook :=
  offBook_update (fun _ => rfl) fun _ row found => by
    obtain rfl : row.poolId = poolId := Table.key_of_find? found
    exact Db.book_editPool row found rfl

theorem offBook_stop (poolId : String) : (Sql.pool (PoolSql.stop poolId)).OffBook :=
  offBook_update (fun _ => rfl) fun _ row found => by
    obtain rfl : row.poolId = poolId := Table.key_of_find? found
    exact Db.book_editPool row found rfl

theorem offBook_retarget (poolId : String) (target : ℕ) :
    (Sql.pool (PoolSql.retarget poolId target)).OffBook :=
  offBook_update (fun _ => rfl) fun _ row found => by
    obtain rfl : row.poolId = poolId := Table.key_of_find? found
    exact Db.book_editPool row found rfl

theorem offBook_configureGroup (groupId : String) (hardCeiling : ℤ) :
    (Sql.pool (PoolSql.configureGroup groupId hardCeiling)).OffBook := by
  intro d
  simp only [Engine.exec, PoolSql.exec, Access.upsert]
  split
  · rfl
  · split <;> rfl

theorem ensures_offBook {α : Type} {p : Transaction α} (uses : p.Uses Sql.OffBook) :
    p.Ensures d fun _ d' => d'.book = d.book :=
  Tx.Ensures.of_uses uses fun _ d off => off d

theorem event_offBook (env : Env) (eventId : EventId) (kind : EventKind) (aggregateId : String)
    (payload : EventPayload) :
    (Store.event env eventId kind aggregateId payload).Uses Sql.OffBook :=
  ⟨offBook_outbox _, fun _ => trivial⟩

theorem completionEvents_offBook (env : Env) (operationId : String) :
    (Store.completionEvents env operationId).Uses Sql.OffBook :=
  ⟨offBook_binding _, fun _ => Tx.Uses.forEach fun _ => event_offBook ..⟩

end OffBook

/-! ### Rules for the small helpers -/

section Helpers

variable {α β : Type} {d : Db} {post : α → Db → Prop}

theorem ensures_require {condition : Bool} {error : RuntimeError} {next : Unit → Transaction α}
    (rest : condition = true → (next ()).Ensures d post) :
    ((Store.require condition error).bind next).Ensures d post := by
  unfold Store.require
  split
  · next holds => exact rest holds
  · exact Tx.Ensures.raise

theorem ensures_when {condition : Bool} {body : Transaction Unit} {next : Unit → Transaction α}
    (yes : condition = true → (body.bind next).Ensures d post)
    (no : condition = false → (next ()).Ensures d post) :
    ((Store.when condition body).bind next).Ensures d post := by
  unfold Store.when
  split
  · next holds => exact yes holds
  · next fails => exact no (by simpa using fails)

/-- The sequence rule, for a first part that the abstract ledger does not see. -/
theorem ensures_offBook_bind {p : Transaction β} {next : β → Transaction α}
    (uses : p.Uses Sql.OffBook)
    (rest : ∀ value d', d'.book = d.book → (next value).Ensures d' post) :
    (p.bind next).Ensures d post :=
  Tx.Ensures.bind ((ensures_offBook uses).mono fun value d' same => rest value d' same)

/-- The rule for one statement that the abstract ledger does not see. -/
theorem ensures_offBook_perform {statement : Sql β} {next : β → Transaction α}
    (off : statement.OffBook) (rest : ∀ value d', d'.book = d.book → (next value).Ensures d' post) :
    Tx.Ensures (.perform statement next) d post :=
  ensures_offBook_bind (p := Tx.stmt statement) ⟨off, fun _ => trivial⟩ rest

theorem uses_require {P : {β : Type} → Sql β → Prop} (condition : Bool) (error : RuntimeError) :
    (Store.require condition error).Uses P := by
  unfold Store.require
  split <;> trivial

theorem uses_when {P : {β : Type} → Sql β → Prop} {condition : Bool} {body : Transaction Unit}
    (uses : body.Uses P) : (Store.when condition body).Uses P := by
  unfold Store.when
  split
  · exact uses
  · trivial

theorem uses_accept {P : {β : Type} → Sql β → Prop} (result : Except Violation β) :
    (Store.accept result).Uses P := by
  cases result <;> trivial

end Helpers

/-! ### What the shared helpers do -/

namespace Book

/-- The operation ends, unless it has ended already. -/
def terminate (b : Book) (id : String) (state : OperationState) : Book :=
  match b.tasks id with
  | some task => if task.state.terminal then b else b.putTask id { task with state := state }
  | none => b

variable {b : Book} {id : String} {state : OperationState}

theorem terminate_of_open {task : Task} (found : b.tasks id = some task)
    (isOpen : task.state.terminal = false) :
    b.terminate id state = b.putTask id { task with state := state } := by
  simp [terminate, found, isOpen]

theorem terminate_of_ended {task : Task} (found : b.tasks id = some task)
    (ended : task.state.terminal = true) : b.terminate id state = b := by
  simp [terminate, found, ended]

theorem terminate_path {allowed : Label → Prop} (quiet : allowed .quiet)
    (failed : state.failing = true) : Path allowed b (b.terminate id state) := by
  unfold terminate
  split
  · next task found =>
    split
    · exact Path.refl b
    · next pending =>
      exact Path.single quiet (.endTask found (OperationState.terminal_of_failing failed)
        (by simpa using pending) (OperationState.ne_of_failing failed))
  · exact Path.refl b

@[simp] theorem terminate_attempts : (b.terminate id state).attempts = b.attempts := by
  unfold terminate
  split
  · split <;> rfl
  · rfl

end Book

section Specs

variable {env : Env} {d : Db}

theorem terminal_spec (operationId : String) (state : OperationState) (reason : String) :
    (Store.terminal env operationId state reason).Ensures d
      fun _ d' => d'.book = d.book.terminate operationId state := by
  refine Tx.Ensures.update rfl (fun row found isOpen => ?_) fun ended => ?_
  · have named : row.operationId = operationId := Table.key_of_find? found
    have known := Db.book_task_of_found found
    rw [Book.terminate_of_open known (by simpa using isOpen)]
    refine (ensures_offBook (completionEvents_offBook env operationId)).mono fun _ d' same => ?_
    rw [same, book_write_operation]
    exact congrArg (d.book.putTask · _) named
  · have nothing : d.book.terminate operationId state = d.book := by
      cases here : d.operations.find? operationId with
      | none => simp [Book.terminate, Db.book_tasks, here]
      | some row =>
        exact Book.terminate_of_ended (Db.book_task_of_found here) (by simpa using ended row here)
    rw [nothing]
    exact ensures_offBook (completionEvents_offBook env operationId)

theorem expireOperation_spec (spec : OperationSpec) (observedAt : Time) :
    (Store.expireOperation env spec observedAt).Ensures d fun expired d' =>
      d'.book = if expired then d.book.terminate spec.operationId .failed else d.book := by
  unfold Store.expireOperation
  split
  · exact Tx.Ensures.ret rfl
  · refine Tx.Ensures.bind ((terminal_spec _ _ _).mono fun _ d' same => Tx.Ensures.ret ?_)
    rw [same, if_pos rfl]

/-- What `_settle` does for the attempt `a`: nothing when it was not charged, else it
charges the budget of its root. -/
inductive Settled (a : AttemptRow) (rootId : String) (usage : Option ℤ) (b b' : Book) : Prop
  | uncharged (budget : a.budgetHeld = false) (same : b' = b)
  | charged (budget : a.budgetHeld = true) (account : Budget) (charge : ℤ)
      (usage_eq : charge = usage.getD a.budgetBound)
      (found : b.accounts rootId a.budgetUnit = some account)
      (after : b' = ((b.putAttempt (a.settle charge usage.isNone)).putAccount rootId a.budgetUnit
        (account.settle a.budgetBound charge)).overspend rootId
          (account.settle a.budgetBound charge))

theorem settleBudget_spec (a : AttemptRow) (rootId : String) (charged : ℤ) :
    (Store.settleBudget a rootId charged).Ensures d fun budget d' => budget = none ∨
      ∃ account, d.book.accounts rootId a.budgetUnit = some account ∧
        budget = some (account.settle a.budgetBound charged) ∧
        d'.book = d.book.putAccount rootId a.budgetUnit (account.settle a.budgetBound charged) := by
  unfold Store.settleBudget
  cases a.budgetUnit with
  | tokens =>
    refine Tx.Ensures.updateChecked rfl (fun row found _ _ => Tx.Ensures.ret (Or.inr ?_))
      (Tx.Ensures.ret (Or.inl rfl)) Tx.Ensures.raise
    have named : row.rootId = rootId := Table.key_of_find? found
    subst named
    exact ⟨_, Db.book_tokens_of_found found, rfl, Db.book_chargeRoot found rfl⟩
  | resource unit =>
    refine Tx.Ensures.updateChecked rfl (fun row found _ _ => Tx.Ensures.ret (Or.inr ?_))
      (Tx.Ensures.ret (Or.inl rfl)) Tx.Ensures.raise
    have named : (row.rootId, row.unit) = (rootId, unit) := Table.key_of_find? found
    cases named
    exact ⟨_, Db.book_resource_of_found found, rfl, Db.book_putBudget _⟩

/-- The part of `_settle` after the charge: the root fails when it is overspent, and
the pool is degraded when the attempt used more than its bound. -/
theorem settle_tail_spec {rootId poolId : String} {budget : Budget} {degrade : Bool}
    (known : d.book.running rootId ≠ none) :
    ((Store.when (decide (budget.limit < budget.spent)) do
        let _ ← (RootSql.overspend rootId env.now).run).bind fun _ =>
      Store.when degrade do let _ ← (PoolSql.degrade poolId).run).Ensures d
      fun _ d' => d'.book = d.book.overspend rootId budget := by
  have pool : ∀ d : Db, (Store.when degrade do
      let _ ← (PoolSql.degrade poolId).run).Ensures d fun _ d' => d'.book = d.book := fun d =>
    ensures_offBook (uses_when ⟨offBook_degrade poolId, fun _ => trivial⟩)
  refine ensures_when (fun isOver => ?_) fun within => ?_
  · have isOver : budget.limit < budget.spent := by simpa using isOver
    simp only [Book.overspend, isOver, if_true]
    refine Tx.Ensures.update rfl (fun row found state => ?_) fun ended => ?_
    · have named : row.rootId = rootId := Table.key_of_find? found
      subst named
      refine (pool _).mono fun _ d' same => ?_
      rw [same]
      exact Db.book_endRoot found (by simp [RootRow.overspend]) rfl
    · refine (pool d).mono fun _ d' same => ?_
      obtain ⟨running, here⟩ := Option.ne_none_iff_exists'.mp known
      obtain ⟨row, found, state⟩ := Option.map_eq_some_iff.mp here
      rw [same, Db.setRunning_of_found]
      rw [here, ← state]
      simpa using ended row found
  · have within : ¬ budget.limit < budget.spent := by simpa using within
    simp only [Book.overspend, within, if_false]
    exact pool d

theorem settle_spec {a : AttemptRow} {rootId : String} (usage : Option ℤ)
    (found : d.attempts.find? a.attemptId = some a) (known : d.book.running rootId ≠ none) :
    (Store.settle env a rootId usage).Ensures d fun _ d' =>
      Settled a rootId usage d.book d'.book := by
  unfold Store.settle
  split
  · next unheld => exact Tx.Ensures.ret (.uncharged (by simpa using unheld) rfl)
  · next held =>
    simp only [Tx.bind_eq, Tx.stmt_bind]
    refine ensures_require fun _ => Tx.Ensures.update rfl (fun row found' _ => ?_) fun missing => ?_
    · have same : row = a := Option.some.inj (found'.symm.trans found)
      subst same
      refine Tx.Ensures.bind ((settleBudget_spec _ _ _).mono fun budget d' charged => ?_)
      rcases charged with rfl | ⟨account, known', rfl, after⟩
      · exact Tx.Ensures.raise
      · refine (settle_tail_spec (by rw [after]; exact known)).mono fun _ d'' isOver => ?_
        refine .charged (by simpa using held) account _ rfl known' ?_
        rw [isOver, after, book_write_attempt]
    · simpa using missing a found

/-- A joined row is what the tables contain. -/
structure Joins (d : Db) (j : Joined) : Prop where
  attempt : d.attempts.find? j.attempt.attemptId = some j.attempt
  operation : d.operations.find? j.attempt.operationId = some j.operation
  root : d.roots.find? j.operation.rootId = some j.root

theorem Db.join_eq_some {a : AttemptRow} {j : Joined} (joined : d.join a = some j) :
    j.attempt = a ∧ d.operations.find? a.operationId = some j.operation ∧
      d.roots.find? j.operation.rootId = some j.root := by
  simp only [Db.join, Option.bind_eq_some_iff, Option.map_eq_some_iff] at joined
  obtain ⟨op, found, root, found', rfl⟩ := joined
  exact ⟨rfl, found, found'⟩

theorem Joins.of_join {a : AttemptRow} {j : Joined} (found : d.attempts.find? a.attemptId = some a)
    (joined : d.join a = some j) : Joins d j := by
  obtain ⟨rfl, op, root⟩ := Db.join_eq_some joined
  exact ⟨found, op, root⟩

/-- The reservation owns its attempt: same owner, same lease epoch, still active. -/
def Owns (d : Db) (reservation : Reservation) : Prop :=
  ∃ a op, d.attempts.find? reservation.attemptId = some a ∧
    a.ownerId = reservation.ownerId ∧ a.leaseEpoch = reservation.leaseEpoch ∧
    d.operations.find? a.operationId = some op ∧ op.activeAttempt = some reservation.attemptId

theorem owned_spec (reservation : Reservation) :
    (Store.owned reservation).Ensures d fun j d' =>
      d = d' ∧ Joins d j ∧ j.attempt.attemptId = reservation.attemptId ∧ Owns d reservation := by
  unfold Store.owned
  simp only [Tx.bind_eq, Tx.stmt_bind]
  refine Tx.Ensures.perform ?_
  have exec : Engine.exec (Sql.attempt (AttemptSql.owned reservation.attemptId))
      (fun _ => false) d d =
        (attempts.selectForUpdate reservation.attemptId (fun a => (d.join a).isSome) d d).map
          fun found => found.bind d.join := rfl
  rw [exec]
  simp only [Outcome.map_result, Outcome.map_writes, Access.selectForUpdate, Access.target_self]
  cases here : (attempts.find? reservation.attemptId (fun a => (d.join a).isSome) d) with
  | none => exact Tx.Ensures.raise
  | some a =>
    obtain ⟨found, -⟩ := Access.find?_eq_some_iff.mp here
    have named : a.attemptId = reservation.attemptId := Table.key_of_find? found
    cases joined : d.join a with
    | none => simp only [Option.bind_some, joined]; exact Tx.Ensures.raise
    | some j =>
      simp only [Option.bind_some, joined]
      have joins := Joins.of_join (named.symm ▸ found) joined
      obtain ⟨rfl, -, -⟩ := Db.join_eq_some joined
      refine ensures_require fun owns => Tx.Ensures.ret ⟨rfl, joins, named, ?_⟩
      simp only [Bool.and_eq_true, decide_eq_true_eq] at owns
      exact ⟨j.attempt, j.operation, found, owns.1.1, owns.1.2, joins.operation, owns.2⟩

/-- The label of an attempt's end, or of any other move that rewrites it. -/
theorem Label.of_eq (a a' : AttemptRow) :
    Label.of a a' = .quiet ∨ (Label.of a a' = .release a.attemptId ∧ a.computeHeld = true) := by
  unfold Label.of
  split
  · next lost => exact Or.inr ⟨rfl, by simp_all⟩
  · exact Or.inl rfl

theorem SameAttempt.settle (a : AttemptRow) (usage : ℤ) (estimated : Bool) :
    SameAttempt a (a.settle usage estimated) :=
  ⟨rfl, rfl, rfl, rfl, rfl, rfl, rfl, rfl⟩

/-- An attempt that was settled ends, and its operation is decided. -/
theorem Settled.finish {a : AttemptRow} {task task' : Task} {usage : Option ℤ} {b b' : Book}
    {f : AttemptRow → AttemptRow} (settled : Settled a task.rootId usage b b')
    (found : b.attempts.find? a.attemptId = some a) (isOpen : a.isOpen)
    (task_found : b.tasks a.operationId = some task)
    (same : ∀ row, SameAttempt row (f row)) (ended : ∀ row, (f row).state.ended = true)
    (compute : ∀ row, row.computeHeld = a.computeHeld → (f row).computeHeld = false)
    (budget : ∀ row, (f row).budgetHeld = row.budgetHeld)
    (charge : ∀ row, (f row).usage = row.usage) (rootId : task'.rootId = task.rootId)
    (spec : task'.spec = task.spec)
    (decided : task'.state.terminal = true ∨ task'.state.waiting = true)
    (outcome : ∀ row, task.Follows task' (f row).state) :
    ∃ row, b'.attempts.find? a.attemptId = some row ∧
      Move (Label.of a (f row)) b ((b'.putAttempt (f row)).putTask a.operationId task') := by
  cases settled with
  | uncharged unheld equal =>
    subst equal
    exact ⟨a, found, .endUncharged found (same a) isOpen (ended a) unheld (compute a rfl)
      ((budget a).trans unheld) (charge a) task_found rootId spec decided (outcome a)⟩
  | charged held account usage' usage_eq known after =>
    refine ⟨a.settle usage' usage.isNone, ?_, ?_⟩
    · rw [after, Book.overspend_attempts]
      have put : (b.attempts.put (a.settle usage' usage.isNone)).find? a.attemptId =
          some (a.settle usage' usage.isNone) := Table.find?_put_self
      exact put
    · have same' : SameAttempt a (f (a.settle usage' usage.isNone)) :=
        (SameAttempt.settle a usage' usage.isNone).trans (same _)
      have move : Move (Label.of a (f (a.settle usage' usage.isNone))) b _ :=
        .endCharged found same' (ended _) held (compute _ rfl) (budget _) (charge _) task_found
          known rootId spec decided (outcome _)
      convert move using 1
      rw [after]
      unfold Book.overspend
      split <;> exact Book.ext rfl rfl rfl (Table.put_put (same _).attemptId.symm) rfl

/-- The operation `id` is decided after an attempt of it ended: it has ended or waits
again. Nothing else changes. -/
def Decided (id : String) (task : Task) (ended : AttemptState) (b b' : Book) : Prop :=
  ∃ task', b' = b.putTask id task' ∧ task'.rootId = task.rootId ∧ task'.spec = task.spec ∧
    (task'.state.terminal = true ∨ task'.state.waiting = true) ∧ task.Follows task' ended

section Decided

variable {b : Book} {id : String} {task : Task} {state : OperationState} {ended : AttemptState}

theorem Task.Follows.refl (terminal : task.state.terminal = true) : task.Follows task ended :=
  ⟨fun _ => rfl, fun _ => terminal, Or.inl⟩

/-- A pending operation that does not succeed, and ends if a result was committed. -/
theorem Task.Follows.of_pending {task' : Task} (pending : task.state.terminal = false)
    (committed : ended = .resultCommitted → task'.state.terminal = true)
    (unsuccessful : task'.state ≠ .succeeded) : task.Follows task' ended := by
  refine ⟨fun terminal => ?_, committed, fun succeeded => absurd succeeded unsuccessful⟩
  rw [pending] at terminal
  cases terminal

theorem Decided.of_ended (found : b.tasks id = some task)
    (terminal : task.state.terminal = true) : Decided id task ended b b :=
  ⟨task, (Db.putTask_of_found found).symm, rfl, rfl, Or.inl terminal, .refl terminal⟩

theorem Decided.terminate (found : b.tasks id = some task) (failed : state.failing = true) :
    Decided id task ended b (b.terminate id state) := by
  have terminal := OperationState.terminal_of_failing failed
  cases pending : task.state.terminal with
  | true => rw [Book.terminate_of_ended found pending]; exact .of_ended found pending
  | false =>
    exact ⟨_, Book.terminate_of_open found pending, rfl, rfl, Or.inl terminal,
      .of_pending pending (fun _ => terminal) (OperationState.ne_of_failing failed)⟩

end Decided

/-- The open attempt `a` ends in a state by one move, which changes no other attempt and
no operation but its own. -/
structure Ends (a : AttemptRow) (state : AttemptState) (b b' : Book) : Prop where
  move : Move .quiet b b' ∨ (a.computeHeld = true ∧ Move (.release a.attemptId) b b')
  attempts : ∀ id, id ≠ a.attemptId → b'.attempts.find? id = b.attempts.find? id
  tasks : ∀ id, id ≠ a.operationId → b'.tasks id = b.tasks id
  ended : ∃ a', b'.attempts.find? a.attemptId = some a' ∧ a'.state = state

theorem Ends.path {a : AttemptRow} {state : AttemptState} {b b' : Book}
    {allowed : Label → Prop} (ends : Ends a state b b') (quiet : allowed .quiet)
    (release : a.computeHeld = true → allowed (.release a.attemptId)) : Path allowed b b' := by
  rcases ends.move with move | ⟨held, move⟩
  · exact Path.single quiet move
  · exact Path.single (release held) move

/-- Settle an attempt, end it, decide its operation: one move. -/
theorem end_spec {β : Type} {a : AttemptRow} {task : Task} {rootId : String} {usage : Option ℤ}
    {statement : AttemptSql (Option AttemptRow)} {f : AttemptRow → AttemptRow}
    {rest : Option AttemptRow → Transaction β} (valid : d.book.Valid)
    (found : d.attempts.find? a.attemptId = some a) (isOpen : a.isOpen)
    (task_found : d.book.tasks a.operationId = some task) (root : rootId = task.rootId)
    (exec : ∀ d, Engine.exec (Sql.attempt statement) (fun _ => false) d d =
      attempts.update a.attemptId always f d d)
    (same : ∀ row, SameAttempt row (f row)) (state : AttemptState)
    (moved : ∀ row, (f row).state = state) (ended : state.ended = true)
    (compute : ∀ row, row.computeHeld = a.computeHeld → (f row).computeHeld = false)
    (budget : ∀ row, (f row).budgetHeld = row.budgetHeld)
    (charge : ∀ row, (f row).usage = row.usage)
    (decide : ∀ row d', d'.book.tasks a.operationId = some task →
      (rest row).Ensures d' fun _ d'' => Decided a.operationId task state d'.book d''.book) :
    ((Store.settle env a rootId usage).bind fun _ => Tx.perform (Sql.attempt statement) rest).Ensures
      d fun _ d' => Ends a state d.book d'.book := by
  subst root
  have known := (valid.linked.task _ _ task_found).1
  refine Tx.Ensures.bind ((settle_spec usage found known).mono fun _ d' settled => ?_)
  have kept : d'.book.tasks a.operationId = some task := by
    cases settled with
    | uncharged unheld equal => rwa [equal]
    | charged held account charge usage_eq found after =>
      rw [after, Book.overspend_tasks]
      exact task_found
  have finish := fun (task' : Task) (rootId : task'.rootId = task.rootId) spec decided
      (outcome : task.Follows task' state) =>
    settled.finish found isOpen task_found same (fun row => (moved row).symm ▸ ended) compute
      budget charge rootId spec decided fun row => (moved row).symm ▸ outcome
  refine Tx.Ensures.update (exec d') (fun row found' _ => ?_) fun missing => ?_
  · refine (decide _ (RowStore.apply (attempts.write (f row)) d') kept).mono fun _ d'' decided => ?_
    obtain ⟨task', after, rootId, spec, decided, outcome⟩ := decided
    obtain ⟨row', found'', move⟩ := finish task' rootId spec decided outcome
    have equal : row' = row := Option.some.inj (found''.symm.trans found')
    subst equal
    rw [book_write_attempt] at after
    rw [← after] at move
    have named : (f row').attemptId = a.attemptId :=
      (same row').attemptId.trans (Table.key_of_find? found')
    have frame : ∀ id, id ≠ a.attemptId →
        d'.book.attempts.find? id = d.book.attempts.find? id := by
      intro id different
      cases settled with
      | uncharged unheld equal => rw [equal]
      | charged held account charge usage_eq found after =>
        rw [after, Book.overspend_attempts]
        exact Table.find?_put_of_ne (Ne.symm different)
    have frame' : d'.book.tasks = d.book.tasks := by
      cases settled with
      | uncharged unheld equal => rw [equal]
      | charged held account charge usage_eq found after => rw [after, Book.overspend_tasks]; rfl
    refine ⟨?_, fun id different => ?_, fun id different => ?_, f row', ?_, moved row'⟩
    · rcases Label.of_eq a (f row') with quiet | ⟨release, held⟩
      · exact Or.inl (quiet ▸ move)
      · exact Or.inr ⟨held, release ▸ move⟩
    · rw [after, ← frame id different]
      exact Table.find?_put_of_ne (by rw [key_attempt, named]; exact Ne.symm different)
    · rw [after, Book.putTask_tasks, Function.update_of_ne different]
      exact congrFun frame' id
    · rw [after, ← named]
      exact Table.find?_put_self
  · have absurd : ∀ row, d'.attempts.find? a.attemptId ≠ some row :=
      fun row here => by simpa using missing row here
    obtain ⟨row, here⟩ : ∃ row, d'.attempts.find? a.attemptId = some row := by
      cases settled with
      | uncharged unheld equal =>
        have same : d'.attempts = d.attempts := congrArg Book.attempts equal
        exact ⟨a, by rw [same, found]⟩
      | charged held account charge usage_eq known after =>
        have same := congrArg Book.attempts after
        rw [Book.overspend_attempts] at same
        refine ⟨a.settle charge usage.isNone, ?_⟩
        change d'.book.attempts.find? a.attemptId = _
        rw [same]
        exact Table.find?_put_self
    exact (absurd row here).elim

end Specs

end IntramindRuntime.Ledger
