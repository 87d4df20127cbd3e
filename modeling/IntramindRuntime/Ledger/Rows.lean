import IntramindRuntime.Contracts
import IntramindRuntime.Library.KeyedTable
import IntramindRuntime.Library.Transaction

/-!
# The tables of the ledger

The rows of the PostgreSQL authority and the writes that change them. A row keeps
the columns that a method of the store reads or writes; the primary key of a
table is the key of its rows.

## Main definitions

* `RootRow`, `OperationRow`, `AttemptRow`, `PoolRow` and the rows of the other tables
* `Budget` — what a root, or one of its resource budgets, may use
* `Db` — the ledger
* `Key`, `Write` — the rows a statement locks, and the writes it performs
* the `RowStore` instance of the ledger
-/

namespace IntramindRuntime.Ledger

open Library

/-- The single row of `runtime_authority`. -/
structure Authority where
  maxRoots : ℕ := 128
  maxPending : ℕ := 2048
  deriving DecidableEq

/-- A row of `runtime_roots`. -/
structure RootRow where
  rootId : String
  tenantId : String
  spec : RootSpec
  state : RootState := .running
  deadline : Time
  budgetLimit : ℤ
  reserved : ℤ := 0
  spent : ℤ := 0
  attempts : ℕ := 0
  operationCount : ℕ := 0
  lastServed : ℤ := 0
  priority : Priority
  cancelRequested : Bool := false
  result : Option Artifact := none
  terminalReason : Option String := none
  finishedAt : Option Time := none
  deriving DecidableEq

/-- A row of `runtime_resource_budgets`. -/
structure BudgetRow where
  rootId : String
  unit : Resource
  budgetLimit : ℤ
  reserved : ℤ := 0
  spent : ℤ := 0
  deriving DecidableEq

/-- The limit, the reserved and the spent amount of a budget. -/
structure Budget where
  limit : ℤ
  reserved : ℤ
  spent : ℤ
  deriving DecidableEq

/-- The tokens of a root. -/
def Budget.ofRoot (root : RootRow) : Budget := ⟨root.budgetLimit, root.reserved, root.spent⟩

/-- A resource budget. -/
def Budget.ofRow (row : BudgetRow) : Budget := ⟨row.budgetLimit, row.reserved, row.spent⟩

/-- A row of `runtime_groups`. -/
structure GroupRow where
  groupId : String
  hardCeiling : ℤ
  health : Health := .healthy
  deriving DecidableEq

/-- A row of `runtime_pools`. -/
structure PoolRow where
  poolId : String
  groupId : String
  spec : PoolSpec
  engineEpoch : String
  envelopeVersion : ℕ := 1
  target : ℕ
  hardCeiling : ℕ
  contextLimit : ℕ
  modelProfile : String
  health : Health := .healthy
  validUntil : Option Time
  quiesceToken : Option String := none
  deriving DecidableEq

/-- A row of `runtime_operations`. -/
structure OperationRow where
  operationId : String
  rootId : String
  tenantId : String
  spec : OperationSpec
  state : OperationState := .ready
  attempts : ℕ := 0
  activeAttempt : Option String := none
  result : Option Artifact := none
  waitReason : Option String := none
  retryAt : Option Time := none
  createdAt : Time
  deriving DecidableEq

/-- A row of `runtime_attempts`. -/
structure AttemptRow where
  attemptId : String
  operationId : String
  poolId : String
  engineEpoch : String
  attemptNumber : ℕ
  ownerId : String
  leaseEpoch : ℕ
  leaseExpiresAt : Time
  state : AttemptState := .reserved
  computeHeld : Bool
  budgetHeld : Bool
  budgetBound : ℤ
  budgetUnit : BudgetUnit
  usage : Option ℤ := none
  usageEstimated : Option Bool := none
  errorClass : Option String := none
  sendIntentAt : Option Time := none
  backendFinishedAt : Option Time := none
  resultCommittedAt : Option Time := none
  unknownAt : Option Time := none
  createdAt : Time
  deriving DecidableEq

/-- How a committed artifact relates to its operation. -/
inductive Disposition
  | result | lateCancelled | lateTerminal
  deriving DecidableEq, Repr

/-- A row of `runtime_artifacts`. -/
structure ArtifactRow where
  objectKey : String
  tenantId : String
  operationId : String
  attemptId : String
  manifest : Artifact
  disposition : Disposition
  deriving DecidableEq

/-- The `deadline` entry of a run's input: what the caller wrote there, or the
deadline the root was accepted with. -/
inductive DeadlineEntry
  | given (text : String)
  | accepted (deadline : Time)
  deriving DecidableEq

/-- The specification of a run: the entries beside `input`, and its `input`. -/
structure RunSpec where
  header : String
  input : String
  configuration : Option String := none
  deadline : Option DeadlineEntry := none
  deriving DecidableEq

/-- The identities of outbox events: `start:`, `cancel:` and `complete:` followed
by a run or a binding. -/
inductive EventId
  | start (rootId : String)
  | cancel (rootId : String)
  | complete (bindingId : String)
  deriving DecidableEq

/-- What an outbox event asks its publisher to do. -/
inductive EventKind
  | startWorkflow | cancelWorkflow | completeActivity
  deriving DecidableEq

/-- The payload of an outbox event. -/
inductive EventPayload
  | intent (spec : RunSpec)
  | run (rootId : String)
  | binding (bindingId : String)
  deriving DecidableEq

/-- A row of `runtime_outbox`. -/
structure OutboxRow where
  eventId : EventId
  kind : EventKind
  aggregateId : String
  payload : EventPayload
  availableAt : Time
  ownerId : Option String := none
  leaseExpiresAt : Option Time := none
  deliveredAt : Option Time := none
  deliveries : ℕ := 0
  createdAt : Time
  deriving DecidableEq

/-- A row of `runtime_completion_bindings`. -/
structure BindingRow where
  bindingId : String
  operationId : String
  taskToken : String
  createdAt : Time
  deriving DecidableEq

/-- A row of `runtime_submissions`. -/
structure SubmissionRow where
  runId : String
  tenantId : String
  submissionKey : String
  inputDigest : String
  spec : RunSpec
  deriving DecidableEq

/-- A row of `runtime_owners`. -/
structure OwnerRow where
  ownerId : String
  bootGeneration : String
  leaseExpiresAt : Time
  updatedAt : Time
  deriving DecidableEq

/-- A row of `runtime_admission_models`. -/
structure AdmissionModelRow where
  modelProfile : String
  deriving DecidableEq

/-- A row of `runtime_controller_updates`. -/
structure ControllerUpdateRow where
  updateId : ℕ
  poolId : String
  envelopeVersion : ℕ
  target : ℤ
  reason : String
  deriving DecidableEq

/-- A row of `runtime_direct_attempts`. No current code inserts one. -/
structure DirectAttemptRow where
  attemptId : String
  poolId : String
  engineEpoch : String
  ownerId : String
  state : DirectState := .reserved
  computeHeld : Bool := true
  leaseExpiresAt : Time
  deadline : Time
  backendFinishedAt : Option Time := none
  unknownAt : Option Time := none
  errorClass : Option String := none
  createdAt : Time
  deriving DecidableEq

/-- A row of `runtime_direct_waiters`. No current code inserts one. -/
structure DirectWaiterRow where
  requestId : String
  ownerId : String
  deadline : Time
  deriving DecidableEq

instance : Keyed RootRow String := ⟨RootRow.rootId⟩
instance : Keyed BudgetRow (String × Resource) := ⟨fun row => (row.rootId, row.unit)⟩
instance : Keyed GroupRow String := ⟨GroupRow.groupId⟩
instance : Keyed PoolRow String := ⟨PoolRow.poolId⟩
instance : Keyed OperationRow String := ⟨OperationRow.operationId⟩
instance : Keyed AttemptRow String := ⟨AttemptRow.attemptId⟩
instance : Keyed ArtifactRow (String × String) := ⟨fun row => (row.objectKey, row.attemptId)⟩
instance : Keyed OutboxRow EventId := ⟨OutboxRow.eventId⟩
instance : Keyed BindingRow String := ⟨BindingRow.bindingId⟩
instance : Keyed SubmissionRow String := ⟨SubmissionRow.runId⟩
instance : Keyed OwnerRow String := ⟨OwnerRow.ownerId⟩
instance : Keyed AdmissionModelRow String := ⟨AdmissionModelRow.modelProfile⟩
instance : Keyed ControllerUpdateRow ℕ := ⟨ControllerUpdateRow.updateId⟩
instance : Keyed DirectAttemptRow String := ⟨DirectAttemptRow.attemptId⟩
instance : Keyed DirectWaiterRow String := ⟨DirectWaiterRow.requestId⟩

@[simp] theorem key_root (row : RootRow) : Keyed.key row = row.rootId := rfl
@[simp] theorem key_budget (row : BudgetRow) : Keyed.key row = (row.rootId, row.unit) := rfl
@[simp] theorem key_group (row : GroupRow) : Keyed.key row = row.groupId := rfl
@[simp] theorem key_pool (row : PoolRow) : Keyed.key row = row.poolId := rfl
@[simp] theorem key_operation (row : OperationRow) : Keyed.key row = row.operationId := rfl
@[simp] theorem key_attempt (row : AttemptRow) : Keyed.key row = row.attemptId := rfl
@[simp] theorem key_artifact (row : ArtifactRow) :
    Keyed.key row = (row.objectKey, row.attemptId) := rfl
@[simp] theorem key_outbox (row : OutboxRow) : Keyed.key row = row.eventId := rfl
@[simp] theorem key_binding (row : BindingRow) : Keyed.key row = row.bindingId := rfl
@[simp] theorem key_submission (row : SubmissionRow) : Keyed.key row = row.runId := rfl
@[simp] theorem key_owner (row : OwnerRow) : Keyed.key row = row.ownerId := rfl

/-- The ledger. -/
structure Db where
  authority : Authority
  roots : Table RootRow
  budgets : Table BudgetRow
  groups : Table GroupRow
  pools : Table PoolRow
  operations : Table OperationRow
  attempts : Table AttemptRow
  artifacts : Table ArtifactRow
  outbox : Table OutboxRow
  bindings : Table BindingRow
  submissions : Table SubmissionRow
  owners : Table OwnerRow
  admissionModels : Table AdmissionModelRow
  controllerUpdates : Table ControllerUpdateRow
  directAttempts : Table DirectAttemptRow
  directWaiters : Table DirectWaiterRow

/-- The ledger as the migrations leave it. -/
def Db.empty (authority : Authority) : Db where
  authority := authority
  roots := .empty
  budgets := .empty
  groups := .empty
  pools := .empty
  operations := .empty
  attempts := .empty
  artifacts := .empty
  outbox := .empty
  bindings := .empty
  submissions := .empty
  owners := .empty
  admissionModels := .empty
  controllerUpdates := .empty
  directAttempts := .empty
  directWaiters := .empty

/-- What a statement can lock: a row of a table, an entry of a unique index beside
the primary key, or an advisory lock. -/
inductive Key
  | authority
  | root (id : String)
  | budget (rootId : String) (unit : Resource)
  | group (id : String)
  | pool (id : String)
  | operation (id : String)
  | attempt (id : String)
  | attemptNumber (operationId : String) (number : ℕ)
  | artifact (objectKey attemptId : String)
  | event (id : EventId)
  | binding (id : String)
  | submission (runId : String)
  | submissionKey (tenantId key : String)
  | owner (id : String)
  | admissionModel (modelProfile : String)
  | controllerUpdate (id : ℕ)
  | directAttempt (id : String)
  | directWaiter (requestId : String)
  | advisory (seed : ℕ) (identity : String)
  deriving DecidableEq

/-- The writes of the ledger. -/
inductive Write
  | root (row : RootRow)
  | budget (row : BudgetRow)
  | group (row : GroupRow)
  | pool (row : PoolRow)
  | operation (row : OperationRow)
  | attempt (row : AttemptRow)
  | artifact (row : ArtifactRow)
  | event (row : OutboxRow)
  | binding (row : BindingRow)
  | submission (row : SubmissionRow)
  | owner (row : OwnerRow)
  | admissionModel (row : AdmissionModelRow)
  | controllerUpdate (row : ControllerUpdateRow)
  | directAttempt (row : DirectAttemptRow)
  | dropDirectAttempt (id : String)
  | dropDirectWaiter (requestId : String)

/-- The tables that statements write. -/
inductive TableName
  | roots | budgets | groups | pools | operations | attempts | artifacts | outbox | bindings
  | submissions | owners | admissionModels | controllerUpdates | directAttempts | directWaiters
  deriving DecidableEq

/-- The table of a write. -/
def Write.table : Write → TableName
  | .root _ => .roots
  | .budget _ => .budgets
  | .group _ => .groups
  | .pool _ => .pools
  | .operation _ => .operations
  | .attempt _ => .attempts
  | .artifact _ => .artifacts
  | .event _ => .outbox
  | .binding _ => .bindings
  | .submission _ => .submissions
  | .owner _ => .owners
  | .admissionModel _ => .admissionModels
  | .controllerUpdate _ => .controllerUpdates
  | .directAttempt _ | .dropDirectAttempt _ => .directAttempts
  | .dropDirectWaiter _ => .directWaiters

/-- The tables that no rule about roots, operations, attempts or events looks at. -/
def TableName.minor : TableName → Bool
  | .artifacts | .submissions | .owners | .admissionModels | .controllerUpdates
  | .directAttempts | .directWaiters => true
  | _ => false

/-- The content of a row. -/
inductive Cell
  | authority (row : Authority)
  | root (row : Option RootRow)
  | budget (row : Option BudgetRow)
  | group (row : Option GroupRow)
  | pool (row : Option PoolRow)
  | operation (row : Option OperationRow)
  | attempt (row : Option AttemptRow)
  | artifact (row : Option ArtifactRow)
  | event (row : Option OutboxRow)
  | binding (row : Option BindingRow)
  | submission (row : Option SubmissionRow)
  | owner (row : Option OwnerRow)
  | admissionModel (row : Option AdmissionModelRow)
  | controllerUpdate (row : Option ControllerUpdateRow)
  | directAttempt (row : Option DirectAttemptRow)
  | directWaiter (row : Option DirectWaiterRow)
  | blank

/-- Perform one write. -/
def Write.apply : Write → Db → Db
  | .root row, d => { d with roots := d.roots.put row }
  | .budget row, d => { d with budgets := d.budgets.put row }
  | .group row, d => { d with groups := d.groups.put row }
  | .pool row, d => { d with pools := d.pools.put row }
  | .operation row, d => { d with operations := d.operations.put row }
  | .attempt row, d => { d with attempts := d.attempts.put row }
  | .artifact row, d => { d with artifacts := d.artifacts.put row }
  | .event row, d => { d with outbox := d.outbox.put row }
  | .binding row, d => { d with bindings := d.bindings.put row }
  | .submission row, d => { d with submissions := d.submissions.put row }
  | .owner row, d => { d with owners := d.owners.put row }
  | .admissionModel row, d => { d with admissionModels := d.admissionModels.put row }
  | .controllerUpdate row, d => { d with controllerUpdates := d.controllerUpdates.put row }
  | .directAttempt row, d => { d with directAttempts := d.directAttempts.put row }
  | .dropDirectAttempt id, d => { d with directAttempts := d.directAttempts.erase id }
  | .dropDirectWaiter id, d => { d with directWaiters := d.directWaiters.erase id }

/-- The row a write replaces. -/
def Write.key : Write → Key
  | .root row => .root row.rootId
  | .budget row => .budget row.rootId row.unit
  | .group row => .group row.groupId
  | .pool row => .pool row.poolId
  | .operation row => .operation row.operationId
  | .attempt row => .attempt row.attemptId
  | .artifact row => .artifact row.objectKey row.attemptId
  | .event row => .event row.eventId
  | .binding row => .binding row.bindingId
  | .submission row => .submission row.runId
  | .owner row => .owner row.ownerId
  | .admissionModel row => .admissionModel row.modelProfile
  | .controllerUpdate row => .controllerUpdate row.updateId
  | .directAttempt row => .directAttempt row.attemptId
  | .dropDirectAttempt id => .directAttempt id
  | .dropDirectWaiter id => .directWaiter id

/-- Read the content of a row. -/
def Db.cell (d : Db) : Key → Cell
  | .authority => .authority d.authority
  | .root id => .root (d.roots.find? id)
  | .budget rootId unit => .budget (d.budgets.find? (rootId, unit))
  | .group id => .group (d.groups.find? id)
  | .pool id => .pool (d.pools.find? id)
  | .operation id => .operation (d.operations.find? id)
  | .attempt id => .attempt (d.attempts.find? id)
  | .artifact objectKey attemptId => .artifact (d.artifacts.find? (objectKey, attemptId))
  | .event id => .event (d.outbox.find? id)
  | .binding id => .binding (d.bindings.find? id)
  | .submission runId => .submission (d.submissions.find? runId)
  | .owner id => .owner (d.owners.find? id)
  | .admissionModel id => .admissionModel (d.admissionModels.find? id)
  | .controllerUpdate id => .controllerUpdate (d.controllerUpdates.find? id)
  | .directAttempt id => .directAttempt (d.directAttempts.find? id)
  | .directWaiter id => .directWaiter (d.directWaiters.find? id)
  | .attemptNumber .. | .submissionKey .. | .advisory .. => .blank

theorem Db.cell_apply_of_ne {k : Key} {w : Write} (d : Db) (different : k ≠ w.key) :
    (w.apply d).cell k = d.cell k := by
  cases w <;> cases k <;> first
    | rfl
    | exact congrArg _ (Table.find?_put_of_ne fun same => different (by cases same; rfl))
    | exact congrArg _ (Table.find?_erase.trans
        (if_neg fun same => different (by cases same; rfl)))

theorem Db.cell_apply_self (w : Write) (d d' : Db) :
    (w.apply d).cell w.key = (w.apply d').cell w.key := by
  cases w <;> simp [Write.apply, Write.key, Db.cell, Keyed.key]

instance : RowStore Db Write Key where
  apply := Write.apply
  key := Write.key
  Cell := Cell
  cell := fun k d => d.cell k
  cell_apply_of_ne := Db.cell_apply_of_ne
  cell_apply_self := Db.cell_apply_self

end IntramindRuntime.Ledger
