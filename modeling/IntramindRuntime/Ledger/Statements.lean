import IntramindRuntime.Ledger.Rows
import IntramindRuntime.Library.RowStatements
import Mathlib.Data.List.Sort
import Mathlib.Data.Prod.Lex
import Mathlib.Data.String.Basic

/-!
# The SQL statements of the ledger

Every statement that a method of the store sends to PostgreSQL, grouped by the
table it locks or writes. A statement carries its parameters, among them the
clock readings it evaluates: `now` is the start of the transaction, `clock_timestamp()`
is read per row where the source reads it per row.

## Main definitions

* `RootSql`, `OperationSql`, `AttemptSql`, … — the statements
* `Candidate`, `Joined` — the rows of the queries that join tables
* `Sql` — a statement of the ledger, and its meaning (`Engine` instance)

## Main results

* `RootSql.exec_table`, `AttemptSql.exec_table`, … — a statement writes only rows of
  its own table
* `Sql.mayWrite_of_mem` — the same for all statements at once
-/

namespace IntramindRuntime.Ledger

open Library

/-- `runtime_roots`. -/
def roots : Access Db Write Key RootRow := ⟨Db.roots, .root, .root⟩
/-- `runtime_resource_budgets`. -/
def budgets : Access Db Write Key BudgetRow := ⟨Db.budgets, fun k => .budget k.1 k.2, .budget⟩
/-- `runtime_groups`. -/
def groups : Access Db Write Key GroupRow := ⟨Db.groups, .group, .group⟩
/-- `runtime_pools`. -/
def pools : Access Db Write Key PoolRow := ⟨Db.pools, .pool, .pool⟩
/-- `runtime_operations`. -/
def operations : Access Db Write Key OperationRow := ⟨Db.operations, .operation, .operation⟩
/-- `runtime_attempts`. -/
def attempts : Access Db Write Key AttemptRow := ⟨Db.attempts, .attempt, .attempt⟩
/-- `runtime_artifacts`. -/
def artifacts : Access Db Write Key ArtifactRow :=
  ⟨Db.artifacts, fun k => .artifact k.1 k.2, .artifact⟩
/-- `runtime_outbox`. -/
def outbox : Access Db Write Key OutboxRow := ⟨Db.outbox, .event, .event⟩
/-- `runtime_completion_bindings`. -/
def bindings : Access Db Write Key BindingRow := ⟨Db.bindings, .binding, .binding⟩
/-- `runtime_submissions`. -/
def submissions : Access Db Write Key SubmissionRow := ⟨Db.submissions, .submission, .submission⟩
/-- `runtime_owners`. -/
def owners : Access Db Write Key OwnerRow := ⟨Db.owners, .owner, .owner⟩
/-- `runtime_admission_models`. -/
def admissionModels : Access Db Write Key AdmissionModelRow :=
  ⟨Db.admissionModels, .admissionModel, .admissionModel⟩
/-- `runtime_controller_updates`. -/
def controllerUpdates : Access Db Write Key ControllerUpdateRow :=
  ⟨Db.controllerUpdates, .controllerUpdate, .controllerUpdate⟩
/-- `runtime_direct_attempts`. -/
def directAttempts : Access Db Write Key DirectAttemptRow :=
  ⟨Db.directAttempts, .directAttempt, .directAttempt⟩
/-- `runtime_direct_waiters`. -/
def directWaiters : Access Db Write Key DirectWaiterRow :=
  ⟨Db.directWaiters, .directWaiter, fun row => .dropDirectWaiter row.requestId⟩

/-- The condition of a statement that names its row by the primary key alone. -/
abbrev always {ρ : Type} : ρ → Bool := fun _ => true

namespace Db

/-- `EXISTS (SELECT 1 FROM runtime_owners ow WHERE ow.owner_id=… AND ow.lease_expires_at>…)`. -/
def ownerAlive (d : Db) (ownerId : String) (at_ : Time) : Bool :=
  (d.owners.find? ownerId).any fun owner => decide (at_ < owner.leaseExpiresAt)

/-- The pending operations of a root. -/
def pendingOf (d : Db) (rootId : String) : List OperationRow :=
  d.operations.rows.filter fun op => op.rootId = rootId && !op.state.terminal

end Db

/-! ### Roots and budgets -/

/-- Statements on `runtime_roots`. -/
inductive RootSql : Type → Type
  | forUpdate (rootId : String) : RootSql (Option RootRow)
  | forUpdateOfTenant (rootId tenantId : String) : RootSql (Option RootRow)
  | ofTenant (rootId tenantId : String) : RootSql (Option RootRow)
  | countRunning : RootSql ℕ
  | insert (row : RootRow) : RootSql (Except Violation Unit)
  | countOperation (rootId : String) : RootSql (Option RootRow)
  | serve (rootId : String) (clock : ℤ) : RootSql (Option RootRow)
  | charge (rootId : String) (bound : ℤ) : RootSql (Option RootRow)
  | settle (rootId : String) (bound usage : ℤ) : RootSql (Except Violation (Option RootRow))
  | overspend (rootId : String) (now : Time) : RootSql (Option RootRow)
  | cancel (rootId : String) (now : Time) : RootSql (Option RootRow)
  | finish (rootId : String) (at_ : Time) (state : RootState) (result : Option Artifact)
      (reason : Option String) : RootSql (Option RootRow)
  | expire (now : Time) : RootSql ℕ

namespace RootRow

/-- `attempts=attempts+1, reserved=reserved+:bound`. -/
def charge (bound : ℤ) (row : RootRow) : RootRow :=
  { row with attempts := row.attempts + 1, reserved := row.reserved + bound }

/-- `reserved=reserved-:bound, spent=spent+:usage`. -/
def settle (bound usage : ℤ) (row : RootRow) : RootRow :=
  { row with reserved := row.reserved - bound, spent := row.spent + usage }

/-- `CHECK (reserved >= 0)`, `CHECK (spent >= 0)`. -/
def checks (row : RootRow) : Bool := decide (0 ≤ row.reserved) && decide (0 ≤ row.spent)

/-- The root fails because its observed usage exceeds a budget. -/
def overspend (now : Time) (row : RootRow) : RootRow :=
  { row with
    state := .failed
    terminalReason := some "observed_usage_exceeds_budget"
    finishedAt := some now }

/-- The root is cancelled by its user. -/
def cancel (now : Time) (row : RootRow) : RootRow :=
  { row with
    cancelRequested := true
    state := .cancelled
    terminalReason := some "user_cancelled"
    finishedAt := some (row.finishedAt.getD now) }

/-- The root is finished as requested, or fails if its deadline has passed. -/
def finish (at_ : Time) (state : RootState) (result : Option Artifact) (reason : Option String)
    (row : RootRow) : RootRow :=
  { row with
    state := if row.deadline ≤ at_ then .failed else state
    result := if row.deadline ≤ at_ then none else result
    terminalReason := if row.deadline ≤ at_ then some "deadline_exceeded" else reason
    finishedAt := some at_ }

/-- The root fails at its deadline. -/
def expire (now : Time) (row : RootRow) : RootRow :=
  { row with
    state := .failed
    terminalReason := some "deadline_exceeded"
    finishedAt := some now }

end RootRow

/-- The meaning of the statements on `runtime_roots`. -/
def RootSql.exec {β : Type} (statement : RootSql β) (snapshot current : Db) :
    Outcome Write Key β :=
  match statement with
  | .forUpdate rootId => roots.selectForUpdate rootId always snapshot current
  | .forUpdateOfTenant rootId tenantId =>
    roots.selectForUpdate rootId (fun root => root.tenantId = tenantId) snapshot current
  | .ofTenant rootId tenantId =>
    .read (roots.find? rootId (fun root => root.tenantId = tenantId) snapshot)
  | .countRunning => .read (snapshot.roots.rows.filter fun root => root.state = .running).length
  | .insert row => roots.insert current row
  | .countOperation rootId =>
    roots.update rootId always
      (fun root => { root with operationCount := root.operationCount + 1 }) snapshot current
  | .serve rootId clock =>
    roots.update rootId always (fun root => { root with lastServed := clock }) snapshot current
  | .charge rootId bound => roots.update rootId always (RootRow.charge bound) snapshot current
  | .settle rootId bound usage =>
    roots.updateChecked rootId always RootRow.checks (RootRow.settle bound usage) snapshot current
  | .overspend rootId now =>
    roots.update rootId (fun root => root.state = .running) (RootRow.overspend now)
      snapshot current
  | .cancel rootId now => roots.update rootId always (RootRow.cancel now) snapshot current
  | .finish rootId at_ state result reason =>
    roots.update rootId always (RootRow.finish at_ state result reason) snapshot current
  | .expire now =>
    roots.updateAll (fun root => root.state = .running && decide (root.deadline ≤ now))
      (RootRow.expire now) snapshot current

/-- Statements on `runtime_resource_budgets`. -/
inductive BudgetSql : Type → Type
  | insert (row : BudgetRow) : BudgetSql (Except Violation Unit)
  | find (rootId : String) (unit : Resource) : BudgetSql (Option BudgetRow)
  | forUpdate (rootId : String) (unit : Resource) : BudgetSql (Option BudgetRow)
  | charge (rootId : String) (unit : Resource) (bound : ℤ) : BudgetSql (Option BudgetRow)
  | settle (rootId : String) (unit : Resource) (bound usage : ℤ) :
      BudgetSql (Except Violation (Option BudgetRow))

namespace BudgetRow

/-- `reserved=reserved+:bound`. -/
def charge (bound : ℤ) (row : BudgetRow) : BudgetRow := { row with reserved := row.reserved + bound }

/-- `reserved=reserved-:bound, spent=spent+:usage`. -/
def settle (bound usage : ℤ) (row : BudgetRow) : BudgetRow :=
  { row with reserved := row.reserved - bound, spent := row.spent + usage }

/-- `CHECK (reserved >= 0)`, `CHECK (spent >= 0)`. -/
def checks (row : BudgetRow) : Bool := decide (0 ≤ row.reserved) && decide (0 ≤ row.spent)

end BudgetRow

/-- The meaning of the statements on `runtime_resource_budgets`. -/
def BudgetSql.exec {β : Type} (statement : BudgetSql β) (snapshot current : Db) :
    Outcome Write Key β :=
  match statement with
  | .insert row => budgets.insert current row
  | .find rootId unit => .read (snapshot.budgets.find? (rootId, unit))
  | .forUpdate rootId unit => budgets.selectForUpdate (rootId, unit) always snapshot current
  | .charge rootId unit bound =>
    budgets.update (rootId, unit) always (BudgetRow.charge bound) snapshot current
  | .settle rootId unit bound usage =>
    budgets.updateChecked (rootId, unit) always BudgetRow.checks (BudgetRow.settle bound usage)
      snapshot current

/-! ### Operations -/

/-- An operation that an executor may take, as the candidate scan sees it. -/
structure Candidate where
  operation : OperationRow
  rootPriority : Priority
  observedAt : Time

/-- How many pending operations count against the two materialization limits. -/
structure PendingCounts where
  rootPending : ℕ
  modelPending : ℕ

/-- Statements on `runtime_operations`. -/
inductive OperationSql : Type → Type
  | lockIdentity (operationId : String) : OperationSql Unit
  | find (operationId : String) : OperationSql (Option OperationRow)
  | ofTenant (operationId tenantId : String) : OperationSql (Option OperationRow)
  | pendingCounts (rootId modelProfile : String) : OperationSql PendingCounts
  | insert (row : OperationRow) : OperationSql (Except Violation Unit)
  /-- The candidate scan, or nothing if a number is out of range. -/
  | candidates (pool : PoolRow) (now : Time) (ranking observed : String → Time) :
      OperationSql (Option (List Candidate))
  | claimable (operationId : String) : OperationSql (Option OperationRow)
  | forUpdate (operationId : String) : OperationSql (Option OperationRow)
  | awaitBudget (operationId : String) : OperationSql (Option OperationRow)
  | execute (operationId attemptId : String) : OperationSql (Option OperationRow)
  | countAttempt (operationId : String) : OperationSql (Option OperationRow)
  | succeed (operationId : String) (result : Artifact) : OperationSql (Option OperationRow)
  | reconcile (operationId reason : String) : OperationSql (Option OperationRow)
  | retry (operationId reason : String) (retryAt : Time) : OperationSql (Option OperationRow)
  | terminal (operationId : String) (state : OperationState) (reason : String) :
      OperationSql (Option OperationRow)
  | requeue (operationId : String) : OperationSql (Option OperationRow)
  | lose (operationId : String) : OperationSql (Option OperationRow)
  | recover (operationId attemptId reason : String) (now : Time) :
      OperationSql (Option OperationRow)
  | pendingOf (rootId : String) : OperationSql (List String)
  | countPendingOf (rootId : String) : OperationSql ℕ
  | pastDeadline (clock : String → Time) : OperationSql (List String)
  | pastRootDeadline (now : Time) : OperationSql (List String)
  | waiting : OperationSql (List OperationRow)
  | ofEndedRoots : OperationSql (List String)

/-- The service rank of a waiting operation: lower ranks go first, and long
waiting lifts every class to the front. -/
def serviceRank (priority : Priority) (waited : Time) : ℕ :=
  match priority with
  | .qa => 0
  | .interactive | .userTask => if 60000000 ≤ waited then 0 else 1
  | .background => if 120000000 ≤ waited then 0 else 2
  | .maintenance => if 300000000 ≤ waited then 0 else 3

namespace Db

/-- What the scan asks of an operation and its root, up to where it computes the bound. -/
def considers (pool : PoolRow) (now : Time) (op : OperationRow) (root : RootRow) : Bool :=
  op.state.waiting && op.retryAt.all (fun retryAt => decide (retryAt ≤ now)) &&
  root.state = .running && !root.cancelRequested && decide (now < root.deadline) &&
  op.spec.modelProfile = pool.modelProfile && op.spec.kind = pool.spec.kind &&
  op.spec.capacityProfileId.all (fun profile => profile = pool.spec.profileId)

/-- The largest `bigint`. -/
def maxBigint : ℤ := 9223372036854775807

/-- The scan raises: the limit that it is given, or the bound or the count of texts of an
operation, is no `bigint`. PostgreSQL may take the conditions of a query in any order; here they
are taken as they are written. -/
def scanRaises (d : Db) (pool : PoolRow) (now : Time) : Bool :=
  decide (maxBigint < pool.spec.requestLimit) ||
    d.operations.rows.any fun op => (d.roots.find? op.rootId).any fun root =>
      considers pool now op root &&
        (decide (maxBigint < op.spec.budgetBound) ||
          decide (op.spec.budgetBound ≤ pool.spec.requestLimit) &&
            decide (pool.spec.kind = .embedding) && decide (maxBigint < op.spec.textsCount))

/-- The root of an operation, when the pool can take the operation now. -/
def candidateRoot (d : Db) (pool : PoolRow) (now : Time) (op : OperationRow) : Option RootRow :=
  (d.roots.find? op.rootId).filter fun root =>
    considers pool now op root && decide (op.spec.budgetBound ≤ pool.spec.requestLimit) &&
    (pool.spec.kind ≠ .embedding || decide (op.spec.textsCount ≤ pool.spec.maxBatchSize)) &&
    (pool.spec.kind ≠ .embedding || op.spec.modelRevision? = some pool.spec.modelRevision) &&
    decide (op.spec.requiredCapabilities ⊆ pool.spec.capabilities)

/-- The latest service of any root of a tenant. -/
def tenantServed (d : Db) (tenantId : String) : ℤ :=
  (d.roots.rows.filter fun root => root.tenantId = tenantId).foldr
    (fun root latest => max root.lastServed latest) 0

/-- The sort key of a candidate. -/
def candidateOrder (d : Db) (ranking : String → Time) (op : OperationRow) (root : RootRow) :
    ℕ ×ₗ ℤ ×ₗ ℤ ×ₗ Time ×ₗ String :=
  toLex (serviceRank root.priority
      (ranking op.operationId - max op.createdAt root.lastServed),
    toLex (d.tenantServed root.tenantId, toLex (root.lastServed,
      toLex (op.createdAt, op.operationId))))

/-- The candidates of `reserve_next`. -/
def candidates (d : Db) (pool : PoolRow) (now : Time) (ranking observed : String → Time) :
    List Candidate :=
  let found := d.operations.rows.filterMap fun op =>
    (d.candidateRoot pool now op).map fun root => (op, root)
  let sorted := found.insertionSort fun a b =>
    d.candidateOrder ranking a.1 a.2 ≤ d.candidateOrder ranking b.1 b.2
  (sorted.take 64).map fun (op, root) => ⟨op, root.priority, observed op.operationId⟩

theorem mem_of_candidates {d : Db} {pool : PoolRow} {now : Time} {ranking observed : String → Time}
    {candidate : Candidate} (member : candidate ∈ d.candidates pool now ranking observed) :
    candidate.operation ∈ d.operations.rows := by
  simp only [candidates, List.mem_map] at member
  obtain ⟨⟨op, root⟩, member, rfl⟩ := member
  have member := List.mem_of_mem_take member
  rw [List.mem_insertionSort, List.mem_filterMap] at member
  obtain ⟨row, inTable, found⟩ := member
  obtain ⟨root', -, same⟩ := Option.map_eq_some_iff.mp found
  cases same
  exact inTable

end Db

namespace OperationRow

/-- The operation ends, unless it has ended already. -/
def terminate (state : OperationState) (reason : String) (row : OperationRow) : OperationRow :=
  { row with state := state, waitReason := some reason }

/-- An executor takes the operation. -/
def execute (attemptId : String) (row : OperationRow) : OperationRow :=
  { row with state := .executing, activeAttempt := some attemptId, waitReason := none }

/-- The operation has its result. -/
def succeed (result : Artifact) (row : OperationRow) : OperationRow :=
  { row with state := .succeeded, result := some result, waitReason := none }

/-- The outcome of the operation's attempt is not known. -/
def reconcile (reason : String) (row : OperationRow) : OperationRow :=
  { row with state := .reconciling, waitReason := some reason }

/-- The operation waits for another attempt. -/
def retry (reason : String) (retryAt : Time) (row : OperationRow) : OperationRow :=
  { row with state := .retryWait, waitReason := some reason, retryAt := some retryAt }

/-- The operation is ready again. -/
def requeue (row : OperationRow) : OperationRow :=
  { row with state := .ready, activeAttempt := none }

/-- The operation waits for another attempt after its engine was recovered. -/
def recover (reason : String) (now : Time) (row : OperationRow) : OperationRow :=
  { row with
    state := .retryWait
    activeAttempt := none
    waitReason := some reason
    retryAt := some now }

end OperationRow

/-- The meaning of the statements on `runtime_operations`. -/
def OperationSql.exec {β : Type} (statement : OperationSql β) (busy : Key → Bool)
    (snapshot current : Db) : Outcome Write Key β :=
  match statement with
  | .lockIdentity operationId => ⟨[.advisory 3472 operationId], [], ()⟩
  | .find operationId => .read (snapshot.operations.find? operationId)
  | .ofTenant operationId tenantId =>
    .read (operations.find? operationId (fun op => op.tenantId = tenantId) snapshot)
  | .pendingCounts rootId modelProfile => .read
    { rootPending := (snapshot.operations.rows.filter fun op =>
        !op.state.terminal && op.rootId = rootId).length
      modelPending := (snapshot.operations.rows.filter fun op =>
        !op.state.terminal && op.spec.modelProfile = modelProfile).length }
  | .insert row => operations.insert current row
  | .candidates pool now ranking observed =>
    .read <| if snapshot.scanRaises pool now then none
      else some (snapshot.candidates pool now ranking observed)
  | .claimable operationId =>
    operations.selectSkipLocked operationId always busy snapshot current
  | .forUpdate operationId => operations.selectForUpdate operationId always snapshot current
  | .awaitBudget operationId =>
    operations.update operationId always
      (fun op => { op with waitReason := some "root_budget" }) snapshot current
  | .execute operationId attemptId =>
    operations.update operationId always (OperationRow.execute attemptId) snapshot current
  | .countAttempt operationId =>
    operations.update operationId always
      (fun op => { op with attempts := op.attempts + 1 }) snapshot current
  | .succeed operationId result =>
    operations.update operationId always (OperationRow.succeed result) snapshot current
  | .reconcile operationId reason =>
    operations.update operationId always (OperationRow.reconcile reason) snapshot current
  | .retry operationId reason retryAt =>
    operations.update operationId always (OperationRow.retry reason retryAt) snapshot current
  | .terminal operationId state reason =>
    operations.update operationId (fun op => !op.state.terminal)
      (OperationRow.terminate state reason) snapshot current
  | .requeue operationId =>
    operations.update operationId (fun op => !op.state.terminal) OperationRow.requeue
      snapshot current
  | .lose operationId =>
    operations.update operationId (fun op => !op.state.terminal)
      (OperationRow.reconcile "unknown_compute_or_result") snapshot current
  | .recover operationId attemptId reason now =>
    operations.update operationId (fun op => op.activeAttempt = some attemptId)
      (OperationRow.recover reason now) snapshot current
  | .pendingOf rootId => .read ((snapshot.pendingOf rootId).map OperationRow.operationId)
  | .countPendingOf rootId => .read (snapshot.pendingOf rootId).length
  | .pastDeadline clock => .read <|
    (snapshot.operations.rows.filter fun op => !op.state.terminal &&
      op.spec.deadline.any fun deadline => decide (deadline ≤ clock op.operationId)).map
        OperationRow.operationId
  | .pastRootDeadline now => .read <|
    (snapshot.operations.rows.filter fun op => op.state.waiting &&
      (snapshot.roots.find? op.rootId).any fun root => decide (root.deadline ≤ now)).map
        OperationRow.operationId
  | .waiting => .read <|
    ((snapshot.operations.rows.filter fun op => op.state.waiting).insertionSort
      fun a b => a.createdAt ≤ b.createdAt).take 256
  | .ofEndedRoots => .read <|
    (snapshot.operations.rows.filter fun op => !op.state.terminal &&
      (snapshot.roots.find? op.rootId).any fun root => root.state ≠ .running).map
        OperationRow.operationId

/-! ### Attempts -/

/-- An attempt joined to its operation and its root. -/
structure Joined where
  attempt : AttemptRow
  operation : OperationRow
  root : RootRow

/-- An attempt and the root of its operation. -/
structure Expired where
  attempt : AttemptRow
  rootId : String

/-- Statements on `runtime_attempts`. -/
inductive AttemptSql : Type → Type
  | owned (attemptId : String) : AttemptSql (Option Joined)
  | lastNumber (operationId : String) : AttemptSql ℕ
  | insert (row : AttemptRow) : AttemptSql (Except Violation Unit)
  | sendIntent (attemptId : String) (now : Time) : AttemptSql (Option AttemptRow)
  | renew (attemptId : String) (until_ : Time) : AttemptSql (Option AttemptRow)
  | backendFinished (attemptId : String) (now : Time) : AttemptSql (Option AttemptRow)
  | settle (attemptId : String) (usage : ℤ) (estimated : Bool) : AttemptSql (Option AttemptRow)
  | resultCommitted (attemptId : String) (now : Time) : AttemptSql (Option AttemptRow)
  | unknown (attemptId : String) (now : Time) (reason : String) : AttemptSql (Option AttemptRow)
  | fail (attemptId : String) (state : AttemptState) (reason : String) :
      AttemptSql (Option AttemptRow)
  | expired (now : Time) : AttemptSql (List Expired)
  | neverSent (attemptId : String) : AttemptSql (Option AttemptRow)
  | lost (attemptId : String) (now : Time) : AttemptSql (Option AttemptRow)
  | lostResults (now : Time) : AttemptSql (List String)
  | lostResult (attemptId : String) (now : Time) : AttemptSql (Option Joined)
  | ofEpoch (poolId engineEpoch : String) : AttemptSql (List Joined)
  | idleUnknown (poolId engineEpoch : String) (idleSince : Time) (attemptIds : List String) :
      AttemptSql (List Joined)
  | stopped (attemptId : String) (now : Time) (errorClass : String) :
      AttemptSql (Option AttemptRow)

namespace Db

/-- Join an attempt to its operation and root. -/
def join (d : Db) (attempt : AttemptRow) : Option Joined :=
  (d.operations.find? attempt.operationId).bind fun op =>
    (d.roots.find? op.rootId).map fun root => ⟨attempt, op, root⟩

theorem attempt_of_join {d : Db} {attempt : AttemptRow} {a : Joined}
    (joined : d.join attempt = some a) : a.attempt = attempt := by
  obtain ⟨op, -, joined⟩ := Option.bind_eq_some_iff.mp joined
  obtain ⟨root, -, rfl⟩ := Option.map_eq_some_iff.mp joined
  rfl

/-- `lease_expires_at<now()` without an owner whose own lease is alive. -/
def leaseLost (d : Db) (now : Time) (attempt : AttemptRow) : Bool :=
  decide (attempt.leaseExpiresAt < now) && !d.ownerAlive attempt.ownerId now

/-- The attempts that `reconcile_expired` takes back. -/
def isExpired (d : Db) (now : Time) (attempt : AttemptRow) (op : OperationRow) : Bool :=
  (d.leaseLost now attempt || (attempt.state = .reserved && op.state.terminal)) &&
  (attempt.state = .reserved || attempt.state = .sendIntent || attempt.state = .active ||
    attempt.state = .backendFinished) &&
  !(attempt.state = .backendFinished && !attempt.computeHeld)

/-- The attempts whose inference ended and whose result is lost. -/
def isLost (d : Db) (now : Time) (attempt : AttemptRow) : Bool :=
  !attempt.computeHeld && attempt.resultCommittedAt = none &&
  ((attempt.state = .backendFinished && d.leaseLost now attempt) ||
    (attempt.state = .unknown && attempt.backendFinishedAt.isSome))

end Db

namespace AttemptRow

/-- The attempt may now be sent. -/
def sendIntent (now : Time) (row : AttemptRow) : AttemptRow :=
  { row with
    state := .sendIntent
    computeHeld := true
    budgetHeld := true
    sendIntentAt := some now }

/-- The engine has ended the inference. -/
def backendFinished (now : Time) (row : AttemptRow) : AttemptRow :=
  { row with
    computeHeld := false
    backendFinishedAt := some (row.backendFinishedAt.getD now)
    state := .backendFinished }

/-- The attempt is charged for what it used. -/
def settle (usage : ℤ) (estimated : Bool) (row : AttemptRow) : AttemptRow :=
  { row with budgetHeld := false, usage := some usage, usageEstimated := some estimated }

/-- The result of the attempt is committed. -/
def resultCommitted (now : Time) (row : AttemptRow) : AttemptRow :=
  { row with state := .resultCommitted, resultCommittedAt := some now }

/-- What became of the attempt is not known. -/
def unknown (now : Time) (reason : String) (row : AttemptRow) : AttemptRow :=
  { row with
    state := .unknown
    errorClass := some reason
    unknownAt := some (row.unknownAt.getD now) }

/-- The attempt fails. -/
def fail (state : AttemptState) (reason : String) (row : AttemptRow) : AttemptRow :=
  { row with state := state, computeHeld := false, errorClass := some reason }

/-- The lease expired before the attempt was sent. -/
def neverSent (row : AttemptRow) : AttemptRow :=
  { row with
    state := .failedNotSent
    computeHeld := false
    errorClass := some "lease_expired_before_send" }

/-- The lease expired after the attempt was sent. -/
def lost (now : Time) (row : AttemptRow) : AttemptRow :=
  { row with
    state := .unknown
    unknownAt := some now
    errorClass := some "lease_expired_after_send" }

/-- The inference of the attempt is proven over. -/
def stopped (now : Time) (errorClass : String) (row : AttemptRow) : AttemptRow :=
  { row with
    state := .failed
    computeHeld := false
    backendFinishedAt := some (row.backendFinishedAt.getD now)
    errorClass := some errorClass }

end AttemptRow

/-- The meaning of the statements on `runtime_attempts`. A joined operation or
root is read from the snapshot: only the attempt is locked and read again. -/
def AttemptSql.exec {β : Type} (statement : AttemptSql β) (busy : Key → Bool)
    (snapshot current : Db) : Outcome Write Key β :=
  match statement with
  | .owned attemptId =>
    (attempts.selectForUpdate attemptId (fun a => (snapshot.join a).isSome) snapshot current).map
      fun found => found.bind snapshot.join
  | .lastNumber operationId => .read <|
    (snapshot.attempts.rows.filter fun a => a.operationId = operationId).foldr
      (fun a number => max a.attemptNumber number) 0
  | .insert row =>
    if current.attempts.rows.any fun a =>
        a.operationId = row.operationId && a.attemptNumber = row.attemptNumber then
      ⟨[], [], .error .violation⟩
    else
      let outcome := attempts.insert current row
      { outcome with locks := .attemptNumber row.operationId row.attemptNumber :: outcome.locks }
  | .sendIntent attemptId now =>
    attempts.update attemptId always (AttemptRow.sendIntent now) snapshot current
  | .renew attemptId until_ =>
    attempts.update attemptId always (fun a => { a with leaseExpiresAt := until_ })
      snapshot current
  | .backendFinished attemptId now =>
    attempts.update attemptId always (AttemptRow.backendFinished now) snapshot current
  | .settle attemptId usage estimated =>
    attempts.update attemptId always (AttemptRow.settle usage estimated) snapshot current
  | .resultCommitted attemptId now =>
    attempts.update attemptId always (AttemptRow.resultCommitted now) snapshot current
  | .unknown attemptId now reason =>
    attempts.update attemptId always (AttemptRow.unknown now reason) snapshot current
  | .fail attemptId state reason =>
    attempts.update attemptId always (AttemptRow.fail state reason) snapshot current
  | .expired now => .read <| snapshot.attempts.rows.filterMap fun a =>
    ((snapshot.operations.find? a.operationId).filter fun op => snapshot.isExpired now a op).map
      fun op => ⟨a, op.rootId⟩
  | .neverSent attemptId =>
    attempts.update attemptId always AttemptRow.neverSent snapshot current
  | .lost attemptId now => attempts.update attemptId always (AttemptRow.lost now) snapshot current
  | .lostResults now => .read <|
    ((snapshot.attempts.rows.filter fun a => snapshot.isLost now a).insertionSort
      fun a b => a.createdAt ≤ b.createdAt).map AttemptRow.attemptId
  | .lostResult attemptId now =>
    (attempts.selectSkipLocked attemptId
      (fun a => snapshot.isLost now a && (snapshot.join a).isSome) busy snapshot current).map
      fun found => found.bind snapshot.join
  | .ofEpoch poolId engineEpoch =>
    (attempts.selectAllForUpdate (fun a => a.poolId = poolId && a.engineEpoch = engineEpoch &&
      (a.computeHeld || a.budgetHeld) && (snapshot.join a).isSome) snapshot current).map
      fun found => (found.insertionSort fun a b => a.createdAt ≤ b.createdAt).filterMap
        snapshot.join
  | .idleUnknown poolId engineEpoch idleSince attemptIds =>
    (attempts.selectAllForUpdate (fun a => a.poolId = poolId && a.engineEpoch = engineEpoch &&
      a.computeHeld && a.state = .unknown &&
      a.unknownAt.any (fun unknownAt => decide (unknownAt < idleSince)) &&
      decide (a.attemptId ∈ attemptIds) && (snapshot.join a).isSome) snapshot current).map
      fun found => (found.insertionSort fun a b => a.createdAt ≤ b.createdAt).filterMap
        snapshot.join
  | .stopped attemptId now errorClass =>
    attempts.update attemptId always (AttemptRow.stopped now errorClass) snapshot current

/-! ### Groups and pools -/

/-- Statements on `runtime_groups` and `runtime_pools`. -/
inductive PoolSql : Type → Type
  | configureGroup (groupId : String) (hardCeiling : ℤ) : PoolSql Bool
  | group (groupId : String) : PoolSql (Option GroupRow)
  | forUpdate (poolId : String) : PoolSql (Option PoolRow)
  | find (poolId : String) : PoolSql (Option PoolRow)
  | specs : PoolSql (List PoolSpec)
  | unsettled (poolId : String) : PoolSql ℕ
  | computing (poolId : String) : PoolSql ℕ
  | configure (spec : PoolSpec) : PoolSql Bool
  | degrade (poolId : String) : PoolSql (Option PoolRow)
  | quiesce (poolId engineEpoch token : String) : PoolSql (Option PoolRow)
  | resume (poolId engineEpoch : String) (target : ℕ) : PoolSql (Option PoolRow)
  | stop (poolId : String) : PoolSql (Option PoolRow)
  | retarget (poolId : String) (target : ℕ) : PoolSql (Option PoolRow)

namespace Db

/-- `count(*) FROM runtime_inflight_attempts WHERE pool_id=… AND (compute_held OR budget_held)`. -/
def unsettled (d : Db) (poolId : String) : ℕ :=
  (d.attempts.rows.filter fun a => a.poolId = poolId && (a.computeHeld || a.budgetHeld)).length +
    (d.directAttempts.rows.filter fun a => a.poolId = poolId && a.computeHeld).length

/-- `count(*) FROM runtime_inflight_attempts WHERE pool_id=… AND compute_held`. -/
def computing (d : Db) (poolId : String) : ℕ :=
  (d.attempts.rows.filter fun a => a.poolId = poolId && a.computeHeld).length +
    (d.directAttempts.rows.filter fun a => a.poolId = poolId && a.computeHeld).length

end Db

namespace PoolRow

/-- The row that the first configuration of a pool inserts. -/
def ofSpec (spec : PoolSpec) : PoolRow where
  poolId := spec.poolId
  groupId := spec.groupId
  spec := spec
  engineEpoch := spec.engineEpoch
  target := spec.target
  hardCeiling := spec.hardCeiling
  contextLimit := spec.contextLimit
  modelProfile := spec.modelProfile
  validUntil := spec.validUntil

/-- A later configuration: a new epoch is healthy and not quiesced. -/
def configure (spec : PoolSpec) (row : PoolRow) : PoolRow :=
  { row with
    spec := spec
    engineEpoch := spec.engineEpoch
    target := spec.target
    hardCeiling := spec.hardCeiling
    contextLimit := spec.contextLimit
    modelProfile := spec.modelProfile
    validUntil := spec.validUntil
    health := if row.engineEpoch ≠ spec.engineEpoch then .healthy else row.health
    quiesceToken := if row.engineEpoch ≠ spec.engineEpoch then none else row.quiesceToken
    groupId := spec.groupId
    envelopeVersion := row.envelopeVersion + 1 }

end PoolRow

/-- The meaning of the statements on `runtime_groups` and `runtime_pools`. -/
def PoolSql.exec {β : Type} (statement : PoolSql β) (snapshot current : Db) :
    Outcome Write Key β :=
  match statement with
  | .configureGroup groupId hardCeiling =>
    groups.upsert always (fun group => { group with hardCeiling := hardCeiling }) current
      { groupId := groupId, hardCeiling := hardCeiling }
  | .group groupId => .read (snapshot.groups.find? groupId)
  | .forUpdate poolId => pools.selectForUpdate poolId always snapshot current
  | .find poolId => .read (snapshot.pools.find? poolId)
  | .specs => .read (snapshot.pools.rows.map PoolRow.spec)
  | .unsettled poolId => .read (snapshot.unsettled poolId)
  | .computing poolId => .read (snapshot.computing poolId)
  | .configure spec =>
    pools.upsert always (PoolRow.configure spec) current (PoolRow.ofSpec spec)
  | .degrade poolId =>
    pools.update poolId always (fun pool => { pool with target := 0, health := .degraded })
      snapshot current
  | .quiesce poolId engineEpoch token =>
    pools.update poolId (fun pool => pool.engineEpoch = engineEpoch)
      (fun pool => { pool with target := 0, health := .degraded, quiesceToken := some token })
      snapshot current
  | .resume poolId engineEpoch target =>
    pools.update poolId (fun pool => pool.engineEpoch = engineEpoch)
      (fun pool => { pool with target := target, health := .healthy, quiesceToken := none })
      snapshot current
  | .stop poolId =>
    pools.update poolId always (fun pool => { pool with target := 0, health := .unavailable })
      snapshot current
  | .retarget poolId target =>
    pools.update poolId always
      (fun pool => { pool with target := target, envelopeVersion := pool.envelopeVersion + 1 })
      snapshot current

/-! ### Outbox and bindings -/

/-- Statements on `runtime_outbox`. -/
inductive OutboxSql : Type → Type
  | insert (row : OutboxRow) : OutboxSql Unit
  | claim (ownerId : String) (now : Time) (limit : ℕ) : OutboxSql (List OutboxRow)
  | delivered (eventId : EventId) (ownerId : String) (delivery : ℕ) (now : Time) :
      OutboxSql (Option OutboxRow)
  | defer_ (eventId : EventId) (ownerId : String) (delivery : ℕ) (now delay : Time) :
      OutboxSql (Option OutboxRow)

namespace OutboxRow

/-- An event that a publisher may claim. -/
def claimable (now : Time) (row : OutboxRow) : Bool :=
  row.deliveredAt = none && decide (row.availableAt ≤ now) &&
    row.leaseExpiresAt.all fun expires => decide (expires < now)

/-- A publisher claims the event. -/
def claim (ownerId : String) (now : Time) (row : OutboxRow) : OutboxRow :=
  { row with
    ownerId := some ownerId
    leaseExpiresAt := some (now + 30000000)
    deliveries := row.deliveries + 1 }

/-- The claim `delivery` of `ownerId` is the current one. -/
def claimedBy (ownerId : String) (delivery : ℕ) (now : Time) (row : OutboxRow) : Bool :=
  row.ownerId = some ownerId && row.deliveries = delivery && row.deliveredAt = none &&
    row.leaseExpiresAt.any fun expires => decide (now < expires)

end OutboxRow

/-- The meaning of the statements on `runtime_outbox`. -/
def OutboxSql.exec {β : Type} (statement : OutboxSql β) (busy : Key → Bool)
    (snapshot current : Db) : Outcome Write Key β :=
  match statement with
  | .insert row => outbox.insertIgnore current row
  | .claim ownerId now limit =>
    let waiting := (snapshot.outbox.rows.filter (OutboxRow.claimable now)).insertionSort
      fun a b => a.createdAt ≤ b.createdAt
    let free := waiting.filterMap fun row =>
      (outbox.selectSkipLocked row.eventId (OutboxRow.claimable now) busy snapshot current).result
    let claimed := (free.take limit).map (OutboxRow.claim ownerId now)
    ⟨[], claimed.map Write.event, claimed⟩
  | .delivered eventId ownerId delivery now =>
    outbox.update eventId (OutboxRow.claimedBy ownerId delivery now)
      (fun row => { row with deliveredAt := some now }) snapshot current
  | .defer_ eventId ownerId delivery now delay =>
    outbox.update eventId (OutboxRow.claimedBy ownerId delivery now)
      (fun row =>
        { row with availableAt := now + delay, ownerId := none, leaseExpiresAt := none })
      snapshot current

/-- Statements on `runtime_completion_bindings`. -/
inductive BindingSql : Type → Type
  | ofOperation (operationId : String) : BindingSql (List String)
  | insert (row : BindingRow) : BindingSql Unit

/-- The bindings of an operation. -/
def Db.bindingsOf (d : Db) (operationId : String) : List String :=
  (d.bindings.rows.filter fun binding => binding.operationId = operationId).map
    BindingRow.bindingId

/-- The meaning of the statements on `runtime_completion_bindings`. -/
def BindingSql.exec {β : Type} (statement : BindingSql β) (snapshot current : Db) :
    Outcome Write Key β :=
  match statement with
  | .ofOperation operationId => .read (snapshot.bindingsOf operationId)
  | .insert row => bindings.insertIgnore current row

/-! ### The other tables -/

/-- Statements on the remaining tables: authority, artifacts, submissions, owners,
admission models, controller updates, direct attempts and direct waiters. -/
inductive OtherSql : Type → Type
  | authorityForUpdate : OtherSql Authority
  | authority : OtherSql Authority
  | insertArtifact (row : ArtifactRow) : OtherSql (Except Violation Unit)
  | lockSubmission (identity : String) : OtherSql Unit
  | submission (tenantId key : String) : OtherSql (Option SubmissionRow)
  | insertSubmission (row : SubmissionRow) : OtherSql (Except Violation Unit)
  | registerOwner (row : OwnerRow) : OtherSql Bool
  | renewOwner (ownerId bootGeneration : String) (until_ now : Time) :
      OtherSql (Option OwnerRow)
  | ownerAlive (ownerId : String) (at_ : Time) : OtherSql Bool
  | admitModel (modelProfile : String) : OtherSql Unit
  | lockModel (modelProfile : String) : OtherSql (Option AdmissionModelRow)
  | insertUpdate (row : ControllerUpdateRow) : OtherSql (Except Violation Unit)
  | purgeDirect (now : Time) : OtherSql ℕ
  | expireDirect (clock : String → Time) (now : Time) : OtherSql ℕ
  | dropWaiters (clock : String → Time) : OtherSql ℕ
  | stopDirect (poolId engineEpoch : String) (recover : Bool) (now : Time) : OtherSql ℕ
  | idleDirect (poolId engineEpoch : String) (idleSince : Time) (attemptIds : List String)
      (now : Time) : OtherSql ℕ

namespace DirectAttemptRow

/-- Ended a day ago: nothing reads the row any more. -/
def disposable (now : Time) (row : DirectAttemptRow) : Bool :=
  (row.state = .finished || row.state = .failedNotSent || row.state = .failed ||
    row.state = .failedRecoverable) && !row.computeHeld &&
    decide (row.createdAt < now - 86400000000)

/-- A direct attempt whose deadline or owner is gone. -/
def expire (now : Time) (row : DirectAttemptRow) : DirectAttemptRow :=
  { row with
    state := if row.state = .reserved then .failedNotSent else .unknown
    computeHeld := row.state ≠ .reserved
    unknownAt := if row.state = .reserved then none else some (row.unknownAt.getD now)
    errorClass := some (if row.state = .reserved then "lease_expired_before_send"
      else "lease_expired_after_send") }

/-- The inference of a direct attempt is proven over. -/
def stop (state : DirectState) (errorClass : String) (now : Time) (row : DirectAttemptRow) :
    DirectAttemptRow :=
  { row with
    state := state
    computeHeld := false
    backendFinishedAt := some (row.backendFinishedAt.getD now)
    errorClass := some errorClass }

end DirectAttemptRow

/-- The meaning of the statements on the remaining tables. -/
def OtherSql.exec {β : Type} (statement : OtherSql β) (snapshot current : Db) :
    Outcome Write Key β :=
  match statement with
  | .authorityForUpdate => ⟨[.authority], [], current.authority⟩
  | .authority => .read snapshot.authority
  | .insertArtifact row => artifacts.insert current row
  | .lockSubmission identity => ⟨[.advisory 3471 identity], [], ()⟩
  | .submission tenantId key => .read <| snapshot.submissions.rows.find? fun row =>
    row.tenantId = tenantId && row.submissionKey = key
  | .insertSubmission row =>
    if current.submissions.rows.any fun other =>
        other.tenantId = row.tenantId && other.submissionKey = row.submissionKey then
      ⟨[], [], .error .violation⟩
    else
      let outcome := submissions.insert current row
      { outcome with locks := .submissionKey row.tenantId row.submissionKey :: outcome.locks }
  | .registerOwner row =>
    owners.upsert (fun owner => owner.bootGeneration = row.bootGeneration)
      (fun owner =>
        { owner with leaseExpiresAt := row.leaseExpiresAt, updatedAt := row.updatedAt })
      current row
  | .renewOwner ownerId bootGeneration until_ now =>
    owners.update ownerId (fun owner => owner.bootGeneration = bootGeneration)
      (fun owner => { owner with leaseExpiresAt := until_, updatedAt := now }) snapshot current
  | .ownerAlive ownerId at_ => .read (snapshot.ownerAlive ownerId at_)
  | .admitModel modelProfile => admissionModels.insertIgnore current ⟨modelProfile⟩
  | .lockModel modelProfile =>
    admissionModels.selectForUpdate modelProfile always snapshot current
  | .insertUpdate row => controllerUpdates.insert current row
  | .purgeDirect now =>
    directAttempts.deleteAll (DirectAttemptRow.disposable now) snapshot current
      Write.dropDirectAttempt
  | .expireDirect clock now =>
    directAttempts.updateAll (fun row => (row.state = .reserved || row.state = .sendIntent) &&
      (decide (row.deadline ≤ clock row.attemptId) ||
        (decide (row.leaseExpiresAt ≤ clock row.attemptId) &&
          !snapshot.ownerAlive row.ownerId (clock row.attemptId))))
      (DirectAttemptRow.expire now) snapshot current
  | .dropWaiters clock =>
    directWaiters.deleteAll (fun row => decide (row.deadline ≤ clock row.requestId) ||
      !snapshot.ownerAlive row.ownerId (clock row.requestId)) snapshot current
      Write.dropDirectWaiter
  | .stopDirect poolId engineEpoch recover now =>
    directAttempts.updateAll (fun row => row.poolId = poolId && row.engineEpoch = engineEpoch &&
      row.computeHeld)
      (DirectAttemptRow.stop (if recover then .failedRecoverable else .failed)
        "engine_epoch_stopped" now) snapshot current
  | .idleDirect poolId engineEpoch idleSince attemptIds now =>
    directAttempts.updateAll (fun row => row.poolId = poolId && row.engineEpoch = engineEpoch &&
      row.computeHeld && row.state = .unknown &&
      row.unknownAt.any (fun unknownAt => decide (unknownAt < idleSince)) &&
      decide (row.attemptId ∈ attemptIds))
      (DirectAttemptRow.stop .failedRecoverable "engine_idle_verified" now) snapshot current

/-- A statement of the ledger. -/
inductive Sql (β : Type)
  | root (statement : RootSql β)
  | budget (statement : BudgetSql β)
  | operation (statement : OperationSql β)
  | attempt (statement : AttemptSql β)
  | pool (statement : PoolSql β)
  | outbox (statement : OutboxSql β)
  | binding (statement : BindingSql β)
  | other (statement : OtherSql β)

instance : Engine Sql Db where
  exec statement busy snapshot current :=
    match statement with
    | .root statement => statement.exec snapshot current
    | .budget statement => statement.exec snapshot current
    | .operation statement => statement.exec busy snapshot current
    | .attempt statement => statement.exec busy snapshot current
    | .pool statement => statement.exec snapshot current
    | .outbox statement => statement.exec busy snapshot current
    | .binding statement => statement.exec snapshot current
    | .other statement => statement.exec snapshot current

/-! ### The tables a statement writes -/

section Tables

variable {β : Type} {busy : Key → Bool} {snapshot current : Db} {w : Write}

theorem RootSql.exec_table (statement : RootSql β)
    (member : w ∈ (statement.exec snapshot current).writes) : w.table = .roots := by
  cases statement with
  | forUpdate | forUpdateOfTenant | ofTenant | countRunning => cases member
  | insert row =>
    obtain ⟨rfl, -⟩ := Access.mem_insert_writes member
    rfl
  | settle =>
    obtain ⟨_, -, -, rfl⟩ := Access.mem_updateChecked_writes member
    rfl
  | expire =>
    obtain ⟨_, -, -, rfl⟩ := Access.mem_updateAll_writes member
    rfl
  | _ =>
    obtain ⟨_, -, -, rfl⟩ := Access.mem_update_writes member
    rfl

theorem BudgetSql.exec_table (statement : BudgetSql β)
    (member : w ∈ (statement.exec snapshot current).writes) : w.table = .budgets := by
  cases statement with
  | find | forUpdate => cases member
  | insert row =>
    obtain ⟨rfl, -⟩ := Access.mem_insert_writes member
    rfl
  | charge =>
    obtain ⟨_, -, -, rfl⟩ := Access.mem_update_writes member
    rfl
  | settle =>
    obtain ⟨_, -, -, rfl⟩ := Access.mem_updateChecked_writes member
    rfl

theorem OperationSql.exec_table (statement : OperationSql β)
    (member : w ∈ (statement.exec busy snapshot current).writes) : w.table = .operations := by
  cases statement with
  | lockIdentity | find | ofTenant | pendingCounts | candidates | forUpdate | pendingOf
  | countPendingOf | pastDeadline | pastRootDeadline | waiting | ofEndedRoots => cases member
  | claimable operationId =>
    simp only [OperationSql.exec, Access.selectSkipLocked] at member
    split at member <;> cases member
  | insert row =>
    obtain ⟨rfl, -⟩ := Access.mem_insert_writes member
    rfl
  | _ =>
    obtain ⟨_, -, -, rfl⟩ := Access.mem_update_writes member
    rfl

theorem AttemptSql.exec_table (statement : AttemptSql β)
    (member : w ∈ (statement.exec busy snapshot current).writes) : w.table = .attempts := by
  cases statement with
  | owned | lastNumber | expired | lostResults | ofEpoch | idleUnknown => cases member
  | lostResult attemptId now =>
    simp only [AttemptSql.exec, Access.selectSkipLocked] at member
    split at member <;> cases member
  | insert row =>
    simp only [AttemptSql.exec] at member
    split at member
    · cases member
    · obtain ⟨rfl, -⟩ := Access.mem_insert_writes member
      rfl
  | _ =>
    obtain ⟨_, -, -, rfl⟩ := Access.mem_update_writes member
    rfl

theorem PoolSql.exec_table (statement : PoolSql β)
    (member : w ∈ (statement.exec snapshot current).writes) :
    w.table = .groups ∨ w.table = .pools := by
  cases statement with
  | group | forUpdate | find | specs | unsettled | computing => cases member
  | configureGroup groupId hardCeiling =>
    rcases Access.mem_upsert_writes member with ⟨rfl, -⟩ | ⟨_, -, -, rfl⟩ <;> exact Or.inl rfl
  | configure spec =>
    rcases Access.mem_upsert_writes member with ⟨rfl, -⟩ | ⟨_, -, -, rfl⟩ <;> exact Or.inr rfl
  | _ =>
    obtain ⟨_, -, -, rfl⟩ := Access.mem_update_writes member
    exact Or.inr rfl

theorem OutboxSql.exec_table (statement : OutboxSql β)
    (member : w ∈ (statement.exec busy snapshot current).writes) : w.table = .outbox := by
  cases statement with
  | insert row =>
    obtain ⟨rfl, -⟩ := Access.mem_insertIgnore_writes member
    rfl
  | claim ownerId now limit =>
    obtain ⟨row, -, rfl⟩ := List.mem_map.mp member
    rfl
  | delivered | defer_ =>
    obtain ⟨_, -, -, rfl⟩ := Access.mem_update_writes member
    rfl

theorem BindingSql.exec_table (statement : BindingSql β)
    (member : w ∈ (statement.exec snapshot current).writes) : w.table = .bindings := by
  cases statement with
  | ofOperation => cases member
  | insert row =>
    obtain ⟨rfl, -⟩ := Access.mem_insertIgnore_writes member
    rfl

theorem OtherSql.exec_table (statement : OtherSql β)
    (member : w ∈ (statement.exec snapshot current).writes) : w.table.minor = true := by
  cases statement with
  | authorityForUpdate | authority | lockSubmission | submission | ownerAlive | lockModel =>
    cases member
  | insertArtifact | insertUpdate =>
    obtain ⟨rfl, -⟩ := Access.mem_insert_writes member
    rfl
  | insertSubmission row =>
    simp only [OtherSql.exec] at member
    split at member
    · cases member
    · obtain ⟨rfl, -⟩ := Access.mem_insert_writes member
      rfl
  | registerOwner row =>
    rcases Access.mem_upsert_writes member with ⟨rfl, -⟩ | ⟨_, -, -, rfl⟩ <;> rfl
  | renewOwner =>
    obtain ⟨_, -, -, rfl⟩ := Access.mem_update_writes member
    rfl
  | admitModel =>
    obtain ⟨rfl, -⟩ := Access.mem_insertIgnore_writes member
    rfl
  | purgeDirect | dropWaiters =>
    obtain ⟨_, -, rfl⟩ := List.mem_map.mp member
    rfl
  | expireDirect | stopDirect | idleDirect =>
    obtain ⟨_, -, -, rfl⟩ := Access.mem_updateAll_writes member
    rfl

/-- The tables that a statement may write. -/
def Sql.mayWrite : Sql β → TableName → Bool
  | .root _, table => table = .roots
  | .budget _, table => table = .budgets
  | .operation _, table => table = .operations
  | .attempt _, table => table = .attempts
  | .pool _, table => table = .groups || table = .pools
  | .outbox _, table => table = .outbox
  | .binding _, table => table = .bindings
  | .other _, table => table.minor

theorem Sql.mayWrite_of_mem {statement : Sql β}
    (member : w ∈ (Engine.exec statement busy snapshot current).writes) :
    statement.mayWrite w.table = true := by
  cases statement with
  | root statement => exact decide_eq_true (statement.exec_table member)
  | budget statement => exact decide_eq_true (statement.exec_table member)
  | operation statement => exact decide_eq_true (statement.exec_table member)
  | attempt statement => exact decide_eq_true (statement.exec_table member)
  | pool statement =>
    rcases statement.exec_table member with here | here <;> simp [mayWrite, here]
  | outbox statement => exact decide_eq_true (statement.exec_table member)
  | binding statement => exact decide_eq_true (statement.exec_table member)
  | other statement => exact statement.exec_table member

end Tables

end IntramindRuntime.Ledger
