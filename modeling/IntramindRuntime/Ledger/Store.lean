import IntramindRuntime.Ledger.Statements
import IntramindRuntime.Library.Lines

/-!
# The methods of the store

Each method of the store as the transaction it sends to PostgreSQL: a tree of
statements whose continuation depends on their results. Everything a method reads
beside the ledger (the clocks, fresh identities, its lease length) comes from an
`Env`. Notifications change no row and are left out.

## Main definitions

* `Env` — the clock readings and fresh values of one transaction
* `Store.markSend`, `Store.commitResult`, … — the methods
* `Call`, `Call.code` — a request to the store, and the transaction that answers it
* `Request.perform`, `Step`, `Reachable` — whole methods as atomic steps
-/

namespace IntramindRuntime.Ledger

open Library

/-- The places where a method reads a clock. -/
inductive Reading
  | rootDeadline | rootObserved | rootEligible | inserted | ranking | candidate | candidateRoot
  | candidateRetry | lease | created | served | owned | ownerAlive | send | renewal | retry
  | finishing | completion | direct | waiter | operationDeadline | stoppedRoot | stoppedOperation
  deriving DecidableEq

/-- What a transaction reads beside the ledger. -/
structure Env where
  /-- `now()`: the start of the transaction. -/
  now : Time
  /-- `clock_timestamp()` and `datetime.now(UTC)`, for the row they are read for. -/
  clock : Reading → String → Time
  /-- `uuid4()`. -/
  uuid : String
  /-- The next value of the sequence of controller updates. -/
  updateId : ℕ
  /-- The lease of the calling store, in microseconds. -/
  lease : Time

/-- A transaction of the store. -/
abbrev Transaction (α : Type) := Tx Sql RuntimeError α

section Statements

variable {β : Type}

/-- Send a statement. -/
abbrev RootSql.run (statement : RootSql β) : Transaction β := Tx.stmt (.root statement)
/-- Send a statement. -/
abbrev BudgetSql.run (statement : BudgetSql β) : Transaction β := Tx.stmt (.budget statement)
/-- Send a statement. -/
abbrev OperationSql.run (statement : OperationSql β) : Transaction β :=
  Tx.stmt (.operation statement)
/-- Send a statement. -/
abbrev AttemptSql.run (statement : AttemptSql β) : Transaction β := Tx.stmt (.attempt statement)
/-- Send a statement. -/
abbrev PoolSql.run (statement : PoolSql β) : Transaction β := Tx.stmt (.pool statement)
/-- Send a statement. -/
abbrev OutboxSql.run (statement : OutboxSql β) : Transaction β := Tx.stmt (.outbox statement)
/-- Send a statement. -/
abbrev BindingSql.run (statement : BindingSql β) : Transaction β := Tx.stmt (.binding statement)
/-- Send a statement. -/
abbrev OtherSql.run (statement : OtherSql β) : Transaction β := Tx.stmt (.other statement)

end Statements

namespace Store

/-- A violated constraint is raised as an integrity error. -/
def accept {β : Type} : Except Violation β → Transaction β
  | .ok value => .ret value
  | .error _ => .raise .integrity

/-- A number that is out of range is raised. -/
def inRange {β : Type} : Option β → Transaction β
  | some value => .ret value
  | none => .raise .outOfRange

/-- Refuse a call unless a condition holds. -/
def require (condition : Bool) (error : RuntimeError) : Transaction Unit :=
  if condition then .ret () else .raise error

/-- Do something only under a condition. -/
def when (condition : Bool) (body : Transaction Unit) : Transaction Unit :=
  if condition then body else .ret ()

/-! ### Owners -/

/-- `register_owner`. -/
def registerOwner (env : Env) (ownerId bootGeneration : String) : Transaction Unit := do
  let changed ← (OtherSql.registerOwner
    { ownerId := ownerId
      bootGeneration := bootGeneration
      leaseExpiresAt := env.now + env.lease
      updatedAt := env.now }).run
  require changed (.conflict "owner identity belongs to another process")

/-- `heartbeat_owner`. -/
def heartbeatOwner (env : Env) (ownerId bootGeneration : String) : Transaction Unit := do
  let changed ← (OtherSql.renewOwner ownerId bootGeneration (env.now + env.lease) env.now).run
  require changed.isSome (.conflict "owner identity was fenced")

/-! ### Events -/

/-- `_event`. -/
def event (env : Env) (eventId : EventId) (kind : EventKind) (aggregateId : String)
    (payload : EventPayload) : Transaction Unit :=
  (OutboxSql.insert
    { eventId := eventId
      kind := kind
      aggregateId := aggregateId
      payload := payload
      availableAt := env.now
      createdAt := env.now }).run

/-- `_completion_events`. -/
def completionEvents (env : Env) (operationId : String) : Transaction Unit := do
  let bindings ← (BindingSql.ofOperation operationId).run
  Tx.forEach bindings fun bindingId =>
    event env (.complete bindingId) .completeActivity operationId (.binding bindingId)

/-- `_terminal`. -/
def terminal (env : Env) (operationId : String) (state : OperationState) (reason : String) :
    Transaction Unit := do
  let _ ← (OperationSql.terminal operationId state reason).run
  completionEvents env operationId

/-- `_expire_operation`: end the operation if its deadline has passed. -/
def expireOperation (env : Env) (spec : OperationSpec) (observedAt : Time) : Transaction Bool :=
  if spec.deadline.all fun deadline => decide (observedAt < deadline) then .ret false
  else do
    terminal env spec.operationId .failed "operation_deadline_exceeded"
    return true

/-! ### Admission -/

/-- The row that `_root` inserts. -/
def rootRow (spec : RootSpec) : RootRow where
  rootId := spec.rootId
  tenantId := spec.tenantId
  spec := spec
  deadline := spec.deadline
  budgetLimit := (spec.budgetLimit : ℕ)
  priority := spec.priority

/-- The row that `_root` inserts for a resource budget. -/
def budgetRow (spec : RootSpec) (budget : Resource × ℕ+) : BudgetRow where
  rootId := spec.rootId
  unit := budget.1
  budgetLimit := (budget.2 : ℕ)

/-- A repeated root must be the same root. -/
def sameRoot (spec : RootSpec) (existing : RootRow) : Transaction Unit :=
  require (existing.spec = spec) (.conflict "root identity/input conflict")

/-- `_root` after it found neither the root nor, holding the quota lock, a root
that another caller has just created. -/
def insertRoot (env : Env) (spec : RootSpec) (limits : Authority) : Transaction Unit := do
  let count ← RootSql.countRunning.run
  require (decide (count < limits.maxRoots)) (.admissionDenied "root backlog full" true)
  require (decide (env.clock .rootDeadline spec.rootId < spec.deadline))
    (.admissionDenied "root deadline expired")
  accept (← (RootSql.insert (rootRow spec)).run)
  Tx.forEach spec.resourceBudgets fun budget => do
    accept (← (BudgetSql.insert (budgetRow spec budget)).run)

/-- `_root`. -/
def root (env : Env) (spec : RootSpec) : Transaction Unit := do
  match ← (RootSql.forUpdate spec.rootId).run with
  | some existing => sameRoot spec existing
  | none =>
    let limits ← OtherSql.authorityForUpdate.run
    match ← (RootSql.forUpdate spec.rootId).run with
    | some existing => sameRoot spec existing
    | none => insertRoot env spec limits

/-- `create_root`. -/
def createRoot (env : Env) (spec : RootSpec) : Transaction Unit := root env spec

/-- `_submission_identity`: the configuration is chosen by the accepting service. -/
def submissionIdentity (spec : RunSpec) : RunSpec := { spec with configuration := none }

/-- `submit_run`. -/
def submitRun (env : Env) (spec : RootSpec) (key inputDigest : String) (run : RunSpec) :
    Transaction String := do
  let _ ← (OtherSql.lockSubmission (spec.tenantId ++ ":" ++ key)).run
  match ← (OtherSql.submission spec.tenantId key).run with
  | some old =>
    require (old.inputDigest = inputDigest && submissionIdentity old.spec = submissionIdentity run)
      (.conflict "submission key/input conflict")
    return old.runId
  | none =>
    root env spec
    accept (← (OtherSql.insertSubmission
      { runId := spec.rootId
        tenantId := spec.tenantId
        submissionKey := key
        inputDigest := inputDigest
        spec := run }).run)
    event env (.start spec.rootId) .startWorkflow spec.rootId
      (.intent { run with deadline := some (.accepted spec.deadline) })
    return spec.rootId

/-- `configure_pool`. -/
def configurePool (spec : PoolSpec) (groupCeiling : ℤ) : Transaction Unit := do
  require (decide (0 < groupCeiling)) (.valueError "group ceiling must be positive")
  let _ ← (PoolSql.configureGroup spec.groupId groupCeiling).run
  let old ← (PoolSql.forUpdate spec.poolId).run
  when (old.any fun pool => pool.engineEpoch ≠ spec.engineEpoch || pool.spec ≠ spec) do
    let active ← (PoolSql.unsettled spec.poolId).run
    require (active = 0)
      (.conflict "drain/reconcile existing attempts before reconfiguration")
  let _ ← (PoolSql.configure spec).run

/-- The row that `submit_operation` inserts. -/
def operationRow (env : Env) (spec : OperationSpec) : OperationRow where
  operationId := spec.operationId
  rootId := spec.rootId
  tenantId := spec.tenantId
  spec := spec
  createdAt := env.now

/-- An operation can only be charged to a budget that its root was accepted with. -/
def acceptsUnit (root : RootRow) : BudgetUnit → Transaction Unit
  | .tokens => .ret ()
  | .resource unit => require (root.spec.resourceBudget unit).isSome
      (.admissionDenied ("root has no accepted " ++ unit.name ++ " budget"))

/-- `submit_operation` for a new operation of an existing root. -/
def admitOperation (env : Env) (spec : OperationSpec) (root : RootRow) : Transaction String := do
  require (!root.cancelRequested && root.state = .running &&
      decide (env.clock .rootEligible spec.operationId < root.deadline))
    (.admissionDenied "root is not eligible")
  acceptsUnit root spec.budgetUnit
  let _ ← (OtherSql.admitModel spec.modelProfile).run
  let _ ← (OtherSql.lockModel spec.modelProfile).run
  let count ← (OperationSql.pendingCounts spec.rootId spec.modelProfile).run
  let limits ← OtherSql.authority.run
  require (decide (root.operationCount < root.spec.maxOperations))
    (.admissionDenied "lifetime operation limit reached")
  require (spec.deadline.any (fun deadline =>
        decide (deadline ≤ env.clock .rootObserved spec.operationId)) ||
      (decide (count.rootPending < root.spec.maxPending) &&
        decide (count.modelPending < limits.maxPending)))
    (.admissionDenied "materialization limit reached" true)
  accept (← (OperationSql.insert (operationRow env spec)).run)
  let _ ← (RootSql.countOperation spec.rootId).run
  let _ ← expireOperation env spec (env.clock .inserted spec.operationId)
  return spec.operationId

/-- `submit_operation`. -/
def submitOperation (sha256 : String → String) (env : Env) (spec : OperationSpec) :
    Transaction String := do
  require (spec.payload.belongsTo sha256 spec.tenantId) (.notFound "payload")
  let _ ← (OperationSql.lockIdentity spec.operationId).run
  match ← (OperationSql.find spec.operationId).run with
  | some old =>
    require (old.spec = spec) (.conflict "operation identity/input conflict")
    return spec.operationId
  | none =>
    match ← (RootSql.forUpdateOfTenant spec.rootId spec.tenantId).run with
    | none => .raise (.notFound "root")
    | some root => admitOperation env spec root

/-! ### Reservation -/

/-- Read the budget that an operation is charged to. -/
def findBudget (spec : OperationSpec) (root : RootRow) : Transaction (Option Budget) :=
  match spec.budgetUnit with
  | .tokens => .ret (some (Budget.ofRoot root))
  | .resource unit => do
    let row ← (BudgetSql.find spec.rootId unit).run
    return row.map Budget.ofRow

/-- Lock the budget that an operation is charged to; its root is locked already. -/
def lockBudget (spec : OperationSpec) (root : RootRow) : Transaction (Option Budget) :=
  match spec.budgetUnit with
  | .tokens => .ret (some (Budget.ofRoot root))
  | .resource unit => do
    let row ← (BudgetSql.forUpdate root.rootId unit).run
    return row.map Budget.ofRow

/-- The reason why an operation can never run again, if there is one. -/
def exhausted (spec : OperationSpec) (op : OperationRow) (root : RootRow) (budget : Budget) :
    Option String :=
  if spec.maxAttempts ≤ op.attempts then some "max_attempts"
  else if root.spec.maxAttempts ≤ root.attempts then some "root_attempt_budget"
  else if budget.limit < budget.spent + spec.budgetBound then some "root_budget_exhausted"
  else none

/-- Reserve the operation `op`, whose row and whose root's row are locked. -/
def reserve (env : Env) (pool : PoolRow) (ownerId : String) (candidate : Candidate)
    (root : RootRow) (op : OperationRow) : Transaction (Option Reservation) := do
  let spec := candidate.operation.spec
  let previous ← (AttemptSql.lastNumber spec.operationId).run
  let number := previous + 1
  let createdAt := env.clock .created spec.operationId
  accept (← (AttemptSql.insert
    { attemptId := env.uuid
      operationId := spec.operationId
      poolId := pool.poolId
      engineEpoch := pool.engineEpoch
      attemptNumber := number
      ownerId := ownerId
      leaseEpoch := number
      leaseExpiresAt := env.clock .lease spec.operationId + env.lease
      computeHeld := false
      budgetHeld := false
      budgetBound := spec.budgetBound
      budgetUnit := spec.budgetUnit
      createdAt := createdAt }).run)
  let _ ← (OperationSql.execute spec.operationId env.uuid).run
  let _ ← (RootSql.serve spec.rootId (env.clock .served spec.operationId)).run
  return some
    { attemptId := env.uuid
      operation := spec
      poolId := pool.poolId
      engineEpoch := pool.engineEpoch
      modelRevision := pool.spec.modelRevision
      ownerId := ownerId
      leaseEpoch := number
      sentAttempts := op.attempts
      attemptDeadline := min root.deadline
        (min (spec.deadline.getD root.deadline) (createdAt + spec.attemptTimeout))
      workloadClass := candidate.rootPriority.workloadClass }

/-- Try a candidate whose row and whose root's row are locked: `none` passes on to
the next candidate. -/
def tryCandidate (env : Env) (pool : PoolRow) (ownerId : String) (candidate : Candidate)
    (root : RootRow) (op : OperationRow) : Transaction (Option Reservation) := do
  let spec := candidate.operation.spec
  if ← expireOperation env spec candidate.observedAt then return none
  else if (spec.capacityProfileId.any fun profile =>
        profile ≠ "" && profile ≠ pool.spec.profileId) ||
      !decide (spec.requiredCapabilities ⊆ pool.spec.capabilities) ||
      decide (pool.spec.requestLimit < spec.budgetBound) then
    return none
  else do
    match ← findBudget spec root with
    | none => do
      terminal env spec.operationId .failed "resource_budget_missing"
      return none
    | some budget =>
      match exhausted spec op root budget with
      | some reason => do
        terminal env spec.operationId .failed reason
        return none
      | none =>
        if budget.limit < budget.spent + budget.reserved + spec.budgetBound then do
          let _ ← (OperationSql.awaitBudget spec.operationId).run
          return none
        else reserve env pool ownerId candidate root op

/-- One turn of the candidate loop: lock the root, then the operation, and look at
both again. -/
def reserveCandidate (env : Env) (pool : PoolRow) (ownerId : String) (candidate : Candidate) :
    Transaction (Option Reservation) := do
  let rootId := candidate.operation.rootId
  let operationId := candidate.operation.operationId
  match ← (RootSql.forUpdate rootId).run with
  | none => return none
  | some root =>
    if root.state ≠ .running || root.cancelRequested ||
        decide (root.deadline ≤ env.clock .candidateRoot operationId) then return none
    else do
      match ← (OperationSql.claimable operationId).run with
      | none => return none
      | some op =>
        if !op.state.waiting || op.retryAt.any fun retryAt =>
            decide (env.clock .candidateRetry operationId < retryAt) then return none
        else tryCandidate env pool ownerId candidate root op

/-- The candidate loop of `reserve_next`. -/
def reserveFrom (env : Env) (pool : PoolRow) (ownerId : String) :
    List Candidate → Transaction (Option Reservation)
  | [] => .ret none
  | candidate :: rest => do
    match ← reserveCandidate env pool ownerId candidate with
    | some reservation => return some reservation
    | none => reserveFrom env pool ownerId rest

/-- `reserve_next`. -/
def reserveNext (env : Env) (poolId ownerId : String) : Transaction (Option Reservation) := do
  match ← (PoolSql.forUpdate poolId).run with
  | none => return none
  | some pool =>
    if pool.health ≠ .healthy || pool.target = 0 then return none
    else do
      let group ← (PoolSql.group pool.groupId).run
      if group.any fun group => group.health = .healthy then do
        let candidates ← inRange (← (OperationSql.candidates pool env.now (env.clock .ranking)
          (env.clock .candidate)).run)
        reserveFrom env pool ownerId candidates
      else return none

/-! ### The owner's side of an attempt -/

/-- `_owned`: lock the attempt, and check that the reservation still owns it. -/
def owned (reservation : Reservation) : Transaction Joined := do
  match ← (AttemptSql.owned reservation.attemptId).run with
  | none => .raise (.conflict "stale attempt ownership")
  | some a =>
    require (a.attempt.ownerId = reservation.ownerId &&
        a.attempt.leaseEpoch = reservation.leaseEpoch &&
        a.operation.activeAttempt = some reservation.attemptId)
      (.conflict "stale attempt ownership")
    return a

/-- Count the attempt at its root, and reserve its bound in the budget it is charged to. -/
def chargeBudget (rootId : String) (unit : BudgetUnit) (bound : ℤ) : Transaction Unit :=
  match unit with
  | .tokens => do
    let _ ← (RootSql.charge rootId bound).run
  | .resource unit => do
    let _ ← (RootSql.charge rootId 0).run
    let _ ← (BudgetSql.charge rootId unit bound).run

/-- The charge that `mark_send` makes for an attempt that has none yet. The root,
the operation and the budget are locked and read again. -/
def chargeSend (env : Env) (reservation : Reservation) (a : Joined) (deadline : Time) :
    Transaction Unit := do
  let spec := a.operation.spec
  let now := env.clock .send reservation.attemptId
  match ← (RootSql.forUpdate a.root.rootId).run with
  | none => .raise (.conflict "attempt cannot send")
  | some root =>
    match ← (OperationSql.forUpdate a.attempt.operationId).run with
    | none => .raise (.conflict "attempt cannot send")
    | some operation =>
      require (root.state = .running && !root.cancelRequested && decide (now < root.deadline) &&
          decide (now < deadline) && operation.state = .executing &&
          operation.activeAttempt = some reservation.attemptId)
        (.conflict "attempt cannot send")
      require (decide (operation.attempts < spec.maxAttempts) &&
          decide (root.attempts < root.spec.maxAttempts))
        (.sendBudgetUnavailable .sendAttemptsExhausted)
      let budget ← lockBudget spec root
      require (budget.any fun budget =>
          decide (budget.spent + budget.reserved + spec.budgetBound ≤ budget.limit))
        (.sendBudgetUnavailable .sendBudgetUnavailable)
      let _ ← (OperationSql.countAttempt a.attempt.operationId).run
      chargeBudget a.root.rootId spec.budgetUnit spec.budgetBound

/-- `lease_expires_at > observed_at`, or the owner's own lease is alive. -/
def leaseAlive (env : Env) (reservation : Reservation) (a : Joined) : Transaction Bool :=
  if a.attempt.leaseExpiresAt ≤ env.clock .owned reservation.attemptId then
    (OtherSql.ownerAlive reservation.ownerId (env.clock .ownerAlive reservation.attemptId)).run
  else .ret true

/-- `mark_send`. -/
def markSend (env : Env) (reservation : Reservation) : Transaction Unit := do
  let a ← owned reservation
  let deadline := min a.root.deadline (min (a.operation.spec.deadline.getD a.root.deadline)
    (a.attempt.createdAt + a.operation.spec.attemptTimeout))
  require (a.attempt.state = .reserved && a.operation.state = .executing)
    (.conflict "attempt cannot send")
  let alive ← leaseAlive env reservation a
  require (alive && !a.root.cancelRequested && a.root.state = .running &&
      decide (env.clock .owned reservation.attemptId < deadline))
    (.conflict "attempt cannot send")
  when (!a.attempt.budgetHeld) (chargeSend env reservation a deadline)
  let _ ← (AttemptSql.sendIntent reservation.attemptId env.now).run

/-- `heartbeat`. -/
def heartbeat (env : Env) (reservation : Reservation) : Transaction Bool := do
  let a ← owned reservation
  if a.attempt.state = .reserved || a.attempt.state = .sendIntent || a.attempt.state = .active ||
      a.attempt.state = .backendFinished then do
    let alive ← (OtherSql.ownerAlive reservation.ownerId
      (env.clock .ownerAlive reservation.attemptId)).run
    when (!alive) do
      let _ ← (AttemptSql.renew reservation.attemptId
        (env.clock .renewal reservation.attemptId + env.lease)).run
    return !a.root.cancelRequested && a.root.state = .running && !a.operation.state.terminal
  else return false

/-- `compute_finished`. -/
def computeFinished (env : Env) (reservation : Reservation) : Transaction Unit := do
  let a ← owned reservation
  if a.attempt.state.ended then return ()
  else do
    let _ ← (AttemptSql.backendFinished reservation.attemptId env.now).run

/-- The part of `_settle` that charges the owning budget: it returns what is spent
and what the limit is. -/
def settleBudget (a : AttemptRow) (rootId : String) (charged : ℤ) :
    Transaction (Option Budget) :=
  match a.budgetUnit with
  | .tokens => do
    return (← accept (← (RootSql.settle rootId a.budgetBound charged).run)).map Budget.ofRoot
  | .resource unit => do
    return (← accept (← (BudgetSql.settle rootId unit a.budgetBound charged).run)).map
      Budget.ofRow

/-- `_settle`. -/
def settle (env : Env) (a : AttemptRow) (rootId : String) (usage : Option ℤ) :
    Transaction Unit :=
  if !a.budgetHeld then .ret ()
  else do
    let charged := usage.getD a.budgetBound
    require (decide (0 ≤ charged)) (.valueError "negative usage")
    let _ ← (AttemptSql.settle a.attemptId charged usage.isNone).run
    match ← settleBudget a rootId charged with
    | none => .raise (.conflict "attempt budget ledger missing")
    | some budget =>
      when (decide (budget.limit < budget.spent)) do
        let _ ← (RootSql.overspend rootId env.now).run
      when (decide (a.budgetBound < charged)) do
        let _ ← (PoolSql.degrade a.poolId).run

/-- Record the artifacts of a result. -/
def insertArtifacts (sha256 : String → String) (a : Joined) (disposition : Disposition)
    (artifacts : List Artifact) : Transaction Unit :=
  Tx.forEach artifacts fun ref => do
    require (ref.belongsTo sha256 a.operation.tenantId) (.notFound "result")
    accept (← (OtherSql.insertArtifact
      { objectKey := ref.key
        tenantId := a.operation.tenantId
        operationId := a.attempt.operationId
        attemptId := a.attempt.attemptId
        manifest := ref
        disposition := disposition }).run)

/-- What becomes of the operation of a committed result. -/
def decideResult (env : Env) (operationId : String) (artifact : Artifact)
    (cancelled terminated : Bool) : Transaction Unit := do
  when (!cancelled && !terminated) do
    let _ ← (OperationSql.succeed operationId artifact).run
  when (cancelled && !terminated) (terminal env operationId .failed "root_terminal")
  completionEvents env operationId

/-- `commit_result` for an attempt whose inference has ended. -/
def commitFinished (sha256 : String → String) (env : Env) (a : Joined) (artifact : Artifact)
    (usage : Option ℤ) (attachments : List Artifact) : Transaction Unit := do
  let operationId := a.attempt.operationId
  let expired ← expireOperation env a.operation.spec (env.clock .owned a.attempt.attemptId)
  let cancelled := a.root.cancelRequested || a.operation.state = .cancelled ||
    a.root.state ≠ .running
  let terminated := expired || a.operation.state.terminal
  let disposition : Disposition := if cancelled then .lateCancelled
    else if terminated then .lateTerminal else .result
  insertArtifacts sha256 a disposition (artifact :: attachments)
  settle env a.attempt a.root.rootId usage
  let _ ← (AttemptSql.resultCommitted a.attempt.attemptId env.now).run
  decideResult env operationId artifact cancelled terminated

/-- `commit_result`. -/
def commitResult (sha256 : String → String) (env : Env) (reservation : Reservation)
    (artifact : Artifact) (usage : Option ℤ) (attachments : List Artifact) :
    Transaction Unit := do
  let a ← owned reservation
  if a.attempt.state = .resultCommitted then do
    let existing ← (OperationSql.find a.attempt.operationId).run
    require (existing.all fun op => op.result.all fun result => result = artifact)
      (.conflict "committed result differs")
  else do
    require (!a.attempt.computeHeld && a.attempt.state = .backendFinished)
      (.conflict "backend termination must be recorded first")
    commitFinished sha256 env a artifact usage attachments

/-- `unknown`. -/
def unknown (env : Env) (reservation : Reservation) (reason : String) : Transaction Unit := do
  let a ← owned reservation
  if a.attempt.state.ended then return ()
  else do
    let _ ← (AttemptSql.unknown a.attempt.attemptId env.now reason).run
    let expired ← expireOperation env a.operation.spec (env.clock .owned a.attempt.attemptId)
    when (!expired && !a.operation.state.terminal) do
      let _ ← (OperationSql.reconcile a.attempt.operationId reason).run

/-- What becomes of the operation of a failed attempt. -/
def failOperation (env : Env) (a : Joined) (reason : String) (retry : Bool) (delay : Time) :
    Transaction Unit := do
  let operationId := a.attempt.operationId
  if a.operation.state.terminal then return ()
  else if a.root.cancelRequested then terminal env operationId .cancelled "user_cancelled"
  else if a.root.state ≠ .running then terminal env operationId .failed "root_terminal"
  else if ← expireOperation env a.operation.spec (env.clock .owned a.attempt.attemptId) then
    return ()
  else if retry then do
    let _ ← (OperationSql.retry operationId reason
      (env.clock .retry a.attempt.attemptId + delay)).run
  else terminal env operationId .failed reason

/-- `fail`. -/
def fail (env : Env) (reservation : Reservation) (reason : String) (notSent retry : Bool)
    (delay : Time) : Transaction Unit := do
  let a ← owned reservation
  if a.attempt.state.ended then return ()
  else do
    require (!a.attempt.computeHeld || notSent)
      (.conflict "cannot fail/refund an attempt with unknown compute")
    settle env a.attempt a.root.rootId (if notSent then some 0 else none)
    let _ ← (AttemptSql.fail a.attempt.attemptId
      (if notSent then .failedNotSent else .failed) reason).run
    failOperation env a reason retry delay

/-! ### Ending a root -/

/-- End operations one after the other. -/
def terminalAll (env : Env) (operationIds : List String) (state : OperationState)
    (reason : String) : Transaction Unit :=
  Tx.forEach operationIds fun operationId => terminal env operationId state reason

/-- `cancel`. -/
def cancel (env : Env) (rootId tenantId : String) : Transaction Unit := do
  match ← (RootSql.ofTenant rootId tenantId).run with
  | none => .raise (.notFound "root")
  | some root =>
    if root.state = .succeeded || root.state = .partially || root.state = .failed then return ()
    else do
      let _ ← (RootSql.cancel rootId env.now).run
      let ops ← (OperationSql.pendingOf rootId).run
      terminalAll env ops .cancelled "user_cancelled"
      event env (.cancel rootId) .cancelWorkflow rootId (.run rootId)

/-- The transition of `finish_run` for a root that was seen running. -/
def finishRoot (env : Env) (rootId : String) (state : RootState) (result : Option Artifact)
    (reason : Option String) : Transaction Unit := do
  let pending ← (OperationSql.countPendingOf rootId).run
  require (!(state = .succeeded && decide (pending ≠ 0)))
    (.conflict "cannot succeed with pending operations")
  match ← (RootSql.finish rootId (env.clock .completion rootId) state result reason).run with
  | none => .raise .integrity
  | some finished =>
    if finished.state = .succeeded then return ()
    else do
      let ops ← (OperationSql.pendingOf rootId).run
      terminalAll env ops .cancelled (match finished.terminalReason with
        | some reason => if reason = "" then "root_finished" else reason
        | none => "root_finished")

/-- `finish_run`. A requested state other than the four final ones cannot be
written; `running` stands for every other text. -/
def finishRun (sha256 : String → String) (env : Env) (rootId tenantId : String)
    (state : RootState) (result : Option Artifact) (reason : Option String) :
    Transaction Unit := do
  if state = .cancelled then do
    require result.isNone (.valueError "cancelled run cannot publish a result")
    cancel env rootId tenantId
  else do
    require (state ≠ .running) (.valueError "invalid terminal state")
    require (result.all fun result => result.belongsTo sha256 tenantId) (.notFound "result")
    require (!(state = .partially && (result.isNone || reason.all fun reason => reason = "")))
      (.valueError "partial result requires an artifact and reason")
    match ← (RootSql.ofTenant rootId tenantId).run with
    | none => .raise (.notFound "root")
    | some root =>
      if root.state ≠ .running then
        require (!(root.state = state && root.result ≠ result))
          (.conflict "terminal result is immutable")
      else if root.deadline ≤ env.clock .finishing rootId then
        finishRoot env rootId .failed none (some "deadline_exceeded")
      else finishRoot env rootId state result reason

/-! ### Completion bindings and the outbox -/

/-- `bind_completion`. -/
def bindCompletion (sha256 : String → String) (env : Env) (operationId tenantId : String)
    (taskToken : String) : Transaction Unit := do
  match ← (OperationSql.ofTenant operationId tenantId).run with
  | none => .raise (.notFound "operation")
  | some op =>
    let _ ← (BindingSql.insert
      { bindingId := sha256 taskToken
        operationId := operationId
        taskToken := taskToken
        createdAt := env.now }).run
    when op.state.terminal (completionEvents env operationId)

/-- `claim_events`. -/
def claimEvents (env : Env) (ownerId : String) (limit : ℕ) : Transaction (List OutboxRow) :=
  (OutboxSql.claim ownerId env.now limit).run

/-- `delivered`. -/
def delivered (env : Env) (eventId : EventId) (ownerId : String) (deliveryNumber : ℕ) :
    Transaction Bool := do
  return (← (OutboxSql.delivered eventId ownerId deliveryNumber env.now).run).isSome

/-- `defer_event`, with the delay in microseconds. -/
def deferEvent (env : Env) (eventId : EventId) (ownerId : String) (deliveryNumber : ℕ)
    (delay : Time) : Transaction Bool := do
  require (decide (1000000 ≤ delay) && decide (delay ≤ 300000000))
    (.valueError "outbox retry delay must be between 1 and 300 seconds")
  return (← (OutboxSql.defer_ eventId ownerId deliveryNumber env.now delay).run).isSome

/-! ### Reconciliation -/

/-- Take back an attempt whose lease expired, or whose operation ended before it
was sent. -/
def reconcileAttempt (env : Env) (a : Expired) : Transaction Unit := do
  if a.attempt.state = .reserved then do
    settle env a.attempt a.rootId (some 0)
    let _ ← (AttemptSql.neverSent a.attempt.attemptId).run
    let _ ← (OperationSql.requeue a.attempt.operationId).run
  else do
    let _ ← (AttemptSql.lost a.attempt.attemptId env.now).run
    let _ ← (OperationSql.lose a.attempt.operationId).run

/-- Why no configured pool will ever take an operation, if that is known. -/
def impossible (pools : List PoolSpec) (spec : OperationSpec) : Option String :=
  let compatible := pools.filter fun p => p.modelProfile = spec.modelProfile &&
    p.kind = spec.kind && decide (spec.requiredCapabilities ⊆ p.capabilities)
  let profiled := compatible.filter fun p => spec.capacityProfileId.all fun profile =>
    profile = "" || p.profileId = profile
  let revised := profiled.filter fun p => spec.kind ≠ .embedding ||
    spec.modelRevision? = some p.modelRevision
  if compatible.isEmpty then none
  else if profiled.isEmpty then some "capacity_profile_changed"
  else if revised.isEmpty then some "model_revision_changed"
  else if revised.all fun p => decide (p.requestLimit < spec.budgetBound) ||
      (spec.kind = .embedding && decide (p.maxBatchSize < spec.textsCount)) then
    some (if spec.kind = .llm then "context_exceeds_all_pools" else "request_exceeds_all_pools")
  else none

/-- `reconcile_expired` up to the settlement of lost results, which has its own
transactions. -/
def reconcile (env : Env) : Transaction ℕ := do
  let _ ← (OtherSql.purgeDirect env.now).run
  let direct ← (OtherSql.expireDirect (env.clock .direct) env.now).run
  let _ ← (OtherSql.dropWaiters (env.clock .waiter)).run
  let expiredOperations ← (OperationSql.pastDeadline (env.clock .operationDeadline)).run
  terminalAll env expiredOperations .failed "operation_deadline_exceeded"
  let attempts ← (AttemptSql.expired env.now).run
  Tx.forEach attempts (reconcileAttempt env)
  let expired ← (OperationSql.pastRootDeadline env.now).run
  terminalAll env expired .failed "deadline_exceeded"
  let ready ← OperationSql.waiting.run
  let pools ← PoolSql.specs.run
  Tx.forEach ready fun op =>
    match impossible pools op.spec with
    | some reason => terminal env op.operationId .failed reason
    | none => .ret ()
  let _ ← (RootSql.expire env.now).run
  let ended ← OperationSql.ofEndedRoots.run
  terminalAll env ended .cancelled "root_terminal"
  return attempts.length + direct

/-- What becomes of the operation of an attempt whose inference is proven over. -/
def stopOperation (env : Env) (a : Joined) (recover : Bool) (errorClass retryReason : String) :
    Transaction Unit := do
  let spec := a.operation.spec
  let operationId := a.attempt.operationId
  match ← (RootSql.forUpdate a.root.rootId).run with
  | none => .raise .integrity
  | some root =>
    let budget ← lockBudget spec root
    if recover && root.state = .running && !root.cancelRequested &&
        decide (env.clock .stoppedRoot a.attempt.attemptId < root.deadline) &&
        (spec.deadline.all fun deadline =>
          decide (env.clock .stoppedOperation a.attempt.attemptId < deadline)) &&
        decide (a.operation.attempts < spec.maxAttempts) &&
        decide (root.attempts < a.root.spec.maxAttempts) &&
        (budget.any fun budget =>
          decide (budget.spent + budget.reserved + spec.budgetBound ≤ budget.limit)) then do
      let _ ← (OperationSql.recover operationId a.attempt.attemptId retryReason env.now).run
    else terminal env operationId .failed errorClass

/-- `_settle_stopped_attempt`. -/
def settleStoppedAttempt (env : Env) (recover : Bool) (errorClass retryReason : String)
    (a : Joined) : Transaction Unit := do
  settle env a.attempt a.root.rootId (if a.attempt.state = .reserved then some 0 else none)
  let _ ← (AttemptSql.stopped a.attempt.attemptId env.now errorClass).run
  if a.operation.state.terminal then return ()
  else stopOperation env a recover errorClass retryReason

/-- The selection with which `_settle_lost_results` starts. -/
def lostResults (env : Env) : Transaction (List String) := (AttemptSql.lostResults env.now).run

/-- One transaction of `_settle_lost_results`; it returns whether it settled. -/
def settleLostResult (env : Env) (attemptId : String) : Transaction Bool := do
  match ← (AttemptSql.lostResult attemptId env.now).run with
  | none => return false
  | some a =>
    settleStoppedAttempt env true "result_lost_after_backend_finished"
      "result_lost_after_backend_finished" a
    return true

/-! ### Engines -/

/-- `quiesce_engine`. -/
def quiesceEngine (poolId engineEpoch token : String) : Transaction Unit := do
  require (token ≠ "" && decide (token.length ≤ 200))
    (.valueError "quiesce owner token required")
  match ← (PoolSql.forUpdate poolId).run with
  | none => .raise (.conflict "engine epoch does not match")
  | some pool =>
    require (pool.engineEpoch = engineEpoch) (.conflict "engine epoch does not match")
    require (pool.quiesceToken.all fun owner => owner = token)
      (.conflict "engine is quiesced by a different owner")
    if (pool.health = .degraded || pool.health = .unavailable) &&
        pool.quiesceToken = some token then return ()
    else do
      require (pool.health = .healthy) (.conflict "engine is not available to quiesce")
      let _ ← (PoolSql.quiesce poolId engineEpoch token).run

/-- `resume_engine`. -/
def resumeEngine (poolId engineEpoch token : String) : Transaction Unit := do
  require (token ≠ "" && decide (token.length ≤ 200))
    (.valueError "quiesce owner token required")
  match ← (PoolSql.forUpdate poolId).run with
  | none => .raise (.conflict "engine epoch does not match")
  | some pool =>
    require (pool.engineEpoch = engineEpoch) (.conflict "engine epoch does not match")
    if pool.health = .healthy && pool.quiesceToken = none then return ()
    else do
      require (pool.health = .degraded && pool.quiesceToken = some token)
        (.conflict "quiesce owner or engine state changed")
      let held ← (PoolSql.computing poolId).run
      require (held = 0) (.conflict "unsettled compute must be reconciled before resume")
      let _ ← (PoolSql.resume poolId engineEpoch pool.spec.target).run

/-- An entry of the evidence object. A text that is an ISO timestamp carries the
time it denotes and whether it names a zone. -/
inductive EvidenceEntry
  | absent
  | null
  | text (value : String)
  | timestamp (at_ : Time) (aware : Bool)
  | int (value : ℤ)
  | other
  deriving DecidableEq

/-- The object that the evidence of a stopped process encodes. -/
structure Proof where
  poolId : EvidenceEntry
  engineEpoch : EvidenceEntry
  verification : EvidenceEntry
  containerId : EvidenceEntry := .absent
  modelPid : EvidenceEntry := .absent
  processStartedAt : EvidenceEntry := .absent
  verifiedStoppedAt : EvidenceEntry := .absent
  oldContainerId : EvidenceEntry := .absent
  observedContainerId : EvidenceEntry := .absent
  oldStartedAt : EvidenceEntry := .absent
  observedStartedAt : EvidenceEntry := .absent

/-- The evidence that an engine has stopped: its text, and the object that the
text encodes, if it encodes one. -/
structure Evidence where
  text : String
  proof : Option Proof

/-- A text with at least one character. -/
def EvidenceEntry.nonempty : EvidenceEntry → Bool
  | .text value => value ≠ ""
  | .timestamp .. => true
  | _ => false

/-- `datetime.fromisoformat(value.replace("Z", "+00:00"))`. -/
def EvidenceEntry.instant : EvidenceEntry → Except RuntimeError (Time × Bool)
  | .timestamp at_ aware => .ok (at_, aware)
  | .text _ => .error (.valueError "Invalid isoformat string")
  | _ => .error (.valueError "exact stopped process evidence required")

/-- The check of the evidence that `confirm_epoch_stopped` makes before it lets
operations recover. -/
def checkProof (poolId engineEpoch : String) (proof : Proof) : Except RuntimeError Unit := do
  if proof.poolId ≠ .text poolId || proof.engineEpoch ≠ .text engineEpoch ||
      (proof.verification ≠ .text "container_and_child_absent" &&
        proof.verification ≠ .text "container_stopped_or_replaced") then
    throw (.valueError "exact stopped process evidence required")
  let (startedAt, stoppedAt) ←
    if proof.verification = .text "container_and_child_absent" then
      if !proof.containerId.nonempty || (match proof.modelPid with
          | .int pid => decide (pid ≤ 0)
          | _ => true) then
        throw (.valueError "container and model child identity required")
      else pure (proof.processStartedAt, proof.verifiedStoppedAt)
    else if (proof.modelPid ≠ .absent && proof.modelPid ≠ .null) ||
        (proof.oldContainerId ≠ .absent && proof.oldContainerId ≠ .null &&
          !proof.oldContainerId.nonempty) ||
        !proof.observedContainerId.nonempty then
      throw (.valueError "replacement container evidence required")
    else pure (proof.oldStartedAt, proof.observedStartedAt)
  let started ← startedAt.instant
  let stopped ← stoppedAt.instant
  let verified ← proof.verifiedStoppedAt.instant
  if !started.2 || !stopped.2 || decide (stopped.1 ≤ started.1) then
    throw (.valueError "invalid stopped process times")
  if !verified.2 || decide (verified.1 < stopped.1) then
    throw (.valueError "invalid stopped process verification")

/-- `if not evidence.strip()` and, for a recovery, the check of the proof. -/
def checkEvidence (poolId engineEpoch : String) (evidence : Evidence) (recover : Bool) :
    Except RuntimeError Unit :=
  if evidence.text.toList.all isSpace then
    .error (.valueError "termination evidence is required")
  else if recover then
    match evidence.proof with
    | some proof => checkProof poolId engineEpoch proof
    | none => .error (.valueError "exact stopped process evidence required")
  else .ok ()

/-- `confirm_epoch_stopped`. -/
def confirmEpochStopped (env : Env) (poolId engineEpoch : String) (evidence : Evidence)
    (recover : Bool) : Transaction ℕ := do
  match checkEvidence poolId engineEpoch evidence recover with
  | .error error => .raise error
  | .ok _ =>
    match ← (PoolSql.forUpdate poolId).run with
    | none => .raise (.conflict "engine epoch does not match")
    | some pool =>
      require (pool.engineEpoch = engineEpoch) (.conflict "engine epoch does not match")
      require (!recover || pool.health = .degraded || pool.health = .unavailable)
        (.conflict "quiesce the exact engine epoch before recovery")
      let _ ← (PoolSql.stop poolId).run
      let direct ← (OtherSql.stopDirect poolId engineEpoch recover env.now).run
      let attempts ← (AttemptSql.ofEpoch poolId engineEpoch).run
      -- An executor may still hold the result bytes of a recovered, finished attempt.
      let stopped := attempts.filter fun a =>
        !(recover && a.attempt.state = .backendFinished && !a.attempt.computeHeld)
      Tx.forEach stopped
        (settleStoppedAttempt env recover "engine_epoch_stopped" "engine_recovery")
      accept (← (OtherSql.insertUpdate
        { updateId := env.updateId
          poolId := poolId
          envelopeVersion := pool.envelopeVersion
          target := 0
          reason := "epoch_stopped:" ++ engineEpoch ++ ":" ++ evidence.text }).run)
      return stopped.length + direct

/-- `settle_idle_unknown`. -/
def settleIdleUnknown (env : Env) (poolId engineEpoch : String) (idleSince : Time)
    (attemptIds : List String) : Transaction ℕ := do
  match ← (PoolSql.forUpdate poolId).run with
  | none => return 0
  | some pool =>
    if pool.engineEpoch ≠ engineEpoch then return 0
    else do
      let direct ← (OtherSql.idleDirect poolId engineEpoch idleSince attemptIds env.now).run
      let attempts ← (AttemptSql.idleUnknown poolId engineEpoch idleSince attemptIds).run
      Tx.forEach attempts (settleStoppedAttempt env true "engine_idle_verified" "engine_recovery")
      return attempts.length + direct

/-- `update_target`. -/
def updateTarget (env : Env) (poolId : String) (target : ℤ) (version : ℕ) (reason : String) :
    Transaction Unit := do
  match ← (PoolSql.find poolId).run with
  | none => .raise (.conflict "stale envelope")
  | some pool =>
    require (pool.envelopeVersion = version) (.conflict "stale envelope")
    require (decide (0 ≤ target) && decide (target ≤ pool.hardCeiling))
      (.admissionDenied "target outside hard ceiling")
    let _ ← (PoolSql.retarget poolId target.toNat).run
    accept (← (OtherSql.insertUpdate
      { updateId := env.updateId
        poolId := poolId
        envelopeVersion := version + 1
        target := target
        reason := reason }).run)

end Store

/-! ### Calls -/

/-- A request to the store. The settlement of lost results that ends
`reconcile_expired` runs in transactions of its own: `lostResults` selects, and
`settleLostResult` settles one attempt. -/
inductive Call
  | registerOwner (ownerId bootGeneration : String)
  | heartbeatOwner (ownerId bootGeneration : String)
  | createRoot (spec : RootSpec)
  | submitRun (root : RootSpec) (key inputDigest : String) (spec : RunSpec)
  | configurePool (spec : PoolSpec) (groupCeiling : ℤ)
  | submitOperation (spec : OperationSpec)
  | reserveNext (poolId ownerId : String)
  | markSend (reservation : Reservation)
  | heartbeat (reservation : Reservation)
  | computeFinished (reservation : Reservation)
  | commitResult (reservation : Reservation) (artifact : Artifact) (usage : Option ℤ)
      (attachments : List Artifact)
  | unknown (reservation : Reservation) (reason : String)
  | fail (reservation : Reservation) (reason : String) (notSent retry : Bool) (delay : Time)
  | cancel (rootId tenantId : String)
  | finishRun (rootId tenantId : String) (state : RootState) (result : Option Artifact)
      (reason : Option String)
  | bindCompletion (operationId tenantId taskToken : String)
  | claimEvents (ownerId : String) (limit : ℕ)
  | delivered (eventId : EventId) (ownerId : String) (deliveryNumber : ℕ)
  | deferEvent (eventId : EventId) (ownerId : String) (deliveryNumber : ℕ) (delay : Time)
  | reconcile
  | lostResults
  | settleLostResult (attemptId : String)
  | quiesceEngine (poolId engineEpoch token : String)
  | resumeEngine (poolId engineEpoch token : String)
  | confirmEpochStopped (poolId engineEpoch : String) (evidence : Store.Evidence)
      (recover : Bool)
  | settleIdleUnknown (poolId engineEpoch : String) (idleSince : Time)
      (attemptIds : List String)
  | updateTarget (poolId : String) (target : ℤ) (version : ℕ) (reason : String)

/-- What a request returns. -/
inductive Reply
  | none
  | flag (value : Bool)
  | count (value : ℕ)
  | text (value : String)
  | texts (values : List String)
  | reservation (value : Option Reservation)
  | events (values : List OutboxRow)

/-- Wrap the result of a transaction. -/
def Store.reply {α : Type} (wrap : α → Reply) (p : Transaction α) : Transaction Reply :=
  p.bind fun value => .ret (wrap value)

/-- The transaction that answers a request. -/
def Call.code (sha256 : String → String) (env : Env) : Call → Transaction Reply
  | .registerOwner ownerId bootGeneration =>
    Store.reply (fun _ => .none) (Store.registerOwner env ownerId bootGeneration)
  | .heartbeatOwner ownerId bootGeneration =>
    Store.reply (fun _ => .none) (Store.heartbeatOwner env ownerId bootGeneration)
  | .createRoot spec => Store.reply (fun _ => .none) (Store.createRoot env spec)
  | .submitRun root key inputDigest spec =>
    Store.reply .text (Store.submitRun env root key inputDigest spec)
  | .configurePool spec groupCeiling =>
    Store.reply (fun _ => .none) (Store.configurePool spec groupCeiling)
  | .submitOperation spec => Store.reply .text (Store.submitOperation sha256 env spec)
  | .reserveNext poolId ownerId =>
    Store.reply .reservation (Store.reserveNext env poolId ownerId)
  | .markSend reservation => Store.reply (fun _ => .none) (Store.markSend env reservation)
  | .heartbeat reservation => Store.reply .flag (Store.heartbeat env reservation)
  | .computeFinished reservation =>
    Store.reply (fun _ => .none) (Store.computeFinished env reservation)
  | .commitResult reservation artifact usage attachments =>
    Store.reply (fun _ => .none)
      (Store.commitResult sha256 env reservation artifact usage attachments)
  | .unknown reservation reason =>
    Store.reply (fun _ => .none) (Store.unknown env reservation reason)
  | .fail reservation reason notSent retry delay =>
    Store.reply (fun _ => .none) (Store.fail env reservation reason notSent retry delay)
  | .cancel rootId tenantId => Store.reply (fun _ => .none) (Store.cancel env rootId tenantId)
  | .finishRun rootId tenantId state result reason =>
    Store.reply (fun _ => .none) (Store.finishRun sha256 env rootId tenantId state result reason)
  | .bindCompletion operationId tenantId taskToken =>
    Store.reply (fun _ => .none)
      (Store.bindCompletion sha256 env operationId tenantId taskToken)
  | .claimEvents ownerId limit => Store.reply .events (Store.claimEvents env ownerId limit)
  | .delivered eventId ownerId deliveryNumber =>
    Store.reply .flag (Store.delivered env eventId ownerId deliveryNumber)
  | .deferEvent eventId ownerId deliveryNumber delay =>
    Store.reply .flag (Store.deferEvent env eventId ownerId deliveryNumber delay)
  | .reconcile => Store.reply .count (Store.reconcile env)
  | .lostResults => Store.reply .texts (Store.lostResults env)
  | .settleLostResult attemptId => Store.reply .flag (Store.settleLostResult env attemptId)
  | .quiesceEngine poolId engineEpoch token =>
    Store.reply (fun _ => .none) (Store.quiesceEngine poolId engineEpoch token)
  | .resumeEngine poolId engineEpoch token =>
    Store.reply (fun _ => .none) (Store.resumeEngine poolId engineEpoch token)
  | .confirmEpochStopped poolId engineEpoch evidence recover =>
    Store.reply .count (Store.confirmEpochStopped env poolId engineEpoch evidence recover)
  | .settleIdleUnknown poolId engineEpoch idleSince attemptIds =>
    Store.reply .count (Store.settleIdleUnknown env poolId engineEpoch idleSince attemptIds)
  | .updateTarget poolId target version reason =>
    Store.reply (fun _ => .none) (Store.updateTarget env poolId target version reason)

/-! ### Whole methods as atomic steps -/

/-- Settle the listed attempts one after the other; a settlement that raises is
logged and skipped. -/
def Store.settleLost (env : String → Env) : List String → Db → ℕ × Db
  | [], d => (0, d)
  | attemptId :: rest, d =>
    match (Store.settleLostResult (env attemptId) attemptId).run d with
    | .ok (settled, d') =>
      let (count, last) := settleLost env rest d'
      (count + settled.toNat, last)
    | .error _ => settleLost env rest d

/-- `reconcile_expired` as a whole: its main transaction, and then a settlement
transaction for each lost result, each with its own clocks. -/
def Store.reconcileExpired (env : Env) (listing : Env) (settlement : String → Env) (d : Db) :
    Except RuntimeError (ℕ × Db) := do
  let (count, d) ← (Store.reconcile env).run d
  let (lost, d) ← (Store.lostResults listing).run d
  let (settled, d) := Store.settleLost settlement lost d
  return (count + settled, d)

/-- A method call, taken as one atomic transaction. -/
inductive Request
  | call (env : Env) (call : Call)
  | reconcileExpired (env listing : Env) (settlement : String → Env)

/-- Perform a method call on the ledger. -/
def Request.perform (sha256 : String → String) (d : Db) : Request → Except RuntimeError (Reply × Db)
  | .call env asked => (asked.code sha256 env).run d
  | .reconcileExpired env listing settlement =>
    (Store.reconcileExpired env listing settlement d).map fun (count, d) => (.count count, d)

/-- The ledger after a method call; a call that raises changes nothing. -/
def Request.after (sha256 : String → String) (request : Request) (d : Db) : Db :=
  match request.perform sha256 d with
  | .ok (_, d') => d'
  | .error _ => d

/-- The ledgers that method calls can produce from an empty one. -/
inductive Reachable (sha256 : String → String) (authority : Authority) : Db → Prop
  | empty : Reachable sha256 authority (Db.empty authority)
  | step {d : Db} (reached : Reachable sha256 authority d) (request : Request) :
    Reachable sha256 authority (request.after sha256 d)

end IntramindRuntime.Ledger
