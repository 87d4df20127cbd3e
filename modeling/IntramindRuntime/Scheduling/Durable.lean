import IntramindRuntime.Scheduling.Direct

/-!
# Durable permits

An executor asks for a permit with `durable` and gives it back with
`durable_release`. Both await the ledger, and `durable` also awaits its turn, so a
call is a state machine: a turn runs until the next await and says what the call is
suspended on. A cancelled call runs its `finally` block.

## Main definitions

* `DurableCall`, `DurableWait` — the arguments of a call, and what it keeps while it waits
* `Suspended` — where a call awaits
* `resume`, `interrupted` — the turn of a suspended call
* `durableHeartbeat` — the last check before an executor sends
-/

namespace IntramindRuntime.Scheduling

open Library

/-- The arguments of `durable`. -/
structure DurableCall where
  attemptId : String
  poolId : String
  ownerId : String
  engineEpoch : String
  workloadClass : WorkloadClass
  deadline : Time
  deriving DecidableEq

/-- What the ledger says about an attempt that asks for a permit. -/
structure LedgerAttempt where
  poolId : String
  ownerId : String
  engineEpoch : String
  computeHeld : Bool
  state : AttemptState
  createdAt : Time
  operationCreatedAt : Time
  priority : Priority
  rootDeadline : Time
  operation : OperationSpec

/-- What the ledger says about an attempt that has waited for a while. -/
structure WaitingAttempt where
  state : AttemptState
  operationState : OperationState
  rootState : RootState
  cancelRequested : Bool
  deadline : Time

/-- The variables of a `durable` call in its loop. -/
structure DurableWait where
  call : DurableCall
  operation : OperationSpec
  waiter : Waiter
  nextValidation : Time

/-- What a call awaits. -/
inductive Suspended
  /-- `durable`: the row of its attempt. -/
  | identifying (call : DurableCall)
  /-- `durable`: a notification, or the end of a second. -/
  | waiting (wait : DurableWait)
  /-- `durable`: whether the attempt may still be dispatched. The pool was read before. -/
  | validating (wait : DurableWait) (pool : Pool)
  /-- `durable_release`: whether the attempt holds compute. -/
  | releasing (attemptId : String)

/-- How a turn of a call ends. -/
inductive Progress
  | done
  | suspended (on : Suspended)

/-- One second, in microseconds. -/
def second : Time := 1000000

/-- The permit of an executor. -/
def DurableCall.permit (call : DurableCall) : Permit where
  attemptId := call.attemptId
  poolId := call.poolId
  ownerId := call.ownerId
  workloadClass := call.workloadClass
  engineEpoch := call.engineEpoch
  kind := .durable

namespace MemoryScheduler

variable (s : MemoryScheduler)

/-- The `finally` block of `durable`. -/
def leaveDurable (waiter : Waiter) : MemoryScheduler :=
  let refs := s.durableWaiterRefs waiter.identity - 1
  let s := { s with
    durableWaiterRefs := Function.update s.durableWaiterRefs waiter.identity (max refs 0) }
  if refs ≤ 0 ∧ s.waiters.find? waiter.identity = some waiter then
    s.removeWaiter waiter.identity
  else s

/-- One more call waits for a durable attempt. -/
def countRef (attemptId : String) : MemoryScheduler :=
  { s with durableWaiterRefs :=
      Function.update s.durableWaiterRefs attemptId (s.durableWaiterRefs attemptId + 1) }

/-- The waiter of a durable attempt leaves its queue and holds a permit. -/
def grantDurable (call : DurableCall) : MemoryScheduler :=
  let s := s.removeWaiter call.attemptId
  { s with permits := s.permits.put call.permit }

end MemoryScheduler

/-- The checks of a call against the pool it asks for. -/
def checkPool (call : DurableCall) (operation : OperationSpec) (pool : Pool) : Code Unit :=
  if pool.epoch ≠ call.engineEpoch then
    throw (.conflict "durable attempt engine epoch changed before permit")
  else if operation.modelProfile ≠ pool.spec.modelProfile ∨
      (∃ profile ∈ operation.capacityProfileId, profile ≠ pool.spec.profileId) then
    throw (.conflict "durable attempt profile changed before permit")
  else return ()

/-- Run the `finally` block unless the call is suspended. -/
def unlessSuspended (waiter : Waiter) : Except SchedulerError Progress → MemoryScheduler →
    MemoryScheduler
  | .ok (.suspended _), s => s
  | _, s => s.leaveDurable waiter

/-- The end of the loop of `durable`: take the permit, or wait. -/
def dispatch (clock : Clock) (wait : DurableWait) (pool : Pool) : Code Progress := do
  let call := wait.call
  let s ← get
  if wait.waiter.deadline ≤ clock.monotonic then
    throw (.timeout "durable permit deadline exceeded")
  else if s.controlReady ∧ s.readyFor clock.monotonic call.poolId ∧
      pool.epoch = call.engineEpoch then do
    let head ← first clock call.poolId
    let s ← get
    if head = some wait.waiter ∧
        SlotCapacity.tryAcquire pool s.permits s.pools call.workloadClass then do
      modify fun s => s.grantDurable call
      return .done
    else return .suspended (.waiting wait)
  else return .suspended (.waiting wait)

/-- The loop of `durable`, from its start to the next await. -/
def durableLoop (clock : Clock) (wait : DurableWait) : Code Progress := do
  let call := wait.call
  modify fun s => s.expireDirty clock.monotonic
  let pool ← pool call.poolId
  checkPool call wait.operation pool
  let s ← get
  if s.permits.find? call.attemptId ≠ none then return .done
  else if wait.nextValidation ≤ clock.monotonic then return .suspended (.validating wait pool)
  else dispatch clock wait pool

/-- The waiter of a durable attempt: the one that other calls for it wait with, or a
new one, which is as old as its operation. -/
def durableWaiter (clock : Clock) (call : DurableCall) (operationCreatedAt : Time) :
    Code Waiter := do
  let s ← get
  match s.waiters.find? call.attemptId with
  | none => do
    let now := clock.monotonic
    let waiter : Waiter :=
      { ref := s.nextRef, identity := call.attemptId, tenantId := "", poolId := call.poolId,
        ownerId := call.ownerId, workloadClass := call.workloadClass,
        deadline := now + max 0 (call.deadline - clock.utc),
        queuedAt := now - max 0 (clock.utc - operationCreatedAt), kind := .durable }
    modify fun s => s.addWaiter waiter
    return waiter
  | some waiter =>
    if waiter.kind ≠ .durable ∨ waiter.poolId ≠ call.poolId ∨ waiter.ownerId ≠ call.ownerId ∨
        waiter.workloadClass ≠ call.workloadClass then
      throw (.conflict "durable waiter identity conflict")
    else return waiter

/-- `durable`, for an attempt without a permit: count the call, and enter the loop. -/
def awaitPermit (clock : Clock) (call : DurableCall) (actual : LedgerAttempt) :
    Code Progress := do
  let waiter ← durableWaiter clock call actual.operationCreatedAt
  modify fun s => s.countRef call.attemptId
  (durableLoop clock ⟨call, actual.operation, waiter, clock.monotonic + second⟩).cleanup
    (unlessSuspended waiter)

/-- `durable`, once the row of the attempt is read. -/
def identified (clock : Clock) (call : DurableCall) : Option LedgerAttempt → Code Progress
  | none => throw (.conflict "durable permit identity conflicts with ledger")
  | some actual =>
    if actual.poolId ≠ call.poolId ∨ actual.ownerId ≠ call.ownerId ∨
        actual.engineEpoch ≠ call.engineEpoch ∨
        actual.priority.workloadClass ≠ call.workloadClass ∨
        ¬ (actual.state = .reserved ∨ actual.state = .sendIntent ∨ actual.state = .active) ∨
        (actual.state ≠ .reserved ∧ actual.computeHeld = false) then
      throw (.conflict "durable permit identity conflicts with ledger")
    else do
      let operation := actual.operation
      if min (min actual.rootDeadline (operation.deadline.getD actual.rootDeadline))
          (actual.createdAt + operation.attemptTimeout) < call.deadline then
        throw (.conflict "durable permit deadline exceeds ledger deadline")
      else do
        let pool ← pool call.poolId
        checkPool call operation pool
        let s ← get
        match s.permits.find? call.attemptId with
        | some existing =>
          if existing.kind ≠ .durable ∨ existing.poolId ≠ call.poolId ∨
              existing.ownerId ≠ call.ownerId ∨ existing.engineEpoch ≠ call.engineEpoch then
            throw (.conflict "durable permit ownership conflict")
          else return .done
        | none => awaitPermit clock call actual

/-- `_durable_waiter_valid`, once its row is read. -/
def durableWaiterValid (clock : Clock) : Option WaitingAttempt → Bool
  | none => false
  | some row => row.state = .reserved ∧ row.operationState = .executing ∧
      row.rootState = .running ∧ row.cancelRequested = false ∧ clock.utc < row.deadline

/-- The loop of `durable`, once the attempt is validated. -/
def validated (clock : Clock) (wait : DurableWait) (pool : Pool) (valid : Bool) :
    Code Progress :=
  if valid then
    dispatch clock { wait with nextValidation := clock.monotonic + second } pool
  else throw (.conflict "durable attempt no longer dispatchable")

/-- `durable_release`, up to its await. -/
def durableRelease (attemptId ownerId : String) : Code Progress := do
  let s ← get
  match s.permits.find? attemptId with
  | none => return .done
  | some permit =>
    if permit.kind ≠ .durable ∨ permit.ownerId ≠ ownerId then
      throw (.conflict "durable permit not owned")
    else return .suspended (.releasing attemptId)

/-- `durable_release`, once the ledger has answered. -/
def released (attemptId : String) (computeHeld : Option Bool) : Code Progress := do
  if computeHeld = some true then throw (.conflict "compute termination is not proven")
  else do
    modify fun s => s.release attemptId
    return .done

/-- `durable_heartbeat`. -/
def durableHeartbeat (attemptId ownerId : String) : Code Unit := do
  let s ← get
  match s.permits.find? attemptId with
  | none => throw (.conflict "durable permit not owned")
  | some permit =>
    if permit.kind ≠ .durable ∨ permit.ownerId ≠ ownerId then
      throw (.conflict "durable permit not owned")
    else return ()

/-- What a suspended call is told. -/
inductive Answer
  | attempt (row : Option LedgerAttempt)
  | woken
  | waiting (row : Option WaitingAttempt)
  | computeHeld (held : Option Bool)

/-- A suspended call raises, or is cancelled: its `finally` block runs. -/
def interrupted : Suspended → MemoryScheduler → MemoryScheduler
  | .waiting wait, s | .validating wait _, s => s.leaveDurable wait.waiter
  | .identifying _, s | .releasing _, s => s

/-- The next turn of a suspended call. A call gets the answer it awaits. -/
def resume (clock : Clock) : Suspended → Answer → Code Progress
  | .identifying call, .attempt row => identified clock call row
  | .waiting wait, .woken => (durableLoop clock wait).cleanup (unlessSuspended wait.waiter)
  | .validating wait pool, .waiting row =>
    (validated clock wait pool (durableWaiterValid clock row)).cleanup
      (unlessSuspended wait.waiter)
  | .releasing attemptId, .computeHeld held => released attemptId held
  | on, _ => return .suspended on

end IntramindRuntime.Scheduling
