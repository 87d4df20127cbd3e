import IntramindRuntime.Scheduling.State

/-!
# Direct calls

The calls of the proxy: none of them awaits anything, so each is one turn. An
error keeps what the call changed before it, as in the source.

## Main definitions

* `enqueue`, `leave` — join and leave the queue of a pool
* `reserve`, `retryConfirmed`, `tryReserve` — obtain the right to send
* `markSend`, `finish`, `unknown` — what became of it
* `MemoryScheduler.expireRequests` — forget old identities and late waiters
* `DirectCall`, `DirectCall.code` — any of these calls
-/

namespace IntramindRuntime.Scheduling

open Library

/-- The exceptions of the scheduler. -/
inductive SchedulerError
  | conflict (message : String)
  | admissionDenied (message : String) (retryable : Bool := false)
  | timeout (message : String)
  | keyError (key : String)
  /-- A call to the ledger or to an engine raised. -/
  | external
  deriving DecidableEq, Repr

/-- Code of the scheduler between two awaits. -/
abbrev Code (α : Type) := Turn MemoryScheduler SchedulerError α

namespace MemoryScheduler

variable (s : MemoryScheduler)

/-- `self.request_identity[identity] = …`. -/
def remember (identity : Identity) : MemoryScheduler :=
  { s with requestIdentity := s.requestIdentity.put identity }

/-- Forget an identity and those of its attempts that hold no permit. -/
def forget (identity : String) : MemoryScheduler :=
  { s with
    requestIdentity := s.requestIdentity.erase identity
    directAttempts := s.directAttempts.filter fun permit =>
      ¬ (permit.requestId = some identity ∧ s.permits.find? permit.attemptId = none) }

/-- `_expire_requests`. -/
def expireRequests (now : Time) : MemoryScheduler :=
  let expired := s.requestIdentity.rows.filter fun known =>
    known.expires ≤ now ∧ s.waiters.find? known.request.requestId = none
  let s := expired.foldl (fun s known => s.forget known.request.requestId) s
  (s.waiters.rows.filter fun waiter => waiter.deadline ≤ now).foldl
    (fun s waiter => s.removeWaiter waiter.identity) s

/-- The direct attempt of a request with the highest generation; the oldest of several. -/
def latest (requestId : String) : Option Permit :=
  (s.directAttempts.rows.filter fun permit => permit.requestId = some requestId).argmax
    Permit.generation

/-- Undo what a refused `try_reserve` left behind. -/
def abandon (poolId requestId : String) : MemoryScheduler :=
  let s := s.removeWaiter requestId
  { s with
    requestIdentity := s.requestIdentity.erase requestId
    queues := Function.update s.queues poolId
      ((s.queues poolId).filter fun entry => entry.identity ≠ requestId) }

end MemoryScheduler

/-- `_pool`. -/
def pool (poolId : String) : Code Pool := do
  let s ← get
  match s.pools.find? poolId with
  | some pool => return pool
  | none => throw (.admissionDenied "qualified inference endpoint unavailable" true)

/-- `_first`. -/
def first (clock : Clock) (poolId : String) : Code (Option Waiter) :=
  modifyGet fun s => s.first clock.monotonic poolId

/-- `_validate`. -/
def validate (request : DirectRequest) (pool : Pool) : Code Unit :=
  let profile := pool.spec
  if request.kind ≠ profile.kind ∨ request.modelProfile ≠ profile.modelProfile ∨
      (∃ revision ∈ request.modelRevision, revision ≠ profile.modelRevision) ∨
      request.capacityProfileId ≠ profile.profileId ∨
      profile.requestLimit < (request.requestBound : ℕ) ∨
      batchLimit profile < (request.batchSize : ℕ) then
    throw (.admissionDenied "direct request exceeds its qualified pool profile")
  else return ()

/-- A request waits, and its identity is remembered. -/
def MemoryScheduler.admitted (s : MemoryScheduler) (clock : Clock) (request : DirectRequest)
    (poolId ownerId : String) : MemoryScheduler :=
  let now := clock.monotonic
  (s.addWaiter
    { ref := s.nextRef, identity := request.requestId, tenantId := request.tenantId, poolId,
      ownerId, workloadClass := request.workloadClass,
      deadline := now + (request.deadline - clock.utc), queuedAt := now,
      kind := .direct }).remember ⟨request, ownerId, now + s.settings.requestTtl⟩

/-- The second half of `_enqueue`: the identity is new, or free again. -/
def joinQueue (clock : Clock) (request : DirectRequest) (poolId ownerId : String) (pool : Pool) :
    Code Time := do
  let s ← get
  if request.deadline ≤ clock.utc then
    throw (.admissionDenied "inference request deadline exceeded" true)
  else if s.settings.endpointLimit ≤ s.queueCounts poolId ∨
      s.settings.tenantLimit ≤ s.tenantCounts (poolId, request.tenantId) then
    throw (.admissionDenied "inference waiting buffer full" true)
  else do
    validate request pool
    modify fun s => s.admitted clock request poolId ownerId
    return clock.monotonic

/-- `_enqueue`. -/
def enqueue (clock : Clock) (request : DirectRequest) (poolId ownerId : String) : Code Time := do
  let pool ← pool poolId
  let s ← get
  match s.requestIdentity.find? request.requestId with
  | none => joinQueue clock request poolId ownerId pool
  | some known =>
    if known.request ≠ request ∨ known.ownerId ≠ ownerId then
      throw (.conflict "direct waiting identity conflict")
    else match s.waiters.find? request.requestId with
      | some existing => return existing.queuedAt
      | none => match s.latest request.requestId with
        | none => joinQueue clock request poolId ownerId pool
        | some latest =>
          if latest.state.retryable then joinQueue clock request poolId ownerId pool
          else throw (.conflict "direct request already accepted")

/-- `leave`. -/
def leave (requestId ownerId : String) : Code Unit := modify fun s =>
  match s.waiters.find? requestId with
  | some waiter => if waiter.ownerId = ownerId then s.removeWaiter requestId else s
  | none => s

/-- The generation of the next attempt of a request, or `none` while the attempt
before it may still compute. -/
def nextGeneration (request : DirectRequest) (poolId ownerId : String) (pool : Pool) :
    Option String → Code (Option ℕ)
  | none => return some 0
  | some previousAttemptId => do
    let s ← get
    match s.directAttempts.find? previousAttemptId with
    | none => throw (.conflict "recovery identity conflict")
    | some old =>
      if old.reservation.map DirectReservation.request ≠ some request ∨ old.ownerId ≠ ownerId ∨
          old.poolId ≠ poolId then throw (.conflict "recovery identity conflict")
      else if old.state.retryable = false then
        throw (.conflict "inference termination is not proven")
      else if 2 < old.generation + 1 then
        throw (.admissionDenied "inference recovery limit reached")
      else if old.state = .failedRecoverable ∧ old.engineEpoch = pool.epoch ∧
          old.idleVerified = false then return none
      else return some (old.generation + 1)

/-- The permit of a new direct attempt. -/
def DirectReservation.permit (reservation : DirectReservation) : Permit where
  attemptId := reservation.attemptId
  poolId := reservation.poolId
  ownerId := reservation.ownerId
  workloadClass := reservation.request.workloadClass
  engineEpoch := reservation.engineEpoch
  kind := .direct
  reservation := some reservation

/-- The waiter of a request leaves its queue and holds a permit. -/
def MemoryScheduler.grant (s : MemoryScheduler) (reservation : DirectReservation) :
    MemoryScheduler :=
  let s := s.removeWaiter reservation.request.requestId
  { s with
    permits := s.permits.put reservation.permit
    directAttempts := s.directAttempts.put reservation.permit }

/-- `_reserve`; `uuid` is what `uuid4()` returns. -/
def reserve (clock : Clock) (uuid : String) (request : DirectRequest) (poolId ownerId : String)
    (previousAttemptId : Option String) : Code (Option DirectReservation) := do
  modify fun s => s.expireDirty clock.monotonic
  let pool ← pool poolId
  let s ← get
  match s.waiters.find? request.requestId with
  | none => return none
  | some waiter =>
    if waiter.ownerId ≠ ownerId then return none
    else if request.deadline ≤ clock.utc ∨ s.controlReady = false ∨
        s.readyFor clock.monotonic poolId = false then return none
    else do
      validate request pool
      if (∃ epoch ∈ request.expectedEngineEpoch, epoch ≠ pool.epoch) ∧
          previousAttemptId = none then throw (.conflict "proxy has an older engine epoch")
      else match ← nextGeneration request poolId ownerId pool previousAttemptId with
        | none => return none
        | some generation => do
          let head ← first clock poolId
          let s ← get
          if head = some waiter ∧
              SlotCapacity.tryAcquire pool s.permits s.pools request.workloadClass then do
            let reservation : DirectReservation :=
              ⟨uuid, request, poolId, pool.epoch, ownerId, generation⟩
            modify fun s => s.grant reservation
            return some reservation
          else return none

/-- `retry_confirmed`. -/
def retryConfirmed (clock : Clock) (uuid : String) (request : DirectRequest)
    (poolId ownerId previousAttemptId : String) : Code (Option DirectReservation) :=
  reserve clock uuid request poolId ownerId (some previousAttemptId)

/-- The body of the `try` statement of `try_reserve`. -/
def tryAdmitted (clock : Clock) (uuid : String) (request : DirectRequest)
    (poolId ownerId : String) : Code (Except String DirectReservation) := do
  match ← (enqueue clock request poolId ownerId).attempt with
  | .error (.admissionDenied _ true) => return .error "inference_capacity"
  | .error error => throw error
  | .ok _ =>
    match ← reserve clock uuid request poolId ownerId none with
    | some reservation => return .ok reservation
    | none => return .error "inference_capacity"

/-- Whether a turn came back with a reservation. -/
def granted : Except SchedulerError (Except String DirectReservation) → Bool
  | .ok (.ok _) => true
  | _ => false

/-- `try_reserve`: a reservation, or the reason why there is none. -/
def tryReserve (clock : Clock) (uuid : String) (request : DirectRequest)
    (poolId ownerId : String) : Code (Except String DirectReservation) := do
  let s ← get
  match s.pools.find? poolId with
  | none => return .error "model_not_ready"
  | some pool =>
    if s.controlReady = false ∨ pool.health ≠ .healthy ∨ pool.groupHealth ≠ .healthy ∨
        pool.target ≤ 0 ∨ s.readyFor clock.monotonic poolId = false then
      return .error "model_not_ready"
    else if reached clock.utc request.dispatchBefore then return .error "dispatch_cutoff"
    else if ∃ epoch ∈ request.expectedEngineEpoch, epoch ≠ pool.epoch then
      return .error "model_not_ready"
    else (tryAdmitted clock uuid request poolId ownerId).cleanup fun outcome s =>
      if granted outcome then s else s.abandon poolId request.requestId

/-- `_direct`. -/
def direct (reservation : DirectReservation) : Code Permit := do
  let s ← get
  match s.directAttempts.find? reservation.attemptId with
  | none => throw (.conflict "stale direct request ownership")
  | some attempt =>
    if attempt.reservation = some reservation then return attempt
    else throw (.conflict "stale direct request ownership")

/-- `mark_send`. -/
def markSend (clock : Clock) (reservation : DirectReservation) : Code Unit := do
  let attempt ← direct reservation
  let s ← get
  if attempt.state ≠ .reserved ∨ s.permits.find? attempt.attemptId = none ∨
      reservation.request.deadline ≤ clock.utc then
    throw (.conflict "direct attempt cannot send")
  else modify fun s => s.editDirect attempt.attemptId fun p => { p with state := .sendIntent }

/-- The proofs of termination that `finish` accepts. -/
inductive Evidence
  | completedResponse | notSent
  deriving DecidableEq, Repr

/-- The state of an attempt that ended with some evidence. -/
def Evidence.state : Evidence → PermitState
  | .completedResponse => .finished
  | .notSent => .failedNotSent

/-- `finish`. -/
def finish (reservation : DirectReservation) (evidence : Evidence) : Code Unit := do
  let attempt ← direct reservation
  let s ← get
  if evidence = .completedResponse ∧ attempt.state = .reserved then
    throw (.conflict "direct attempt has not sent")
  else if s.permits.find? attempt.attemptId = none then return ()
  else modify fun s => s.endDirect attempt.attemptId fun p => { p with state := evidence.state }

/-- `unknown`. -/
def unknown (clock : Clock) (reservation : DirectReservation) : Code Unit := do
  let attempt ← direct reservation
  let s ← get
  if s.permits.find? attempt.attemptId = none then return ()
  else modify fun s => s.editDirect attempt.attemptId fun p =>
    { p with state := .unknown, unknownAt := some clock.utc }

/-- A call that awaits nothing. -/
inductive DirectCall
  | enqueue (request : DirectRequest) (poolId ownerId : String)
  | reserve (request : DirectRequest) (poolId ownerId : String)
  | retryConfirmed (request : DirectRequest) (poolId ownerId previousAttemptId : String)
  | tryReserve (request : DirectRequest) (poolId ownerId : String)
  | markSend (reservation : DirectReservation)
  | finish (reservation : DirectReservation) (evidence : Evidence)
  | unknown (reservation : DirectReservation)
  | leave (requestId ownerId : String)

/-- The request that a call may let join the queue. -/
def DirectCall.joins : DirectCall → Option DirectRequest
  | .enqueue request _ _ | .tryReserve request _ _ => some request
  | _ => none

/-- What a call executes. -/
def DirectCall.code (clock : Clock) (uuid : String) : DirectCall → Code Unit
  | .enqueue request poolId ownerId => discard (Scheduling.enqueue clock request poolId ownerId)
  | .reserve request poolId ownerId =>
    discard (Scheduling.reserve clock uuid request poolId ownerId none)
  | .retryConfirmed request poolId ownerId previousAttemptId =>
    discard (Scheduling.retryConfirmed clock uuid request poolId ownerId previousAttemptId)
  | .tryReserve request poolId ownerId =>
    discard (Scheduling.tryReserve clock uuid request poolId ownerId)
  | .markSend reservation => Scheduling.markSend clock reservation
  | .finish reservation evidence => Scheduling.finish reservation evidence
  | .unknown reservation => Scheduling.unknown clock reservation
  | .leave requestId ownerId => Scheduling.leave requestId ownerId

end IntramindRuntime.Scheduling
