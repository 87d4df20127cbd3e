import IntramindRuntime.Contracts
import IntramindRuntime.Library.KeyedTable
import IntramindRuntime.Library.Turn
import Mathlib.Data.List.MinMax
import Mathlib.Data.List.Sort

/-!
# The state of the memory scheduler

The runtime API holds the permits of all configured endpoints in its own memory.
This file models that memory: the pools as last read from the ledger, the waiters
in their queues, the permits, and the direct attempts and request identities that
outlive a permit. A direct attempt that holds a permit is one object in two maps;
here it is a row of both tables, and every change of it writes both.

## Main definitions

* `DirectRequest`, `DirectReservation` — the contracts of foreground inference
* `Pool`, `Waiter`, `Permit` — the records of the scheduler
* `SlotCapacity.tryAcquire` — whether an endpoint has room for one more inference
* `MemoryScheduler` — the state of the scheduler
* `MemoryScheduler.addWaiter`, `MemoryScheduler.removeWaiter`, `MemoryScheduler.first` —
  the queues
-/

namespace IntramindRuntime.Scheduling

open Library

/-- Whether a caller waits for capacity or asks once. -/
inductive AdmissionMode
  | wait | try
  deriving DecidableEq, Repr

/-- One foreground inference, as the proxy asks for it. -/
structure DirectRequest where
  requestId : String
  tenantId : String
  payloadDigest : String
  modelProfile : String
  modelRevision : Option String := none
  expectedEngineEpoch : Option String := none
  capacityProfileId : String
  kind : Kind := .llm
  requestBound : ℕ+
  batchSize : ℕ+ := 1
  batchSize_le : batchSize ≤ 256 := by decide
  deadline : Time
  workloadClass : WorkloadClass := .qa
  logicalRequestId : Option String := none
  admissionMode : AdmissionMode := .wait
  dispatchBefore : Option Time := none
  executionTimeout : Option Time := none
  executionTimeout_bounds : ∀ seconds ∈ executionTimeout, 0 < seconds ∧ seconds ≤ 86400000000 := by
    decide
  deriving DecidableEq

theorem DirectRequest.single_le : (1 : ℕ+) ≤ 256 := by decide

theorem DirectRequest.untimed (seconds : Time) (timed : seconds ∈ (none : Option Time)) :
    0 < seconds ∧ seconds ≤ 86400000000 := by
  cases timed

/-- The right to send one foreground inference. -/
structure DirectReservation where
  attemptId : String
  request : DirectRequest
  poolId : String
  engineEpoch : String
  ownerId : String
  generation : ℕ := 0
  deriving DecidableEq

/-- `RANK`: a lower rank is served first. -/
def rank : WorkloadClass → ℕ
  | .qa => 0
  | .userTask => 1
  | .background => 2
  | .maintenance => 3

/-- `getattr(profile, "max_batch_size", 1)`. -/
def batchLimit (profile : PoolSpec) : ℕ :=
  match profile.work with
  | .embedding _ maxBatchSize | .rerank _ maxBatchSize => maxBatchSize
  | .llm _ | .speech _ => 1

/-- The readings of both clocks during one turn. -/
structure Clock where
  /-- `monotonic()` and the time of the event loop. -/
  monotonic : Time
  /-- `datetime.now(UTC)`. -/
  utc : Time
  deriving DecidableEq

/-- What the scheduler knows of a pool and of its group since the last refresh.
`configure_pool` writes a pool row under the identifier in its specification. -/
structure Pool where
  spec : PoolSpec
  epoch : String
  health : Health
  target : ℕ
  groupId : String
  groupHealth : Health
  groupCeiling : ℤ
  deriving DecidableEq

instance : Keyed Pool String := ⟨fun pool => pool.spec.poolId⟩

/-- Who waits, or holds a permit: a foreground request, an executor, or an attempt
of the release before direct permits moved to memory. -/
inductive PermitKind
  | direct | durable | legacy
  deriving DecidableEq, Repr

/-- A caller waiting for capacity. -/
structure Waiter where
  /-- Which object this is: waiters are compared with `is`, so no two share it. -/
  ref : ℕ
  identity : String
  tenantId : String
  poolId : String
  ownerId : String
  workloadClass : WorkloadClass
  deadline : Time
  queuedAt : Time
  kind : PermitKind
  deriving DecidableEq

instance : Keyed Waiter String := ⟨Waiter.identity⟩

/-- An entry of a queue; it outlives the waiter it was pushed for. -/
structure Entry where
  rank : ℕ
  queuedAt : Time
  identity : String
  deriving DecidableEq

/-- The order of tuples. -/
def Entry.le (e e' : Entry) : Prop :=
  e.rank < e'.rank ∨ (e.rank = e'.rank ∧
    (e.queuedAt < e'.queuedAt ∨ (e.queuedAt = e'.queuedAt ∧ e.identity ≤ e'.identity)))

instance : DecidableRel Entry.le := fun e e' => by
  unfold Entry.le
  infer_instance

/-- The states a permit can be in: those of a direct attempt, and those the ledger
reports of a durable one. -/
inductive PermitState
  | reserved | sendIntent | active | unknown | backendFinished | resultCommitted
  | finished | failedNotSent | failed | failedRecoverable
  deriving DecidableEq, Repr

/-- A direct attempt is live until its compute is proven to have ended. -/
def PermitState.live : PermitState → Bool
  | .reserved | .sendIntent | .unknown => true
  | _ => false

/-- After these a request may be admitted again. -/
def PermitState.retryable : PermitState → Bool
  | .failedNotSent | .failedRecoverable => true
  | _ => false

/-- The state of a durable attempt, as a permit shows it. -/
def PermitState.ofAttempt : AttemptState → PermitState
  | .reserved => .reserved
  | .sendIntent => .sendIntent
  | .active => .active
  | .unknown => .unknown
  | .backendFinished => .backendFinished
  | .resultCommitted => .resultCommitted
  | .failed => .failed
  | .failedNotSent => .failedNotSent

/-- The state of a direct attempt of the ledger, as a permit shows it. -/
def PermitState.ofDirect : DirectState → PermitState
  | .reserved => .reserved
  | .sendIntent => .sendIntent
  | .unknown => .unknown
  | .finished => .finished
  | .failedNotSent => .failedNotSent
  | .failed => .failed
  | .failedRecoverable => .failedRecoverable

/-- The right of one attempt to use an endpoint. -/
structure Permit where
  attemptId : String
  poolId : String
  ownerId : String
  workloadClass : WorkloadClass
  engineEpoch : String
  kind : PermitKind
  state : PermitState := .reserved
  reservation : Option DirectReservation := none
  unknownAt : Option Time := none
  idleVerified : Bool := false
  deriving DecidableEq

instance : Keyed Permit String := ⟨Permit.attemptId⟩

/-- The request a direct attempt was made for. -/
def Permit.requestId (permit : Permit) : Option String :=
  permit.reservation.map fun reservation => reservation.request.requestId

/-- The recovery generation of a direct attempt. -/
def Permit.generation (permit : Permit) : ℕ :=
  (permit.reservation.map DirectReservation.generation).getD 0

/-! ## Capacity -/

/-- How many inferences an endpoint takes at once. -/
def Pool.endpointLimit (pool : Pool) : ℕ :=
  if pool.spec.kind = .llm then pool.spec.transportLimit
  else min pool.target pool.spec.hardCeiling

/-- The permits of a pool. -/
def permitsOf (permits : Table Permit) (poolId : String) : List Permit :=
  permits.rows.filter fun p => p.poolId = poolId

/-- The permits of a group whose pools do not serve language models. -/
def groupPermits (permits : Table Permit) (pools : Table Pool) (groupId : String) : List Permit :=
  permits.rows.filter fun p =>
    match pools.find? p.poolId with
    | some other => decide (other.groupId = groupId) && decide (other.spec.kind ≠ .llm)
    | none => false

/-- Whether there is room for one more inference of a class on an endpoint. -/
def SlotCapacity.tryAcquire (pool : Pool) (permits : Table Permit) (pools : Table Pool)
    (workloadClass : WorkloadClass) : Bool :=
  let active := permitsOf permits pool.spec.poolId
  if pool.health ≠ .healthy ∨ pool.groupHealth ≠ .healthy ∨ pool.target ≤ 0 then false
  else if pool.endpointLimit ≤ active.length then false
  else if pool.spec.kind = .llm ∧ workloadClass ≠ .qa ∧
      (pool.spec.backgroundTransportLimit : ℕ) ≤
        (active.filter fun p => p.workloadClass ≠ .qa).length then false
  else if pool.spec.kind ≠ .llm ∧
      pool.groupCeiling ≤ (groupPermits permits pools pool.groupId).length then false
  else true

/-! ## The scheduler -/

/-- What the scheduler is constructed with. -/
structure Settings where
  graceSeconds : Time := 0
  endpointLimit : ℤ := 1024
  tenantLimit : ℤ := 256
  requestTtl : Time := 3600000000
  /-- The lease of the store, in microseconds. -/
  lease : Time
  /-- The pools with an address to read slots from. -/
  slotProbes : Finset String := ∅
  /-- The serving pools with an address to read attempts in flight from. -/
  attemptProbes : Finset String := ∅
  attemptTimeouts : String → Option Time := fun _ => none
  restartDrain : String → Option Time := fun _ => none

/-- Which request an identity was used for, by whom, and until when it is remembered. -/
structure Identity where
  request : DirectRequest
  ownerId : String
  expires : Time
  deriving DecidableEq

instance : Keyed Identity String := ⟨fun identity => identity.request.requestId⟩

/-- The probes of a pool that agree so far. -/
structure Streak where
  epoch : String
  key : String
  since : Time
  probes : ℕ
  streak : Finset String
  deriving DecidableEq

/-- The memory of the process that owns the endpoints. -/
structure MemoryScheduler where
  settings : Settings
  bootGeneration : String
  started : Bool := false
  controlReady : Bool := true
  pools : Table Pool := .empty
  waiters : Table Waiter := .empty
  /-- How many waiters were created. -/
  nextRef : ℕ := 0
  queues : String → List Entry := fun _ => []
  queueCounts : String → ℤ := fun _ => 0
  tenantCounts : String × String → ℤ := fun _ => 0
  durableWaiterRefs : String → ℤ := fun _ => 0
  permits : Table Permit := .empty
  directAttempts : Table Permit := .empty
  requestIdentity : Table Identity := .empty
  slotIdle : String → ℕ := fun _ => 0
  unknownIdle : String → Option Streak := fun _ => none
  dirtyPools : Finset String := ∅
  oldOwnerExpires : String → Option Time := fun _ => none
  readyByPool : String → Option Time := fun _ => none
  slotFallbackAt : String → Option Time := fun _ => none

/-- Whether a moment has come; `none` never comes. -/
def reached (now : Time) : Option Time → Bool
  | some moment => moment ≤ now
  | none => false

namespace MemoryScheduler

variable (s : MemoryScheduler)

/-- `monotonic() >= self._ready_by_pool.get(pool_id, inf)`. -/
def readyFor (now : Time) (poolId : String) : Bool := reached now (s.readyByPool poolId)

/-- Dirty pools whose fallback time has come are clean again. -/
def expireDirty (now : Time) : MemoryScheduler :=
  { s with dirtyPools := s.dirtyPools.filter fun poolId =>
      reached now (s.slotFallbackAt poolId) = false }

/-- Push a waiter on the queue of its pool. -/
def addWaiter (waiter : Waiter) : MemoryScheduler :=
  let entry : Entry := ⟨rank waiter.workloadClass, waiter.queuedAt, waiter.identity⟩
  { s with
    waiters := s.waiters.put waiter
    nextRef := s.nextRef + 1
    queues := Function.update s.queues waiter.poolId
      ((s.queues waiter.poolId).orderedInsert Entry.le entry)
    queueCounts := if waiter.kind = .direct then
        Function.update s.queueCounts waiter.poolId (s.queueCounts waiter.poolId + 1)
      else s.queueCounts
    tenantCounts := if waiter.kind = .direct then
        Function.update s.tenantCounts (waiter.poolId, waiter.tenantId)
          (s.tenantCounts (waiter.poolId, waiter.tenantId) + 1)
      else s.tenantCounts }

/-- Remove a waiter; its queue entry stays behind. -/
def removeWaiter (identity : String) : MemoryScheduler :=
  match s.waiters.find? identity with
  | none => s
  | some waiter =>
    { s with
      waiters := s.waiters.erase identity
      queueCounts := if waiter.kind = .direct then
          Function.update s.queueCounts waiter.poolId (s.queueCounts waiter.poolId - 1)
        else s.queueCounts
      tenantCounts := if waiter.kind = .direct then
          Function.update s.tenantCounts (waiter.poolId, waiter.tenantId)
            (s.tenantCounts (waiter.poolId, waiter.tenantId) - 1)
        else s.tenantCounts }

/-- Read a queue from its head. Entries without their waiter are dropped, and a
waiter whose deadline has passed is removed. -/
def scan (now : Time) (poolId : String) :
    List Entry → MemoryScheduler → Option Waiter × MemoryScheduler
  | [], s => (none, { s with queues := Function.update s.queues poolId [] })
  | entry :: rest, s =>
    match s.waiters.find? entry.identity with
    | some waiter =>
      if waiter.poolId = poolId ∧ waiter.queuedAt = entry.queuedAt then
        if waiter.deadline ≤ now then scan now poolId rest (s.removeWaiter entry.identity)
        else (some waiter, { s with queues := Function.update s.queues poolId (entry :: rest) })
      else scan now poolId rest s
    | none => scan now poolId rest s

/-- The waiter at the head of the queue of a pool. -/
def first (now : Time) (poolId : String) : Option Waiter × MemoryScheduler :=
  scan now poolId (s.queues poolId) s

/-- Change a direct attempt, in both maps that hold it. -/
def editDirect (attemptId : String) (f : Permit → Permit) : MemoryScheduler :=
  { s with
    directAttempts := s.directAttempts.modify attemptId f
    permits := s.permits.modify attemptId f }

/-- `SlotCapacity.release`. -/
def release (attemptId : String) : MemoryScheduler :=
  { s with permits := s.permits.erase attemptId }

/-- Change a direct attempt and take its permit away. -/
def endDirect (attemptId : String) (f : Permit → Permit) : MemoryScheduler :=
  (s.editDirect attemptId f).release attemptId

end MemoryScheduler

end Scheduling

end IntramindRuntime
