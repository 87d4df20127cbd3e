import IntramindRuntime.Scheduling.Durable

/-!
# The maintenance loop

One task of the scheduler repeats a turn of maintenance: it renews the ownership of
the pools and reads them again, probes pools that an unclean exit left dirty,
reconciles durable permits with the ledger, settles lost attempts that two probes
prove idle, and forgets old requests. Each step awaits the ledger or an engine in
between. Any exception clears `control_ready` until the next refresh.

## Main definitions

* `MemoryScheduler.adopt` — what a refresh does with what it has read
* `MemoryScheduler.open` — the rest of `start` after the first refresh
* `reconcileEach` — durable permits follow the ledger
* `terminated`, `MemoryScheduler.weigh` — the proof of a probe, and what follows from it
* `Maintenance`, `maintain` — where the loop awaits, and its turns
-/

namespace IntramindRuntime.Scheduling

open Library

/-- A durable attempt that held compute when the process started. -/
structure HydratedAttempt where
  attemptId : String
  poolId : String
  ownerId : String
  engineEpoch : String
  state : AttemptState
  priority : Priority

/-- A direct attempt of the release before, still in the ledger. -/
structure LegacyAttempt where
  attemptId : String
  poolId : String
  ownerId : String
  engineEpoch : String
  state : DirectState
  workloadClass : Option WorkloadClass

/-- The permit of an attempt that survived a restart. -/
def HydratedAttempt.permit (item : HydratedAttempt) : Permit where
  attemptId := item.attemptId
  poolId := item.poolId
  ownerId := item.ownerId
  workloadClass := item.priority.workloadClass
  engineEpoch := item.engineEpoch
  kind := .durable
  state := .ofAttempt item.state

/-- The permit of a legacy direct attempt. -/
def LegacyAttempt.permit (item : LegacyAttempt) : Permit where
  attemptId := item.attemptId
  poolId := item.poolId
  ownerId := item.ownerId
  workloadClass := item.workloadClass.getD .background
  engineEpoch := item.engineEpoch
  kind := .legacy
  state := .ofDirect item.state

namespace MemoryScheduler

variable (s : MemoryScheduler)

/-- End a direct permit of an epoch that is over. -/
def endStale (permit : Permit) : MemoryScheduler :=
  s.endDirect permit.attemptId fun p =>
    { p with state := if p.state = .reserved then .failedNotSent else .failedRecoverable }

/-- The direct permits of a pool that belong to another epoch. -/
def stale (poolId epoch : String) : List Permit :=
  s.permits.rows.filter fun permit =>
    permit.poolId = poolId ∧ permit.engineEpoch ≠ epoch ∧ permit.kind = .direct

/-- Replace what is known of a pool. -/
def adoptPool (clock : Clock) (current : Pool) : MemoryScheduler :=
  let poolId := current.spec.poolId
  let previous := s.pools.find? poolId
  let s := { s with pools := s.pools.put current }
  if ∃ pool ∈ previous, pool.epoch ≠ current.epoch then
    let s := (s.stale poolId current.epoch).foldl endStale s
    if current.health = .healthy ∧ poolId ∈ s.dirtyPools then
      { s with
        readyByPool := Function.update s.readyByPool poolId (some clock.monotonic)
        dirtyPools := s.dirtyPools.erase poolId }
    else s
  else s

/-- The part of `_refresh` after its transaction. -/
def adopt (clock : Clock) (records : List Pool) (durable : List HydratedAttempt)
    (legacy : List LegacyAttempt) : MemoryScheduler :=
  let s := records.foldl (fun s current => s.adoptPool clock current) s
  let permits := (durable.map HydratedAttempt.permit ++ legacy.map LegacyAttempt.permit).foldl
    Table.put s.permits
  { s with permits }

/-- Half an hour, in microseconds. -/
def defaultDrain : Time := 1800000000

/-- When a pool may be used after the start: at once, or after the drain of its
former owner. -/
def schedule (clock : Clock) (poolId : String) : MemoryScheduler :=
  if poolId ∈ s.dirtyPools then
    let timeout := (s.settings.restartDrain poolId).getD
      ((s.settings.attemptTimeouts poolId).getD defaultDrain)
    let expiry := (s.oldOwnerExpires poolId).getD 0 + timeout
    let ready := clock.monotonic + max 0 (expiry - clock.utc)
    { s with
      slotFallbackAt := Function.update s.slotFallbackAt poolId (some ready)
      readyByPool := Function.update s.readyByPool poolId (some ready) }
  else
    let ready := clock.monotonic + s.settings.graceSeconds
    { s with readyByPool := Function.update s.readyByPool poolId (some ready) }

/-- The rest of `start`, once the first refresh has succeeded. -/
def «open» (clock : Clock) : MemoryScheduler :=
  let s := s.pools.rows.foldl (fun s pool => s.schedule clock pool.spec.poolId) s
  { s with started := true }.expireDirty clock.monotonic

/-- Count a probe of the slots of a dirty pool; two idle ones in a row clean it. -/
def probed (clock : Clock) (poolId : String) (idle : Bool) : MemoryScheduler :=
  let count := if idle then s.slotIdle poolId + 1 else 0
  let s := { s with slotIdle := Function.update s.slotIdle poolId count }
  if 2 ≤ count then
    { s with
      readyByPool := Function.update s.readyByPool poolId (some clock.monotonic)
      dirtyPools := s.dirtyPools.erase poolId }
  else s

/-- The permits that the ledger decides about. -/
def reconcilable : List String :=
  (s.permits.rows.filter fun p => p.kind ≠ .direct).map Permit.attemptId

/-- The pools with `UNKNOWN` permits, and the attempts that hold these. -/
def pendingUnknown : List (String × Finset String) :=
  let lost := s.permits.rows.filter fun p => p.state = .unknown
  (lost.map Permit.poolId).eraseDups.map fun poolId =>
    (poolId, ((lost.filter fun p => p.poolId = poolId).map Permit.attemptId).toFinset)

/-- Forget the streak of a pool. -/
def forgetStreak (poolId : String) : MemoryScheduler :=
  { s with unknownIdle := Function.update s.unknownIdle poolId none }

/-- Pools without `UNKNOWN` permits lose their streak. -/
def keepStreaks (pending : List (String × Finset String)) : MemoryScheduler :=
  { s with unknownIdle := fun poolId =>
      if poolId ∈ pending.map Prod.fst then s.unknownIdle poolId else none }

end MemoryScheduler

/-- `_reconcile_durable`, once the ledger has answered which attempts are live. -/
def reconcileEach (live : List (String × PermitState)) : List String → Code Unit
  | [] => return ()
  | attemptId :: rest =>
    match live.reverse.lookup attemptId with
    | some state => do
      let s ← get
      match s.permits.find? attemptId with
      | none => throw (.keyError attemptId)
      | some _ => do
        modify fun s => { s with
          permits := s.permits.modify attemptId fun p => { p with state := state } }
        reconcileEach live rest
    | none => do
      modify fun s => s.release attemptId
      reconcileEach live rest

/-! ## Proofs that lost attempts are idle -/

/-- What an engine or a serving pool answers to a probe. -/
inductive ProbeReply
  /-- The slots of a llama.cpp engine: whether all are idle. -/
  | slots (idle : Bool)
  /-- The attempts in flight in one boot of a serving pool. -/
  | registry (bootId : String) (inflight : Finset String)
  /-- No answer, or not one that proves anything. -/
  | nothing

/-- `_terminated`: the key of a proof, and the candidates it proves not computing. -/
def terminated (pool : Pool) (candidates : Finset String) :
    ProbeReply → Option (String × Finset String)
  | .slots idle => if pool.spec.kind = .llm ∧ idle then some ("slots", candidates) else none
  | .registry bootId inflight =>
    if pool.spec.kind ≠ .llm then some (bootId, candidates \ inflight) else none
  | .nothing => none

/-- What a turn decides about the lost attempts of a pool. -/
structure Verdict where
  epoch : String
  since : Time
  streak : Finset String

namespace MemoryScheduler

variable (s : MemoryScheduler)

/-- Whether a pool has an address to probe. -/
def probes (pool : Pool) : Bool :=
  if pool.spec.kind = .llm then pool.spec.poolId ∈ s.settings.slotProbes
  else pool.spec.poolId ∈ s.settings.attemptProbes

/-- The streak that a probe extends: that of the same epoch and key, or a new one. -/
def streakFor (pool : Pool) (key : String) (started : Time) (proven : Finset String) : Streak :=
  match s.unknownIdle pool.spec.poolId with
  | some streak =>
    if streak.epoch = pool.epoch ∧ streak.key = key then streak
    else ⟨pool.epoch, key, started, 0, proven⟩
  | none => ⟨pool.epoch, key, started, 0, proven⟩

/-- Extend the streak of a pool by a probe. Its second probe gives a verdict. -/
def weigh (pool : Pool) (started : Time) :
    Option (String × Finset String) → MemoryScheduler × Option Verdict
  | none => (s.forgetStreak pool.spec.poolId, none)
  | some (key, proven) =>
    if proven = ∅ then (s.forgetStreak pool.spec.poolId, none)
    else
      let current := s.streakFor pool key started proven
      let streak := current.streak ∩ proven
      if streak = ∅ then (s.forgetStreak pool.spec.poolId, none)
      else if current.probes + 1 < 2 then
        let longer : Streak := { current with probes := current.probes + 1, streak }
        ({ s with unknownIdle := Function.update s.unknownIdle pool.spec.poolId (some longer) },
          none)
      else (s.forgetStreak pool.spec.poolId, some ⟨current.epoch, current.since, streak⟩)

/-- The permits that a verdict is about. -/
def judged (poolId : String) (verdict : Verdict) : List Permit :=
  s.permits.rows.filter fun permit =>
    permit.poolId = poolId ∧ permit.attemptId ∈ verdict.streak ∧ permit.state = .unknown

/-- Release a direct permit that a verdict covers. -/
def settleIdle (verdict : Verdict) (permit : Permit) : MemoryScheduler :=
  if permit.kind = .direct ∧ permit.engineEpoch = verdict.epoch ∧
      (∃ unknownAt ∈ permit.unknownAt, unknownAt < verdict.since) then
    s.endDirect permit.attemptId fun p =>
      { p with state := .failedRecoverable, idleVerified := true }
  else s

/-- The attempts of a verdict that only the ledger can settle. -/
def durableOf (judged : List Permit) : List String :=
  (judged.filter fun permit => permit.kind ≠ .direct).map Permit.attemptId

end MemoryScheduler

/-! ## The loop -/

/-- The arguments of `Store.settle_idle_unknown`. -/
structure IdleSettlement where
  poolId : String
  epoch : String
  since : Time
  attemptIds : List String

/-- What the loop awaits. -/
inductive Maintenance
  | sleeping
  /-- The transaction of `_refresh`. -/
  | refreshing
  /-- The slots of a dirty pool. -/
  | probing (poolId : String) (rest : List String)
  /-- Which of these attempts are live. -/
  | reconciling (active : List String)
  /-- The proof for the lost attempts of a pool, asked for at `started`. -/
  | proving (pool : Pool) (candidates : Finset String) (started : Time)
      (rest : List (String × Finset String))
  /-- `Store.settle_idle_unknown`. -/
  | settling (request : IdleSettlement) (rest : List (String × Finset String))

/-- What a turn of `_settle_idle_unknown` learns. The code keeps no such record; it is
here to speak about the history of the probes. -/
inductive Observation
  /-- The turn starts; these pools have `UNKNOWN` permits, and no others. -/
  | scanned (pools : List String)
  /-- Nothing is proven about a pool. -/
  | missed (poolId : String)
  /-- A probe started at `started` proves attempts of a pool not computing. -/
  | proved (poolId epoch key : String) (started : Time) (proven : Finset String)

/-- How a turn of the loop ends. -/
structure Turned where
  scheduler : MemoryScheduler
  next : Maintenance
  seen : List Observation := []

/-- `_settle_idle_unknown`, from pool to pool up to the next await; the turn of
maintenance ends with `_expire_requests`. -/
def settleNext (clock : Clock) : List (String × Finset String) → MemoryScheduler → Turned
  | [], s => ⟨s.expireRequests clock.monotonic, .sleeping, []⟩
  | (poolId, candidates) :: rest, s =>
    match s.pools.find? poolId with
    | none =>
      let later := settleNext clock rest s
      { later with seen := .missed poolId :: later.seen }
    | some pool =>
      if s.probes pool then ⟨s, .proving pool candidates clock.utc rest, []⟩
      else
        let later := settleNext clock rest (s.forgetStreak poolId)
        { later with seen := .missed poolId :: later.seen }

/-- The start of `_settle_idle_unknown`. -/
def settleBegin (clock : Clock) (s : MemoryScheduler) : Turned :=
  let later := settleNext clock s.pendingUnknown (s.keepStreaks s.pendingUnknown)
  { later with seen := .scanned (s.pendingUnknown.map Prod.fst) :: later.seen }

/-- What is learned from a proof. -/
def observation (pool : Pool) (started : Time) : Option (String × Finset String) → Observation
  | none => .missed pool.spec.poolId
  | some (key, proven) =>
    if proven = ∅ then .missed pool.spec.poolId
    else .proved pool.spec.poolId pool.epoch key started proven

/-- `_settle_idle_unknown`, once the proof for a pool has come. -/
def settleProved (clock : Clock) (pool : Pool) (started : Time)
    (proof : Option (String × Finset String)) (rest : List (String × Finset String))
    (s : MemoryScheduler) : Turned :=
  let settled : Turned :=
    match s.weigh pool started proof with
    | (s, none) => settleNext clock rest s
    | (s, some verdict) =>
      let judged := s.judged pool.spec.poolId verdict
      let s := judged.foldl (fun s permit => s.settleIdle verdict permit) s
      let durable := MemoryScheduler.durableOf judged
      if durable = [] then settleNext clock rest s
      else ⟨s, .settling ⟨pool.spec.poolId, verdict.epoch, verdict.since, durable⟩ rest, []⟩
  { settled with seen := observation pool started proof :: settled.seen }

/-- The start of `_reconcile_durable`. -/
def reconcileBegin (clock : Clock) (s : MemoryScheduler) : Turned :=
  if s.reconcilable = [] then settleBegin clock s else ⟨s, .reconciling s.reconcilable, []⟩

/-- `_probe_slots`, from pool to pool up to the next await. -/
def probeNext (clock : Clock) : List String → MemoryScheduler → Turned
  | [], s => reconcileBegin clock (s.expireDirty clock.monotonic)
  | poolId :: rest, s =>
    if poolId ∈ s.settings.slotProbes ∧
        (∃ pool ∈ s.pools.find? poolId, pool.spec.kind = .llm) then
      ⟨s, .probing poolId rest, []⟩
    else probeNext clock rest s

/-- What the loop is told. -/
inductive Notice
  | ticked
  /-- The pools as `_refresh` read them, having renewed their ownership; and in which
  order the set of dirty pools is walked. -/
  | refreshed (records : List Pool) (order : List String)
  | slots (idle : Bool)
  | live (held : List (String × PermitState))
  | proof (reply : ProbeReply)
  | settled
  /-- The await raised. -/
  | failed

/-- The turn that follows an exception. -/
def lost (s : MemoryScheduler) : Turned := ⟨{ s with controlReady := false }, .sleeping, []⟩

/-- A turn of the maintenance loop. The loop gets the notice it awaits. -/
def maintain (clock : Clock) (s : MemoryScheduler) : Maintenance → Notice → Turned
  | .sleeping, .ticked => ⟨s, .refreshing, []⟩
  | .refreshing, .refreshed records order =>
    let s := { s.adopt clock records [] [] with controlReady := true }
    probeNext clock (order.filter fun poolId => poolId ∈ s.dirtyPools) s
  | .probing poolId rest, .slots idle => probeNext clock rest (s.probed clock poolId idle)
  | .reconciling active, .live held =>
    match reconcileEach held active s with
    | .ok _ s => settleBegin clock s
    | .error _ s => lost s
  | .proving pool candidates started rest, .proof reply =>
    settleProved clock pool started (terminated pool candidates reply) rest s
  | .settling _ rest, .settled => settleNext clock rest s
  | .sleeping, .failed => ⟨s, .sleeping, []⟩
  | _, .failed => lost s
  | on, _ => ⟨s, on, []⟩

end IntramindRuntime.Scheduling
