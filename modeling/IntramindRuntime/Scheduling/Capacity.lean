import IntramindRuntime.Scheduling.Moves

/-!
# Endpoint capacity is never exceeded

Two calls give permits: a direct request and an executor. Both look for room and put
the permit down in one turn, and room is counted over all permits, so whatever runs
in between at an await cannot take the room away. A permit that is there already
only changes its state or leaves.

## Main definitions

* `Limits` — what operators have configured for every pool and group
* `Limits.Respected` — no more permits than the limits allow
* `Process.HasLimits` — the process works with these limits

## Main results

* `Limits.respected_put` — a permit put down where there is room
* `Move.respects` — no move exceeds a limit
* `Process.capacity` — no sequence of turns exceeds a limit
-/

namespace IntramindRuntime.Scheduling

open Library Relation

/-- What is configured for a pool. -/
structure PoolLimits where
  kind : Kind
  transportLimit : ℕ
  backgroundTransportLimit : ℕ
  target : ℕ
  hardCeiling : ℕ
  groupId : String
  deriving DecidableEq

/-- The limits of a pool, as the scheduler has read them. -/
def Pool.limits (pool : Pool) : PoolLimits where
  kind := pool.spec.kind
  transportLimit := pool.spec.transportLimit
  backgroundTransportLimit := pool.spec.backgroundTransportLimit
  target := pool.target
  hardCeiling := pool.spec.hardCeiling
  groupId := pool.groupId

/-- The limits of all pools and groups. -/
structure Limits where
  pool : String → Option PoolLimits
  /-- The ceiling of a group. -/
  ceiling : String → ℤ

namespace Limits

variable (limits : Limits)

/-- A pool has the limits configured for it and for its group. -/
def Fits (pool : Pool) : Prop :=
  limits.pool pool.spec.poolId = some pool.limits ∧ limits.ceiling pool.groupId = pool.groupCeiling

/-- The permit belongs to a pool of the group that does not serve language models. -/
def inGroup (groupId : String) (permit : Permit) : Bool :=
  match limits.pool permit.poolId with
  | some pool => decide (pool.groupId = groupId) && decide (pool.kind ≠ .llm)
  | none => false

/-- No pool and no group has more permits than its limits allow. -/
structure Respected (permits : Table Permit) : Prop where
  transport : ∀ poolId pool, limits.pool poolId = some pool → pool.kind = .llm →
    (permitsOf permits poolId).length ≤ pool.transportLimit
  background : ∀ poolId pool, limits.pool poolId = some pool → pool.kind = .llm →
    ((permitsOf permits poolId).filter fun p => p.workloadClass ≠ .qa).length ≤
      pool.backgroundTransportLimit
  endpoint : ∀ poolId pool, limits.pool poolId = some pool → pool.kind ≠ .llm →
    (permitsOf permits poolId).length ≤ min pool.target pool.hardCeiling
  group : ∀ poolId pool, limits.pool poolId = some pool → pool.kind ≠ .llm →
    ((permits.rows.filter (limits.inGroup pool.groupId)).length : ℤ) ≤
      limits.ceiling pool.groupId

/-- The scheduler knows exactly the configured pools, with their limits. -/
structure Held (s : MemoryScheduler) : Prop where
  fits : ∀ poolId pool, s.pools.find? poolId = some pool → limits.Fits pool
  known : ∀ poolId, limits.pool poolId ≠ none → s.pools.find? poolId ≠ none

variable {limits} {s s' : MemoryScheduler} {permits : Table Permit}

theorem Held.limits_eq (held : limits.Held s) (poolId : String) :
    limits.pool poolId = (s.pools.find? poolId).map Pool.limits := by
  cases found : s.pools.find? poolId with
  | none =>
    by_contra configured
    exact held.known poolId configured found
  | some pool =>
    have fits := (held.fits poolId pool found).1
    have named : pool.spec.poolId = poolId := Table.key_of_find? found
    rw [← named]
    exact fits

/-- The permits of a group are those that the configuration puts into it. -/
theorem Held.groupPermits_eq (held : limits.Held s) (groupId : String) :
    groupPermits permits s.pools groupId = permits.rows.filter (limits.inGroup groupId) := by
  unfold groupPermits
  refine List.filter_congr fun permit _ => ?_
  rw [inGroup, held.limits_eq]
  cases s.pools.find? permit.poolId <;> rfl

/-- What `try_acquire` has checked. -/
theorem room_of_tryAcquire (held : limits.Held s) {pool : Pool} (fits : limits.Fits pool)
    {workloadClass : WorkloadClass}
    (room : SlotCapacity.tryAcquire pool permits s.pools workloadClass = true) :
    (pool.limits.kind = .llm →
      (permitsOf permits pool.spec.poolId).length < pool.limits.transportLimit ∧
      (workloadClass ≠ .qa →
        ((permitsOf permits pool.spec.poolId).filter fun p => p.workloadClass ≠ .qa).length <
          pool.limits.backgroundTransportLimit)) ∧
    (pool.limits.kind ≠ .llm →
      (permitsOf permits pool.spec.poolId).length <
        min pool.limits.target pool.limits.hardCeiling ∧
      ((permits.rows.filter (limits.inGroup pool.limits.groupId)).length : ℤ) <
        limits.ceiling pool.limits.groupId) := by
  rw [SlotCapacity.tryAcquire] at room
  split at room
  · cases room
  · split at room
    · cases room
    · rename_i below
      split at room
      · cases room
      · rename_i background
        split at room
        · cases room
        · rename_i group
          rw [Pool.endpointLimit, not_le] at below
          constructor
          · intro llm
            have llm : pool.spec.kind = .llm := llm
            rw [if_pos llm] at below
            refine ⟨below, fun other => ?_⟩
            by_contra full
            exact background ⟨llm, other, not_lt.mp full⟩
          · intro native
            have native : pool.spec.kind ≠ .llm := native
            rw [if_neg native] at below
            refine ⟨below, ?_⟩
            by_contra full
            refine group ⟨native, ?_⟩
            rw [held.groupPermits_eq, ← fits.2]
            exact not_lt.mp full

/-- Rewriting a permit without moving it to another pool or class keeps the limits. -/
theorem Respected.modify (respected : limits.Respected permits) (attemptId : String)
    {f : Permit → Permit} (key : ∀ p, (f p).attemptId = p.attemptId)
    (pool : ∀ p, (f p).poolId = p.poolId) (workload : ∀ p, (f p).workloadClass = p.workloadClass) :
    limits.Respected (permits.modify attemptId f) := by
  have count (q : Permit → Bool) (same : ∀ p, q (f p) = q p) :
      ((permits.modify attemptId f).rows.filter q).length = (permits.rows.filter q).length :=
    Table.length_filter_modify q key same
  constructor
  · intro poolId l found llm
    rw [permitsOf, count _ fun p => by rw [pool]]
    exact respected.transport poolId l found llm
  · intro poolId l found llm
    have kept := respected.background poolId l found llm
    rw [permitsOf, List.filter_filter] at kept ⊢
    rw [count _ fun p => by rw [pool, workload]]
    exact kept
  · intro poolId l found native
    rw [permitsOf, count _ fun p => by rw [pool]]
    exact respected.endpoint poolId l found native
  · intro poolId l found native
    rw [count _ fun p => by rw [inGroup, inGroup, pool]]
    exact respected.group poolId l found native

/-- Taking a permit away keeps the limits. -/
theorem Respected.erase (respected : limits.Respected permits) (attemptId : String) :
    limits.Respected (permits.erase attemptId) := by
  have count (q : Permit → Bool) :
      ((permits.erase attemptId).rows.filter q).length ≤ (permits.rows.filter q).length :=
    Table.length_filter_erase_le q
  constructor
  · intro poolId l found llm
    exact (count _).trans (respected.transport poolId l found llm)
  · intro poolId l found llm
    have kept := respected.background poolId l found llm
    rw [permitsOf, List.filter_filter] at kept ⊢
    exact (count _).trans kept
  · intro poolId l found native
    exact (count _).trans (respected.endpoint poolId l found native)
  · intro poolId l found native
    have fewer := count (limits.inGroup l.groupId)
    have kept := respected.group poolId l found native
    omega

/-- A permit put down where there is room keeps the limits. -/
theorem respected_put (held : limits.Held s) (respected : limits.Respected permits) {pool : Pool}
    (fits : limits.Fits pool) {permit : Permit} (named : permit.poolId = pool.spec.poolId)
    (room : SlotCapacity.tryAcquire pool permits s.pools permit.workloadClass = true) :
    limits.Respected (permits.put permit) := by
  obtain ⟨llm_room, native_room⟩ := room_of_tryAcquire held fits room
  have count (q : Permit → Bool) : ((permits.put permit).rows.filter q).length ≤
      (permits.rows.filter q).length + if q permit then 1 else 0 := Table.length_filter_put_le q
  have here {poolId : String} {l : PoolLimits} (found : limits.pool poolId = some l)
      (same : permit.poolId = poolId) : poolId = pool.spec.poolId ∧ l = pool.limits := by
    obtain rfl := same
    rw [named, fits.1] at found
    exact ⟨named, (Option.some.inj found).symm⟩
  constructor
  · intro poolId l found llm
    have more := count fun p => decide (p.poolId = poolId)
    have kept := respected.transport poolId l found llm
    by_cases same : permit.poolId = poolId
    · obtain ⟨rfl, rfl⟩ := here found same
      have room := (llm_room llm).1
      rw [permitsOf] at room ⊢
      simp only [same, decide_true, if_true] at more
      omega
    · rw [permitsOf] at kept ⊢
      simp only [same, decide_false, Bool.false_eq_true, if_false] at more
      omega
  · intro poolId l found llm
    have kept := respected.background poolId l found llm
    rw [permitsOf, List.filter_filter] at kept ⊢
    have more := count fun p => decide (p.workloadClass ≠ .qa) && decide (p.poolId = poolId)
    by_cases same : permit.poolId = poolId ∧ permit.workloadClass ≠ .qa
    · obtain ⟨rfl, rfl⟩ := here found same.1
      have room := (llm_room llm).2 same.2
      rw [permitsOf, List.filter_filter] at room
      have inside : (decide (permit.workloadClass ≠ .qa) &&
          decide (permit.poolId = pool.spec.poolId)) = true := by
        rw [Bool.and_eq_true, decide_eq_true_eq, decide_eq_true_eq]
        exact ⟨same.2, named⟩
      rw [inside] at more
      simp only [if_true] at more
      omega
    · have outside : (decide (permit.workloadClass ≠ .qa) && decide (permit.poolId = poolId)) =
          false := by
        rw [Bool.and_eq_false_iff, decide_eq_false_iff_not, decide_eq_false_iff_not]
        tauto
      rw [outside] at more
      simp only [Bool.false_eq_true, if_false] at more
      omega
  · intro poolId l found native
    have more := count fun p => decide (p.poolId = poolId)
    have kept := respected.endpoint poolId l found native
    by_cases same : permit.poolId = poolId
    · obtain ⟨rfl, rfl⟩ := here found same
      have room := (native_room native).1
      rw [permitsOf] at room ⊢
      simp only [same, decide_true, if_true] at more
      omega
    · rw [permitsOf] at kept ⊢
      simp only [same, decide_false, Bool.false_eq_true, if_false] at more
      omega
  · intro poolId l found native
    have more := count (limits.inGroup l.groupId)
    have kept := respected.group poolId l found native
    by_cases member : limits.inGroup l.groupId permit = true
    · have joined := member
      rw [inGroup, named, fits.1] at joined
      simp only [Bool.and_eq_true, decide_eq_true_eq] at joined
      have room := (native_room joined.2).2
      rw [joined.1] at room
      rw [if_pos member] at more
      omega
    · rw [if_neg member] at more
      omega

end Limits

/-! ## Runs -/

variable {limits : Limits} {s s' : MemoryScheduler}

/-- No move exceeds a limit, or changes what is known of the limits. -/
theorem Move.respects {scope : Scope} (move : Move scope s s')
    (fit : ∀ pool, scope.known pool → limits.Fits pool) (held : limits.Held s)
    (respected : limits.Respected s.permits) :
    limits.Held s' ∧ limits.Respected s'.permits := by
  cases move with
  | quiet same =>
    rw [same.permits]
    exact ⟨⟨same.pools ▸ held.fits, same.pools ▸ held.known⟩, respected⟩
  | withdraw identity =>
    rw [removeWaiter_permits]
    refine ⟨⟨?_, ?_⟩, respected⟩
    · rw [removeWaiter_pools]
      exact held.fits
    · rw [removeWaiter_pools]
      exact held.known
  | prune queues => exact ⟨⟨held.fits, held.known⟩, respected⟩
  | forget identity => exact ⟨⟨held.fits, held.known⟩, respected⟩
  | disown identity => exact ⟨⟨held.fits, held.known⟩, respected⟩
  | grant reservation new waits found room =>
    have fits := held.fits _ _ found
    have named := Table.key_of_find? found
    have placed : limits.Respected (s.permits.put reservation.permit) :=
      Limits.respected_put held respected fits named.symm room
    refine ⟨⟨?_, ?_⟩, ?_⟩
    · rw [grant_pools]
      exact held.fits
    · rw [grant_pools]
      exact held.known
    · rw [grant_permits]
      exact placed
  | progress attemptId state unknownAt held' live =>
    exact ⟨⟨held.fits, held.known⟩,
      respected.modify attemptId (fun _ => rfl) (fun _ => rfl) fun _ => rfl⟩
  | conclude attemptId state idleVerified aside ended unproven =>
    have rewritten : limits.Respected (s.permits.modify attemptId fun p =>
        { p with state := state p.state, idleVerified := idleVerified p.idleVerified }) :=
      respected.modify attemptId (fun _ => rfl) (fun _ => rfl) fun _ => rfl
    exact ⟨⟨held.fits, held.known⟩, rewritten.erase attemptId⟩
  | observe attemptId state =>
    exact ⟨⟨held.fits, held.known⟩,
      respected.modify attemptId (fun _ => rfl) (fun _ => rfl) fun _ => rfl⟩
  | drop attemptId isOver => exact ⟨⟨held.fits, held.known⟩, respected.erase attemptId⟩
  | regain allowed => exact ⟨⟨held.fits, held.known⟩, respected⟩
  | adopt pool allowed fits =>
    refine ⟨⟨fun poolId other found => ?_, fun poolId configured => ?_⟩, respected⟩
    · rw [Table.find?_put] at found
      split at found
      · obtain rfl := Option.some.inj found
        exact fit pool fits
      · exact held.fits poolId other found
    · rw [Table.find?_put]
      split
      · exact Option.some_ne_none _
      · exact held.known poolId configured
  | weigh unknownIdle allowed => exact ⟨⟨held.fits, held.known⟩, respected⟩
  | wait waiter allowed => exact ⟨⟨held.fits, held.known⟩, respected⟩
  | @grantDurable pool call allowed asked fits named room =>
    have placed : limits.Respected (s.permits.put call.permit) :=
      Limits.respected_put held respected (fit pool fits) named.symm room
    refine ⟨⟨?_, ?_⟩, ?_⟩
    · rw [grantDurable_pools]
      exact held.fits
    · rw [grantDurable_pools]
      exact held.known
    · rw [grantDurable_permits]
      exact placed

theorem Path.respects {scope : Scope} (path : Path scope s s')
    (fit : ∀ pool, scope.known pool → limits.Fits pool) (held : limits.Held s)
    (respected : limits.Respected s.permits) :
    limits.Held s' ∧ limits.Respected s'.permits := by
  induction path with
  | refl => exact ⟨held, respected⟩
  | tail _ move ih => exact move.respects fit ih.1 ih.2

/-- The process works with these limits, also where a call keeps a pool across an await. -/
structure Process.HasLimits (limits : Limits) (p : Process) : Prop where
  held : limits.Held p.scheduler
  calls : p.CallsKnow { known := limits.Fits }

/-- The event leaves the limits of pools and groups as they are: a refresh reads the
configured pools, and reads them with their limits. -/
def Event.KeepsLimits (limits : Limits) : Event → Prop
  | .maintain _ (.refreshed records _) => ∀ pool ∈ records, limits.Fits pool
  | _ => True

namespace Process

variable {p : Process}

theorem step_respects {event : Event} (fixed : event.KeepsLimits limits)
    (has : p.HasLimits limits) (respected : limits.Respected p.scheduler.permits) :
    (p.step event).HasLimits limits ∧ limits.Respected (p.step event).scheduler.permits := by
  have inScope : p.InScope { known := limits.Fits } event := by
    cases event with
    | direct _ _ call =>
      exact ⟨rfl, call.fits_of_free trivial (fun _ => trivial) fun _ => trivial⟩
    | resume clock id answer => exact fun on _ => Scope.hears_of_gone (fun _ => trivial) on answer
    | maintain clock notice =>
      refine ⟨rfl, Scope.heeds_of_gone (fun _ => trivial) (fun _ => trivial) _
        fun records order same => ?_, Scope.readies rfl rfl notice, fun _ _ => trivial⟩
      subst same
      exact ⟨rfl, fixed⟩
    | _ => trivial
  obtain ⟨s, joined, path, calls⟩ := step_turns rfl rfl rfl has.held.fits has.calls inScope
  have entered : limits.Held s ∧ limits.Respected s.permits := by
    rcases joined with rfl | ⟨clock, uuid, call, request, poolId, ownerId, -, -, -, -, rfl⟩
    · exact ⟨has.held, respected⟩
    · exact ⟨⟨has.held.fits, has.held.known⟩, respected⟩
  obtain ⟨held, respected⟩ := path.respects (fun _ fits => fits) entered.1 entered.2
  exact ⟨⟨held, calls⟩, respected⟩

/-- While the limits of pools and groups stay as they are, no interleaving of direct
calls, durable calls and maintenance exceeds one of them. -/
theorem capacity {events : List Event} (fixed : ∀ event ∈ events, event.KeepsLimits limits)
    (has : p.HasLimits limits) (respected : limits.Respected p.scheduler.permits) :
    limits.Respected (p.after events).scheduler.permits := by
  induction events generalizing p with
  | nil => exact respected
  | cons event rest ih =>
    obtain ⟨has, respected⟩ := step_respects (fixed event List.mem_cons_self) has respected
    exact ih (fun event member => fixed event (List.mem_cons_of_mem _ member)) has respected

end Process

/-- The limits of the sample process. -/
def sampleLimits : Limits where
  pool := fun poolId => if poolId = "p" then some samplePool.limits else none
  ceiling := fun _ => 1

/-- A request gets a permit, an executor asks for one, and the pools are read again. -/
def sampleGrant : List Event :=
  let clock : Clock := ⟨0, 0⟩
  [.direct clock "a" (.enqueue (sampleRequest "r") "p" "proxy"),
    .direct clock "a" (.reserve (sampleRequest "r") "p" "proxy"),
    .acquire 0 ⟨"b", "p", "executor", "e", .qa, 1000⟩,
    .maintain clock .ticked,
    .maintain clock (.refreshed [samplePool] [])]

theorem sampleProcess_hasLimits : sampleProcess.HasLimits sampleLimits := by
  refine ⟨⟨fun poolId pool found => ?_, fun poolId configured => ?_⟩, fun id on found => ?_⟩
  · have member : pool ∈ [samplePool] := Table.mem_of_find? found
    obtain rfl := List.mem_singleton.mp member
    exact ⟨rfl, rfl⟩
  · by_cases here : poolId = "p"
    · subst here
      exact Option.some_ne_none _
    · exact absurd (if_neg here) configured
  · cases found

theorem capacity_sample :
    (sampleProcess.after sampleGrant).scheduler.permits.rows.map Permit.attemptId = ["a"] ∧
      sampleLimits.Respected (sampleProcess.after sampleGrant).scheduler.permits := by
  refine ⟨by decide +kernel, Process.capacity (fun event member => ?_) sampleProcess_hasLimits ?_⟩
  · simp only [sampleGrant, List.mem_cons, List.not_mem_nil, or_false] at member
    rcases member with rfl | rfl | rfl | rfl | rfl
    · trivial
    · trivial
    · trivial
    · trivial
    · intro pool member
      obtain rfl := List.mem_singleton.mp member
      exact ⟨rfl, rfl⟩
  · exact ⟨fun _ _ _ _ => Nat.zero_le _, fun _ _ _ _ => Nat.zero_le _,
      fun _ _ _ _ => Nat.zero_le _, fun _ _ _ _ => (zero_le_one : (0 : ℤ) ≤ 1)⟩

end IntramindRuntime.Scheduling
