import IntramindRuntime.Scheduling.Ownership
import IntramindRuntime.Scheduling.Queues

/-!
# When a pool left by another boot may be used

A start that finds the row of another boot for a pool does not know whether the engine
still computes for that boot. It blocks the pool until the lease of the former owner and
its drain have passed. Two idle probes of the slots in a row lift the block before that,
and so does a refresh that reads the pool healthy with another epoch than the refresh
before. Nothing else does: no grant, no answer and no expiry moves the time from which
the pool is ready.

## Main definitions

* `Start`, `MemoryScheduler.start` — what a start reads, and what it makes of the scheduler
* `Process.probesOf` — the answers that the slots of a pool gave in a run
* `Process.Restarts` — a refresh reads a healthy pool with another epoch than the one before
* `Blocked` — a pool is not ready before its fallback time

## Main results

* `Process.dirty_waits` — what comes before the first grant on a dirty pool
-/

namespace IntramindRuntime.Scheduling

open Library

variable {s s' : MemoryScheduler}

/-- What a start reads in the transaction of its refresh, and when it goes on. -/
structure Start where
  /-- `now()` in the transaction. -/
  began : Time
  owners : Owners
  reading : Reading
  clock : Clock

namespace Start

variable (start : Start)

/-- All pools can be claimed, so that the transaction commits. -/
def Claims (s : MemoryScheduler) : Prop :=
  (Lease.takeEach (Lease.claim s.bootGeneration start.began (start.began + s.settings.lease))
    start.reading.poolIds start.owners).isSome = true

instance (s : MemoryScheduler) : Decidable (start.Claims s) := inferInstanceAs (Decidable (_ = _))

end Start

/-- How long a pool may be busy once its owner's lease is over. -/
def Settings.drain (settings : Settings) (poolId : String) : Time :=
  (settings.restartDrain poolId).getD
    ((settings.attemptTimeouts poolId).getD MemoryScheduler.defaultDrain)

namespace MemoryScheduler

/-- The marks that the transaction of a start leaves. -/
def markedBy (s : MemoryScheduler) (start : Start) : MemoryScheduler :=
  markEach s.bootGeneration start.began (start.began + s.settings.lease) start.reading.poolIds
    start.owners s

/-- `start`. -/
def start (s : MemoryScheduler) (start : Start) : MemoryScheduler :=
  ((s.markedBy start).adopt start.clock start.reading.records start.reading.durable
    start.reading.legacy).open start.clock

end MemoryScheduler

/-- The reading of `monotonic()` at which the lease of the former owner and the drain of the
pool have passed. -/
def Start.fallback (start : Start) (settings : Settings) (poolId : String)
    (lease : Lease String) : Time :=
  start.clock.monotonic + max 0 (lease.expires + settings.drain poolId - start.clock.utc)

/-- No two rows that a refresh reads are of the same pool. -/
def Event.Keyed : Event → Prop
  | .maintain _ (.refreshed records _) => (records.map fun pool => pool.spec.poolId).Nodup
  | _ => True

instance : DecidablePred Event.Keyed := fun event => by
  unfold Event.Keyed
  split <;> infer_instance

/-! ### What turns leave alone -/

/-- The pools are ready when they were, and the idle probes count as they did. -/
structure Steady (s s' : MemoryScheduler) : Prop where
  ready : s'.readyByPool = s.readyByPool
  idle : s'.slotIdle = s.slotIdle

namespace Steady

theorem refl (s : MemoryScheduler) : Steady s s := ⟨rfl, rfl⟩

theorem trans {s₁ : MemoryScheduler} (first : Steady s s₁) (second : Steady s₁ s') : Steady s s' :=
  ⟨second.ready.trans first.ready, second.idle.trans first.idle⟩

theorem removeWaiter (identity : String) : Steady s (s.removeWaiter identity) := by
  unfold MemoryScheduler.removeWaiter
  split
  · exact refl s
  · exact ⟨rfl, rfl⟩

theorem foldl {α : Type} {f : MemoryScheduler → α → MemoryScheduler}
    (step : ∀ s item, Steady s (f s item)) (items : List α) (s : MemoryScheduler) :
    Steady s (items.foldl f s) := by
  induction items generalizing s with
  | nil => exact refl s
  | cons item rest ih => exact (step s item).trans (ih (f s item))

theorem expireRequests (now : Time) : Steady s (s.expireRequests now) := by
  unfold MemoryScheduler.expireRequests
  refine Steady.trans (foldl (fun s item => ?_) _ s) (foldl (fun s waiter => ?_) _ _)
  · exact ⟨rfl, rfl⟩
  · exact removeWaiter _

end Steady

theorem Move.steady {scope : Scope} (move : Move scope s s') (closed : scope.readying = false) :
    Steady s s' := by
  cases move with
  | quiet same steady =>
    rcases steady with readying | ⟨ready, idle⟩
    · rw [closed] at readying
      cases readying
    · exact ⟨ready, idle⟩
  | withdraw identity => exact .removeWaiter identity
  | grant reservation => exact (Steady.removeWaiter reservation.request.requestId).trans ⟨rfl, rfl⟩
  | grantDurable call => exact (Steady.removeWaiter call.attemptId).trans ⟨rfl, rfl⟩
  | adopt | regain | prune | forget | disown | progress | conclude | observe | drop | weigh | wait =>
    exact ⟨rfl, rfl⟩

theorem Path.steady {scope : Scope} (path : Path scope s s') (closed : scope.readying = false) :
    Steady s s' := by
  induction path with
  | refl => exact .refl s
  | tail _ move ih => exact ih.trans (move.steady closed)

theorem Sweeps.steady {scope : Scope} {now : Time} (sweeps : Sweeps scope now s s')
    (closed : scope.readying = false) : Steady s s' := by
  obtain ⟨t, path, rfl | rfl⟩ := sweeps
  · exact path.steady closed
  · exact (path.steady closed).trans (.expireRequests now)

/-- Pools become ready outside of what happens here. -/
def Scope.blocking : Scope := { readying := false }

theorem probeNext_steady (clock : Clock) (pools : List String) (s : MemoryScheduler) :
    Steady s (probeNext clock pools s).scheduler :=
  (@probeNext_sweeps .blocking rfl clock pools s).steady rfl

/-! ### What a refresh makes ready -/

section Refresh

variable {clock : Clock} {poolId : String}

theorem adoptPool_pools (current : Pool) :
    (s.adoptPool clock current).pools = s.pools.put current := by
  have ended (items : List Permit) (t : MemoryScheduler) :
      (items.foldl MemoryScheduler.endStale t).pools = t.pools := by
    induction items generalizing t with
    | nil => rfl
    | cons item rest ih => exact ih _
  unfold MemoryScheduler.adoptPool
  dsimp only
  split
  · split <;> exact ended _ _
  · rfl

/-- Adopting a pool makes another pool ready never, and this one only if it is healthy with
another epoch. -/
theorem adoptPool_ready (current : Pool) :
    (s.adoptPool clock current).slotIdle = s.slotIdle ∧
      ((s.adoptPool clock current).readyByPool poolId = s.readyByPool poolId ∨
        (current.spec.poolId = poolId ∧ current.health = .healthy ∧
          ∃ previous, s.pools.find? poolId = some previous ∧ previous.epoch ≠ current.epoch)) := by
  have ended (items : List Permit) (t : MemoryScheduler) :
      Steady t (items.foldl MemoryScheduler.endStale t) :=
    Steady.foldl (f := MemoryScheduler.endStale) (fun _ _ => ⟨rfl, rfl⟩) items t
  unfold MemoryScheduler.adoptPool
  dsimp only
  split
  · rename_i other
    split
    · rename_i clean
      refine ⟨(ended _ _).idle, ?_⟩
      rcases eq_or_ne current.spec.poolId poolId with rfl | apart
      · exact Or.inr ⟨rfl, clean.1, other⟩
      · left
        refine (Function.update_of_ne apart.symm _ _).trans ?_
        exact congrFun (ended _ _).ready poolId
    · exact ⟨(ended _ _).idle, Or.inl (congrFun (ended _ _).ready poolId)⟩
  · exact ⟨rfl, Or.inl rfl⟩

/-- A refresh makes a pool ready only if it reads the pool healthy with another epoch than
the pool had before. -/
theorem adopt_ready {records : List Pool}
    (keyed : (records.map fun pool => pool.spec.poolId).Nodup) :
    (s.adopt clock records [] []).slotIdle = s.slotIdle ∧
      ((s.adopt clock records [] []).readyByPool poolId = s.readyByPool poolId ∨
        ∃ current ∈ records, current.spec.poolId = poolId ∧ current.health = .healthy ∧
          ∃ previous, s.pools.find? poolId = some previous ∧ previous.epoch ≠ current.epoch) := by
  unfold MemoryScheduler.adopt
  dsimp only
  induction records generalizing s with
  | nil => exact ⟨rfl, Or.inl rfl⟩
  | cons current rest ih =>
    rw [List.map_cons, List.nodup_cons] at keyed
    obtain ⟨idle, ready⟩ := @adoptPool_ready s clock poolId current
    obtain ⟨idle', ready'⟩ := @ih (s.adoptPool clock current) keyed.2
    refine ⟨idle'.trans idle, ?_⟩
    rcases ready' with same' | ⟨later, member, named, healthy, previous, found, other⟩
    · rcases ready with same | ⟨named, healthy, other⟩
      · exact Or.inl (same'.trans same)
      · exact Or.inr ⟨current, List.mem_cons_self, named, healthy, other⟩
    · -- the rows before are of other pools
      have apart : current.spec.poolId ≠ poolId := fun equal =>
        keyed.1 (List.mem_map.mpr ⟨later, member, named.trans equal.symm⟩)
      have kept : s.pools.find? poolId = some previous := by
        rwa [adoptPool_pools, Table.find?_put_of_ne apart] at found
      exact Or.inr ⟨later, List.mem_cons_of_mem _ member, named, healthy, previous, kept, other⟩

end Refresh

/-! ### What a start makes of a dirty pool -/

section Start

variable {poolId : String}

/-- A pool belongs to a former boot until an expiry. -/
structure Left (poolId : String) (expiry : Time) (s : MemoryScheduler) : Prop where
  dirty : poolId ∈ s.dirtyPools
  expires : s.oldOwnerExpires poolId = some expiry

/-- What the marks of a start leave alone. -/
structure Marks (s s' : MemoryScheduler) : Prop where
  pools : s'.pools = s.pools
  idle : s'.slotIdle = s.slotIdle
  settings : s'.settings = s.settings

theorem mark_marks (boot other : String) (row : Option (Lease String)) :
    Marks s (s.mark boot other row) := by
  unfold MemoryScheduler.mark
  split
  · split <;> exact ⟨rfl, rfl, rfl⟩
  · exact ⟨rfl, rfl, rfl⟩

theorem mark_left_of_ne {boot other : String} {row : Option (Lease String)} {expiry : Time}
    (left : Left poolId expiry s) (apart : other ≠ poolId) :
    Left poolId expiry (s.mark boot other row) := by
  unfold MemoryScheduler.mark
  split
  · split
    · exact left
    · refine ⟨Finset.mem_insert_of_mem left.dirty, ?_⟩
      exact (Function.update_of_ne apart.symm _ _).trans left.expires
  · exact left

theorem markEach_marks (boot : String) (began until' : Time) (poolIds : List String)
    (owners : Owners) (s : MemoryScheduler) :
    Marks s (MemoryScheduler.markEach boot began until' poolIds owners s) := by
  induction poolIds generalizing owners s with
  | nil => exact ⟨rfl, rfl, rfl⟩
  | cons other rest ih =>
    have first := @mark_marks s boot other (owners other)
    unfold MemoryScheduler.markEach
    dsimp only
    split
    · exact first
    · rename_i lease _
      have later :=
        ih (Function.update owners other (some lease)) (s.mark boot other (owners other))
      exact ⟨later.pools.trans first.pools, later.idle.trans first.idle,
        later.settings.trans first.settings⟩

theorem markEach_left_of_not_mem {boot : String} {began until' expiry : Time}
    {poolIds : List String} {owners : Owners} (left : Left poolId expiry s)
    (absent : poolId ∉ poolIds) :
    Left poolId expiry (MemoryScheduler.markEach boot began until' poolIds owners s) := by
  induction poolIds generalizing owners s with
  | nil => exact left
  | cons other rest ih =>
    rw [List.mem_cons, not_or] at absent
    have first : Left poolId expiry (s.mark boot other (owners other)) :=
      mark_left_of_ne left (Ne.symm absent.1)
    unfold MemoryScheduler.markEach
    dsimp only
    split
    · exact first
    · exact ih first absent.2

/-- A start that claims all pools finds out which ones another boot has left. -/
theorem markEach_left {boot : String} {began until' : Time} {poolIds : List String}
    {owners : Owners} {lease : Lease String} (keyed : poolIds.Nodup)
    (claims : (Lease.takeEach (Lease.claim boot began until') poolIds owners).isSome = true)
    (read : poolId ∈ poolIds) (row : owners poolId = some lease) (former : lease.owner ≠ boot) :
    Left poolId lease.expires (MemoryScheduler.markEach boot began until' poolIds owners s) := by
  induction poolIds generalizing owners s with
  | nil => cases read
  | cons other rest ih =>
    rw [List.nodup_cons] at keyed
    unfold MemoryScheduler.markEach
    unfold Lease.takeEach at claims
    dsimp only
    split
    · rename_i refused
      rw [refused] at claims
      cases claims
    · rename_i taken granted
      rw [granted] at claims
      rcases List.mem_cons.mp read with rfl | later
      · have marked : Left poolId lease.expires (s.mark boot poolId (owners poolId)) := by
          rw [row]
          unfold MemoryScheduler.mark
          dsimp only
          rw [if_neg former]
          exact ⟨Finset.mem_insert_self _ _, Function.update_self _ _ _⟩
        exact markEach_left_of_not_mem marked keyed.1
      · have apart : poolId ≠ other := fun equal => keyed.1 (equal ▸ later)
        refine ih keyed.2 claims later ?_
        rwa [Function.update_of_ne apart]

/-- The first refresh of a scheduler only adds pools and permits. -/
theorem adopt_first {clock : Clock} {records : List Pool} (durable : List HydratedAttempt)
    (legacy : List LegacyAttempt) (keyed : (records.map fun pool => pool.spec.poolId).Nodup)
    (new : ∀ pool ∈ records, s.pools.find? pool.spec.poolId = none) :
    ∃ permits, s.adopt clock records durable legacy =
      { s with pools := records.foldl Table.put s.pools, permits } := by
  have adopted : records.foldl (fun s current => s.adoptPool clock current) s =
      { s with pools := records.foldl Table.put s.pools } := by
    induction records generalizing s with
    | nil => rfl
    | cons current rest ih =>
      rw [List.map_cons, List.nodup_cons] at keyed
      have absent := new current List.mem_cons_self
      have first : s.adoptPool clock current = { s with pools := s.pools.put current } := by
        unfold MemoryScheduler.adoptPool
        dsimp only
        rw [absent, if_neg]
        rintro ⟨pool, member, -⟩
        cases member
      rw [List.foldl_cons, first]
      refine ih keyed.2 fun pool member => ?_
      have before := new pool (List.mem_cons_of_mem _ member)
      refine (Table.find?_put_of_ne fun equal => ?_).trans before
      exact keyed.1 (List.mem_map.mpr ⟨pool, member, equal.symm⟩)
  unfold MemoryScheduler.adopt
  rw [adopted]
  exact ⟨_, rfl⟩

theorem find?_foldl_put {records : List Pool} {pools : Table Pool}
    (here : pools.find? poolId ≠ none ∨ ∃ pool ∈ records, pool.spec.poolId = poolId) :
    (records.foldl Table.put pools).find? poolId ≠ none := by
  induction records generalizing pools with
  | nil => exact here.resolve_right fun ⟨_, member, _⟩ => by cases member
  | cons current rest ih =>
    refine ih ?_
    rcases eq_or_ne current.spec.poolId poolId with rfl | apart
    · left
      have found : (pools.put current).find? current.spec.poolId = some current :=
        Table.find?_put_self
      rw [found]
      exact Option.some_ne_none current
    · rw [Table.find?_put_of_ne apart]
      refine here.imp_right fun ⟨pool, member, named⟩ => ⟨pool, ?_, named⟩
      refine (List.mem_cons.mp member).resolve_left fun equal => ?_
      exact apart (equal ▸ named)

/-- The times at which a dirty pool is ready, and falls back, once the start has gone on. -/
theorem schedule_ready {clock : Clock} {pools : List Pool} {expiry ready : Time}
    (left : Left poolId expiry s)
    (same : ready = clock.monotonic + max 0 (expiry + s.settings.drain poolId - clock.utc))
    (here : s.readyByPool poolId = some ready ∨ ∃ pool ∈ pools, pool.spec.poolId = poolId) :
    let s' := pools.foldl (fun s pool => s.schedule clock pool.spec.poolId) s
    s'.readyByPool poolId = some ready ∧ s'.slotIdle = s.slotIdle := by
  induction pools generalizing s with
  | nil => exact ⟨here.resolve_right fun ⟨_, member, _⟩ => (by cases member), rfl⟩
  | cons current rest ih =>
    -- one pool is scheduled, and nothing else of the scheduler changes
    have one : Left poolId expiry (s.schedule clock current.spec.poolId) ∧
        (s.schedule clock current.spec.poolId).settings = s.settings ∧
        (s.schedule clock current.spec.poolId).slotIdle = s.slotIdle := by
      unfold MemoryScheduler.schedule
      split <;> exact ⟨⟨left.dirty, left.expires⟩, rfl, rfl⟩
    obtain ⟨left', settings, idle⟩ := one
    have here' : (s.schedule clock current.spec.poolId).readyByPool poolId = some ready ∨
        ∃ pool ∈ rest, pool.spec.poolId = poolId := by
      rcases eq_or_ne current.spec.poolId poolId with rfl | apart
      · left
        unfold MemoryScheduler.schedule
        rw [if_pos left.dirty, left.expires, same]
        exact Function.update_self _ _ _
      · refine here.imp (fun ready => ?_) fun ⟨pool, member, named⟩ => ⟨pool, ?_, named⟩
        · unfold MemoryScheduler.schedule
          split <;> exact (Function.update_of_ne apart.symm _ _).trans ready
        · refine (List.mem_cons.mp member).resolve_left fun equal => ?_
          exact apart (equal ▸ named)
    obtain ⟨ready', idle'⟩ := ih left' (by rw [settings]; exact same) here'
    exact ⟨ready', idle'.trans idle⟩

end Start

/-! ### Blocked pools -/

/-- A pool is not ready before its fallback time, and of the probes of its slots at most the
last one counts. -/
structure Blocked (poolId : String) (fallback : Time) (probes : List Bool) (s : MemoryScheduler) :
    Prop where
  ready : s.readyByPool poolId = some fallback
  idle : s.slotIdle poolId = 0 ∨ (s.slotIdle poolId = 1 ∧ ∃ earlier, probes = earlier ++ [true])

namespace Blocked

variable {poolId : String} {fallback : Time} {probes : List Bool}

theorem of_steady (blocked : Blocked poolId fallback probes s) (steady : Steady s s') :
    Blocked poolId fallback probes s' where
  ready := (congrFun steady.ready poolId).trans blocked.ready
  idle := by
    rw [steady.idle]
    exact blocked.idle

/-- A start blocks the pools of former boots. -/
theorem start {start : Start} {lease : Lease String} (new : s.pools = .empty)
    (unprobed : s.slotIdle = fun _ => 0) (keyed : start.reading.poolIds.Nodup)
    (claims : start.Claims s) (read : poolId ∈ start.reading.poolIds)
    (row : start.owners poolId = some lease) (former : lease.owner ≠ s.bootGeneration) :
    Blocked poolId (start.fallback s.settings poolId lease) [] (s.start start) := by
  have left : Left poolId lease.expires (s.markedBy start) :=
    markEach_left keyed claims read row former
  have marks : Marks s (s.markedBy start) := markEach_marks _ _ _ _ _ _
  obtain ⟨permits, adopted⟩ := @adopt_first (s.markedBy start) start.clock start.reading.records
    start.reading.durable start.reading.legacy keyed fun pool _ => by
      rw [marks.pools, new]
      rfl
  have known : (start.reading.records.foldl Table.put (s.markedBy start).pools).find? poolId ≠
      none := find?_foldl_put (Or.inr (List.mem_map.mp read))
  obtain ⟨pool, found⟩ := Option.ne_none_iff_exists'.mp known
  have listed : ∃ pool ∈ (start.reading.records.foldl Table.put (s.markedBy start).pools).rows,
      pool.spec.poolId = poolId := ⟨pool, Table.mem_of_find? found, Table.key_of_find? found⟩
  have same : start.fallback s.settings poolId lease = start.clock.monotonic +
      max 0 (lease.expires + (s.markedBy start).settings.drain poolId - start.clock.utc) := by
    rw [marks.settings]
    rfl
  unfold MemoryScheduler.start
  rw [adopted]
  obtain ⟨ready, idle⟩ := @schedule_ready
    { s.markedBy start with
      pools := start.reading.records.foldl Table.put (s.markedBy start).pools, permits }
    poolId start.clock _ lease.expires _ ⟨left.dirty, left.expires⟩ same (Or.inr listed)
  refine ⟨ready, Or.inl ?_⟩
  refine (congrFun idle poolId).trans ?_
  refine (congrFun marks.idle poolId).trans ?_
  rw [unprobed]

/-- A probe of one pool says nothing about another. -/
theorem probed_of_ne (clock : Clock) {other : String} (idle : Bool) (apart : other ≠ poolId) :
    (s.probed clock other idle).readyByPool poolId = s.readyByPool poolId ∧
      (s.probed clock other idle).slotIdle poolId = s.slotIdle poolId := by
  unfold MemoryScheduler.probed
  dsimp only
  generalize (if idle then s.slotIdle other + 1 else 0) = count
  split
  · exact ⟨Function.update_of_ne apart.symm _ _, Function.update_of_ne apart.symm _ _⟩
  · exact ⟨rfl, Function.update_of_ne apart.symm _ _⟩

/-- A probe counts, and the second idle one in a row lifts the block. -/
theorem probed (blocked : Blocked poolId fallback probes s) (clock : Clock) (other : String)
    (idle : Bool) :
    let now := probes ++ if other = poolId then [idle] else []
    [true, true] <:+ now ∨ Blocked poolId fallback now (s.probed clock other idle) := by
  dsimp only
  split
  · rename_i same
    subst same
    unfold MemoryScheduler.probed
    cases idle with
    | false =>
      right
      dsimp only
      rw [if_neg Bool.false_ne_true, if_neg (by decide)]
      exact ⟨blocked.ready, Or.inl (Function.update_self _ _ _)⟩
    | true =>
      rcases blocked.idle with none | ⟨one, earlier, rfl⟩
      · right
        dsimp only
        rw [if_pos rfl, none, if_neg (by decide)]
        exact ⟨blocked.ready, Or.inr ⟨Function.update_self _ _ _, probes, rfl⟩⟩
      · left
        rw [List.append_assoc]
        exact List.suffix_append earlier [true, true]
  · rename_i apart
    right
    rw [List.append_nil]
    obtain ⟨ready, count⟩ := @probed_of_ne s poolId clock other idle apart
    refine ⟨ready.trans blocked.ready, ?_⟩
    rw [count]
    exact blocked.idle

end Blocked

namespace Process

variable {p : Process} {poolId : String} {fallback : Time} {probes : List Bool}

/-- A refresh reads a pool in a turn of the loop. -/
def Reads (p : Process) (event : Event) (pool : Pool) : Prop :=
  ∃ clock records order, event = .maintain clock (.refreshed records order) ∧
    p.maintenance = .refreshing ∧ pool ∈ records

/-- A refresh reads a pool healthy, with another epoch than the pool had before. -/
def Restarts (p : Process) (poolId : String) (event : Event) : Prop :=
  ∃ current, p.Reads event current ∧ current.spec.poolId = poolId ∧ current.health = .healthy ∧
    ∃ previous, p.scheduler.pools.find? poolId = some previous ∧ previous.epoch ≠ current.epoch

/-- Whether the slots of a pool are idle, when a probe of them answers in a turn of the loop. -/
def probeOf (p : Process) (poolId : String) : Event → Option Bool
  | .maintain _ (.slots idle) =>
    match p.maintenance with
    | .probing probed _ => if probed = poolId then some idle else none
    | _ => none
  | _ => none

/-- What the probes of the slots of a pool answer in a run. -/
def probesOf (poolId : String) : Process → List Event → List Bool
  | _, [] => []
  | p, event :: events => (p.probeOf poolId event).toList ++ probesOf poolId (p.step event) events

theorem inScope_blocking {event : Event} (caller : ∀ clock notice, event ≠ .maintain clock notice) :
    p.InScope .blocking event := by
  cases event with
  | direct _ _ call => exact ⟨rfl, call.fits_of_free trivial (fun _ => trivial) fun _ => trivial⟩
  | resume clock id answer => exact fun on _ => Scope.hears_of_gone (fun _ => trivial) on answer
  | maintain clock notice => exact absurd rfl (caller clock notice)
  | acquire | release | interrupt | timer => trivial

/-- A turn of the loop that is told neither what a refresh read nor what a probe found. -/
theorem maintain_steady (clock : Clock) (on : Maintenance) {notice : Notice}
    (quiet : Scope.blocking.Readies notice) :
    Steady s (maintain clock s on notice).scheduler := by
  have heard : Scope.blocking.Heeds on notice :=
    Scope.heeds_of_gone (fun _ => trivial) (fun _ => trivial) _
      fun _ _ _ => ⟨rfl, fun _ _ => trivial⟩
  exact (maintain_sweeps rfl clock on heard quiet fun _ _ => trivial).steady rfl

/-- A turn of a caller, an executor or a timer. -/
theorem step_outside (calls : p.CallsKnow .blocking) {event : Event}
    (caller : ∀ clock notice, event ≠ .maintain clock notice) :
    (p.step event).CallsKnow .blocking ∧ Steady p.scheduler (p.step event).scheduler := by
  obtain ⟨s, enters, ⟨now, sweeps⟩, calls⟩ :=
    step_sweeps rfl (fun _ _ _ => trivial) calls (inScope_blocking caller)
  have entered : Steady p.scheduler s := by
    rcases enters with (rfl | ⟨_, _, _, _, _, _, _, _, _, _, rfl⟩) | ⟨_, _, _, _, _, _, rfl |
      ⟨_, _, _, _, _, _, _, rfl⟩⟩ <;> exact ⟨rfl, rfl⟩
  exact ⟨calls, entered.trans (sweeps.steady rfl)⟩

theorem after_calls (calls : p.CallsKnow .blocking) (events : List Event) :
    (p.after events).CallsKnow .blocking := by
  induction events generalizing p with
  | nil => exact calls
  | cons event rest ih =>
    refine ih ?_
    cases event with
    | maintain clock notice => exact calls
    | direct | acquire | release | resume | interrupt | timer =>
      exact (step_outside calls (by rintro _ _ ⟨⟩)).1

/-- What a turn does to a blocked pool. -/
theorem step_blocked (blocked : Blocked poolId fallback probes p.scheduler)
    (calls : p.CallsKnow .blocking) {event : Event} (keyed : event.Keyed) :
    let now := probes ++ (p.probeOf poolId event).toList
    p.Restarts poolId event ∨ [true, true] <:+ now ∨
      Blocked poolId fallback now (p.step event).scheduler := by
  dsimp only
  -- a turn that answers no probe and leaves the readiness alone
  have kept (none : p.probeOf poolId event = none)
      (steady : Steady p.scheduler (p.step event).scheduler) :
      p.Restarts poolId event ∨ [true, true] <:+ probes ++ (p.probeOf poolId event).toList ∨
        Blocked poolId fallback (probes ++ (p.probeOf poolId event).toList)
          (p.step event).scheduler := by
    rw [none, Option.toList_none, List.append_nil]
    exact Or.inr (Or.inr (blocked.of_steady steady))
  cases event with
  | maintain clock notice =>
    cases notice with
    | refreshed records order =>
      cases on : p.maintenance with
      | refreshing =>
        have read := @adopt_ready p.scheduler clock poolId records keyed
        rcases read.2 with same | ⟨current, member, named, healthy, other⟩
        · have adopted : Blocked poolId fallback probes
              (p.scheduler.adopt clock records [] []) :=
            ⟨same.trans blocked.ready, by rw [read.1]; exact blocked.idle⟩
          have regained : Steady (p.scheduler.adopt clock records [] [])
              { p.scheduler.adopt clock records [] [] with controlReady := true } := ⟨rfl, rfl⟩
          have steady := regained.trans (probeNext_steady clock
            (order.filter fun poolId => poolId ∈ (p.scheduler.adopt clock records [] []).dirtyPools)
            { p.scheduler.adopt clock records [] [] with controlReady := true })
          have stepped : (p.step (.maintain clock (.refreshed records order))).scheduler =
              (probeNext clock
                (order.filter fun poolId =>
                  poolId ∈ (p.scheduler.adopt clock records [] []).dirtyPools)
                { p.scheduler.adopt clock records [] [] with controlReady := true }).scheduler := by
            simp only [step, on]
            rfl
          refine Or.inr (Or.inr ?_)
          rw [stepped]
          exact (List.append_nil probes).symm ▸ adopted.of_steady steady
        · exact Or.inl ⟨current, ⟨clock, records, order, rfl, on, member⟩, named, healthy, other⟩
      | sleeping | probing | reconciling | proving | settling =>
        refine kept rfl ?_
        simp only [step, on]
        exact .refl _
    | slots idle =>
      cases on : p.maintenance with
      | probing other rest =>
        have stepped : (p.step (.maintain clock (.slots idle))).scheduler =
            (probeNext clock rest (p.scheduler.probed clock other idle)).scheduler := by
          simp only [step, on]
          rfl
        have answer : (p.probeOf poolId (.maintain clock (.slots idle))).toList =
            if other = poolId then [idle] else [] := by
          simp only [probeOf, on]
          split <;> rfl
        rw [stepped, answer]
        have steady := probeNext_steady clock rest (p.scheduler.probed clock other idle)
        right
        exact (blocked.probed clock other idle).imp_right fun later => later.of_steady steady
      | sleeping | refreshing | reconciling | proving | settling =>
        refine kept (by simp only [probeOf, on]) ?_
        simp only [step, on]
        exact .refl _
    | ticked | proof | settled => exact kept rfl (maintain_steady clock p.maintenance trivial)
    | live | failed => exact kept rfl (maintain_steady clock p.maintenance rfl)
  | direct | acquire | release | resume | interrupt | timer =>
    exact kept rfl (step_outside calls (by rintro _ _ ⟨⟩)).2

/-- A pool stays blocked in a run, unless a restart or two idle probes in a row lift that. -/
theorem after_blocked (blocked : Blocked poolId fallback probes p.scheduler)
    (calls : p.CallsKnow .blocking) {events : List Event} (keyed : ∀ event ∈ events, event.Keyed) :
    let seen := probes ++ probesOf poolId p events
    (∃ earlier event later, events = earlier ++ event :: later ∧
        (p.after earlier).Restarts poolId event) ∨
      [true, true] <:+: seen ∨ Blocked poolId fallback seen (p.after events).scheduler := by
  dsimp only
  induction events generalizing p probes with
  | nil =>
    rw [probesOf, List.append_nil]
    exact Or.inr (Or.inr blocked)
  | cons event rest ih =>
    have seen : probes ++ probesOf poolId p (event :: rest) =
        probes ++ (p.probeOf poolId event).toList ++ probesOf poolId (p.step event) rest := by
      rw [probesOf, List.append_assoc]
    rw [seen]
    rcases step_blocked blocked calls (keyed event List.mem_cons_self) with
      restarts | idle | blocked
    · exact Or.inl ⟨[], event, rest, rfl, restarts⟩
    · exact Or.inr (Or.inl (idle.isInfix.trans (List.prefix_append _ _).isInfix))
    · have rested := ih blocked (after_calls calls [event])
        fun event member => keyed event (List.mem_cons_of_mem _ member)
      refine rested.imp_left ?_
      rintro ⟨earlier, event', later, rfl, restarts⟩
      exact ⟨event :: earlier, event', later, rfl, restarts⟩

/-- In every run after a start, a grant on a pool that another boot has left comes after the
lease of that boot and the drain of the pool have passed, after two probes in a row found all
slots idle, or after a refresh that read the pool healthy with another epoch than the refresh
before. -/
theorem dirty_waits {start : Start} {lease : Lease String} (new : s.pools = .empty)
    (unprobed : s.slotIdle = fun _ => 0) (keyed : start.reading.poolIds.Nodup)
    (claims : start.Claims s) (read : poolId ∈ start.reading.poolIds)
    (row : start.owners poolId = some lease) (former : lease.owner ≠ s.bootGeneration)
    {events : List Event} (keyedLater : ∀ event ∈ events, event.Keyed) {event : Event} {now : Time}
    {identity : String}
    (grants : (Process.after { scheduler := s.start start } events).Grants event now identity
      poolId) :
    start.fallback s.settings poolId lease ≤ now ∨
      [true, true] <:+: probesOf poolId { scheduler := s.start start } events ∨
      ∃ earlier event later, events = earlier ++ event :: later ∧
        (Process.after { scheduler := s.start start } earlier).Restarts poolId event := by
  have blocked := Blocked.start new unprobed keyed claims read row former
  have calls : CallsKnow .blocking { scheduler := s.start start } := fun id on found => by
    cases found
  rcases @after_blocked { scheduler := s.start start } poolId _ [] blocked calls events keyedLater
    with restarted | idle | blocked
  · exact Or.inr (Or.inr restarted)
  · exact Or.inr (Or.inl idle)
  · left
    obtain ⟨s', enters, serves⟩ := grants.serves (after_calls calls events)
    have same : s'.readyByPool =
        (Process.after { scheduler := s.start start } events).scheduler.readyByPool := by
      rcases enters with (rfl | ⟨_, _, _, _, _, _, _, _, _, _, rfl⟩) | ⟨_, _, _, _, _, _, rfl |
        ⟨_, _, _, _, _, _, _, rfl⟩⟩ <;> rfl
    have ready := serves.ready
    rw [MemoryScheduler.readyFor, same, blocked.ready] at ready
    exact of_decide_eq_true ready

end Process

/-- A scheduler that has not started yet. -/
def newScheduler : MemoryScheduler where
  settings := { lease := 30000000, slotProbes := {"p"} }
  bootGeneration := "boot"

/-- A start after another boot has left the sample pool. -/
def sampleStart : Start where
  began := 100
  owners := fun poolId => if poolId = "p" then some ⟨"former", 50⟩ else none
  reading := { records := [samplePool] }
  clock := ⟨100, 100⟩

/-- Two turns of maintenance find all slots idle, and a request waits. -/
def twiceIdle : List Event :=
  [.maintain ⟨101, 101⟩ .ticked, .maintain ⟨102, 102⟩ (.refreshed [samplePool] ["p"]),
    .maintain ⟨103, 103⟩ (.slots true), .maintain ⟨104, 104⟩ .ticked,
    .maintain ⟨105, 105⟩ (.refreshed [samplePool] ["p"]), .maintain ⟨106, 106⟩ (.slots true),
    .direct ⟨107, 107⟩ "" (.enqueue (sampleRequest "x") "p" "proxy")]

theorem dirty_waits_sample :
    let p : Process := { scheduler := newScheduler.start sampleStart }
    sampleStart.fallback newScheduler.settings "p" ⟨"former", 50⟩ ≤ 108 ∨
      [true, true] <:+: Process.probesOf "p" p twiceIdle ∨
      ∃ earlier event later, twiceIdle = earlier ++ event :: later ∧
        (p.after earlier).Restarts "p" event := by
  have granted : (Scheduling.reserve ⟨108, 108⟩ "a" (sampleRequest "x") "p" "proxy" none).outcome
      (Process.after { scheduler := newScheduler.start sampleStart } twiceIdle).scheduler =
      .ok (some (sampleReservation "a" "x")) := by decide +kernel
  exact Process.dirty_waits rfl rfl (by decide) (by decide) (by decide) rfl (by decide)
    (by decide) (.reserve granted)

/-- The engine restarts twice. It is unavailable in between, and then its slots are busy. -/
def restartedTwice : List Event :=
  let between := { samplePool with epoch := "e2", health := .unavailable }
  [.maintain ⟨101, 101⟩ .ticked, .maintain ⟨102, 102⟩ (.refreshed [between] ["p"]),
    .maintain ⟨103, 103⟩ (.slots false), .maintain ⟨104, 104⟩ .ticked,
    .maintain ⟨105, 105⟩ (.refreshed [samplePool] []),
    .direct ⟨107, 107⟩ "" (.enqueue (sampleRequest "x") "p" "proxy")]

/-- A grant comes after no idle probe, before the fallback time, and after no refresh that read the
pool healthy with another epoch than at the start. -/
theorem dirty_waits_fails :
    let p : Process := { scheduler := newScheduler.start sampleStart }
    (p.after restartedTwice).Grants
        (.direct ⟨108, 108⟩ "a" (.reserve (sampleRequest "x") "p" "proxy")) 108 "x" "p" ∧
      ¬ (sampleStart.fallback newScheduler.settings "p" ⟨"former", 50⟩ ≤ 108 ∨
        [true, true] <:+: Process.probesOf "p" p restartedTwice ∨
        ∃ earlier event later pool, restartedTwice = earlier ++ event :: later ∧
          (p.after earlier).Reads event pool ∧ pool.spec.poolId = "p" ∧ pool.health = .healthy ∧
            pool.epoch ≠ samplePool.epoch) := by
  have granted : (Scheduling.reserve ⟨108, 108⟩ "a" (sampleRequest "x") "p" "proxy" none).outcome
      (Process.after { scheduler := newScheduler.start sampleStart } restartedTwice).scheduler =
      .ok (some (sampleReservation "a" "x")) := by decide +kernel
  refine ⟨.reserve granted, ?_⟩
  rintro (late | idle |
    ⟨earlier, event, later, pool, same, ⟨clock, records, order, rfl, -, read⟩, -, healthy, other⟩)
  · exact absurd late (by decide)
  · exact absurd idle (by decide +kernel)
  · have member : Event.maintain clock (.refreshed records order) ∈ restartedTwice := by
      rw [same]
      exact List.mem_append_right _ List.mem_cons_self
    simp only [restartedTwice, List.mem_cons, List.not_mem_nil, or_false, reduceCtorEq, false_or,
      Event.maintain.injEq, Notice.refreshed.injEq, and_false] at member
    rcases member with ⟨-, rfl, -⟩ | ⟨-, rfl, -⟩
    · obtain rfl := List.mem_singleton.mp read
      cases healthy
    · obtain rfl := List.mem_singleton.mp read
      exact other rfl

end IntramindRuntime.Scheduling
