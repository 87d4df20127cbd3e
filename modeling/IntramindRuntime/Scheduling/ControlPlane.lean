import IntramindRuntime.Ledger.Pools
import IntramindRuntime.Scheduling.Reconciliation

/-!
# Pools that are configured while the runtime API runs

A start claims the rows of all pools that it reads, and sets the time from which each is
ready. Every later refresh renews the rows of all pools that it reads, and raises as soon as
one of them is not its own. A pool that was added after the start has no row, so from then
on every refresh raises, and no pool of the process is granted any more. Until then, and as
long as nobody takes its rows over, every refresh succeeds.

## Main definitions

* `configured`, `readingOf` — what the transaction of a refresh reads
* `ControlPlane` — instances of the runtime API around the rows of one ledger
* `ControlPlaneEvent.Spares`, `ControlPlaneEvent.Works` — nobody else takes a row over, and the
  database works
* `ControlPlaneEvent.Familiar` — a started instance is confronted with no new pool
* `ControlPlaneEvent.Sees` — no turn of the maintenance loop raises
* `ControlPlane.Sound` — what an instance, the owners and the ledger have to do with each other

## Main results

* `ControlPlane.refreshes` — every refresh of a started instance succeeds, the instance has the
  control plane, and every pool can be granted, and goes on being granted
* `refreshes_fails` — a pool is added, and no pool can be granted any more
-/

namespace IntramindRuntime.Scheduling

open Library
open Ledger (Db Request)

/-! ### What a refresh reads -/

/-- A pool and its group, as `_refresh` reads them. -/
def Pool.ofRow (pool : Ledger.PoolRow) (group : Ledger.GroupRow) : Pool where
  spec := pool.spec
  epoch := pool.engineEpoch
  health := pool.health
  target := pool.target
  groupId := pool.groupId
  groupHealth := group.health
  groupCeiling := group.hardCeiling

/-- The pools of the ledger, joined with their groups. -/
def configured (d : Db) : List Pool :=
  d.pools.rows.filterMap fun pool => (d.groups.find? pool.groupId).map (Pool.ofRow pool)

/-- All that the transaction of a first refresh reads; later ones read the pools only. -/
def readingOf (d : Db) (classes : String → Option WorkloadClass) : Reading where
  records := configured d
  durable := hydrated d
  legacy := legacy d classes

/-- A refresh reads all pools. -/
theorem mem_readingOf {d : Db} (grouped : d.Grouped) (classes : String → Option WorkloadClass)
    (id : String) : id ∈ (readingOf d classes).poolIds ↔ d.pools.find? id ≠ none := by
  constructor
  · intro member
    obtain ⟨pool, read, named⟩ := List.mem_map.mp member
    obtain ⟨row, here, joined⟩ := List.mem_filterMap.mp read
    obtain ⟨group, -, rfl⟩ := Option.map_eq_some_iff.mp joined
    have found : d.pools.find? row.poolId = some row := Table.find?_of_mem here
    have same : row.poolId = id := (grouped _ row found).1.symm.trans named
    exact fun absent => Option.some_ne_none row ((same ▸ found).symm.trans absent)
  · intro present
    obtain ⟨row, found⟩ := Option.ne_none_iff_exists'.mp present
    obtain ⟨named, present⟩ := grouped id row found
    obtain ⟨group, joined⟩ := Option.ne_none_iff_exists'.mp present
    refine List.mem_map.mpr ⟨.ofRow row group, List.mem_filterMap.mpr ⟨row, ?_, ?_⟩, named⟩
    · exact Table.mem_of_find? found
    · rw [joined]
      rfl

/-! ### Runs -/

/-- What the transaction of a refresh has read, once it has committed. -/
def Refresh.reading : Refresh → Option Reading
  | .committed _ reading => some reading
  | _ => none

namespace Instance

variable (inst : Instance)

/-- The instance has claimed the pools that it has read. -/
def Claimed : Prop :=
  inst.process.scheduler.started = true ∨ inst.refresh.reading.isSome = true

/-- The instance has the control plane, and a loop that waits for a refresh waits for one that
goes on. -/
structure InControl : Prop where
  ready : inst.process.scheduler.controlReady = true
  waits : inst.process.maintenance = .refreshing →
    inst.process.scheduler.started = true ∧ inst.refresh ≠ .idle

/-- The instance knows a pool, and from when on it is ready. -/
def Serves (poolId : String) : Prop :=
  inst.Knows poolId ∧ inst.process.scheduler.readyByPool poolId ≠ none

end Instance

/-- The loop fails: what it awaits raises, or the ledger reports an attempt without a permit. -/
def Process.Fails (p : Process) : Event → Prop
  | .maintain _ .failed => p.maintenance ≠ .sleeping
  | .maintain _ (.live held) => ∃ active, p.maintenance = .reconciling active ∧
      (reconcileEach held active).outcome p.scheduler ≠ .ok ()
  | _ => False

/-- Instances of the runtime API around the rows of one ledger. -/
structure ControlPlane where
  db : Db
  cluster : Cluster

/-- What happens next. -/
inductive ControlPlaneEvent
  /-- A method of the store is called. -/
  | ledger (request : Request)
  /-- The transaction of a refresh reads the pools, and commits or raises. -/
  | commit (boot : String) (classes : String → Option WorkloadClass)
  /-- Anything else that happens to an instance. -/
  | cluster (event : ClusterEvent)

/-- The transaction of a refresh. -/
def ClusterEvent.commits : ClusterEvent → Bool
  | .commit _ _ => true
  | _ => false

namespace ControlPlane

variable (sha256 : String → String) (σ : ControlPlane)

/-- One step. -/
def step : ControlPlaneEvent → ControlPlane
  | .ledger request => { σ with db := request.after sha256 σ.db }
  | .commit boot classes =>
    { σ with cluster := σ.cluster.step (.commit boot (readingOf σ.db classes)) }
  | .cluster event =>
    if event.commits then σ else { σ with cluster := σ.cluster.step event }

/-- Any sequence of steps. -/
def after (events : List ControlPlaneEvent) : ControlPlane :=
  events.foldl (fun σ event => σ.step sha256 event) σ

/-- The instance of a boot. -/
def inst (boot : String) : Instance := σ.cluster.instances boot

/-- The row of a pool names this boot. -/
def Owns (boot poolId : String) : Prop := ∃ lease ∈ σ.cluster.owners poolId, lease.owner = boot

/-- Every step of a run meets a condition. -/
def Throughout (condition : ControlPlane → ControlPlaneEvent → Prop) :
    ControlPlane → List ControlPlaneEvent → Prop
  | _, [] => True
  | σ, event :: events => condition σ event ∧ Throughout condition (σ.step sha256 event) events

end ControlPlane

namespace ControlPlaneEvent

/-- No other boot takes a row over. -/
def Spares (boot : String) (σ : ControlPlane) : ControlPlaneEvent → Prop
  | .commit other classes => other ≠ boot → ∀ poolId, σ.Owns boot poolId →
      ControlPlane.Owns { σ with
        cluster := σ.cluster.step (.commit other (readingOf σ.db classes)) } boot poolId
  | _ => True

/-- The database works: of what the loop asks it, only a refresh raises, and only by itself. -/
def Works (boot : String) (σ : ControlPlane) : ControlPlaneEvent → Prop
  | .cluster (.turn other (.maintain _ .failed)) => other = boot →
      match (σ.inst boot).process.maintenance with
      | .refreshing => (σ.inst boot).refresh = .idle
      | .reconciling _ | .settling .. => False
      | .sleeping | .probing .. | .proving .. => True
  | _ => True

/-- Nothing else ends a turn of the loop: a probe of an engine raises nothing that is not caught,
and the ledger shows no attempt whose permit was given back while it was asked. -/
def Sees (boot : String) (σ : ControlPlane) : ControlPlaneEvent → Prop
  | .cluster (.turn other (.maintain _ notice)) => other = boot →
      match (σ.inst boot).process.maintenance, notice with
      | .probing .., .failed | .proving .., .failed => False
      | .reconciling active, .live held => ∀ id ∈ active, held.reverse.lookup id ≠ none →
          (σ.inst boot).process.scheduler.permits.find? id ≠ none
      | _, _ => True
  | _ => True

/-- The clock of a turn of the maintenance loop. -/
def clock (boot : String) : ControlPlaneEvent → Option Clock
  | .cluster (.adopt other clock _) | .cluster (.turn other (.maintain clock _)) =>
    if other = boot then some clock else none
  | _ => none

/-- Once the instance has claimed its pools, only pools that the ledger has are configured. -/
def Familiar (boot : String) (σ : ControlPlane) : ControlPlaneEvent → Prop
  | .ledger request => (σ.inst boot).Claimed →
      ∀ poolId ∈ request.configures, σ.db.pools.find? poolId ≠ none
  | _ => True

/-- Nobody takes a row over, the database works, and the loop and the ledger are not disturbed. -/
structure Undisturbed (boot : String) (σ : ControlPlane) (event : ControlPlaneEvent) : Prop where
  spares : event.Spares boot σ
  works : event.Works boot σ
  sees : event.Sees boot σ
  familiar : event.Familiar boot σ

end ControlPlaneEvent

/-! ### Pools stay ready -/

section Ready

variable {s : MemoryScheduler} {clock : Clock} {id : String}
  -- what is kept: that a pool has a time, or that a moment has reached it
  {P : Option Time → Prop}

/-- What holds of the time that a pool is given holds after the times of any pool are set. -/
theorem update_ready {readyByPool : String → Option Time}
    {poolId : String} {time : Time} (here : P (readyByPool id) ∨ poolId = id)
    (sets : P (some time)) : P (Function.update readyByPool poolId (some time) id) := by
  rcases eq_or_ne id poolId with rfl | apart
  · rw [Function.update_self]
    exact sets
  · rw [Function.update_of_ne apart]
    exact here.resolve_right apart.symm

theorem adoptPool_keepsReady (sets : P (some clock.monotonic)) (current : Pool)
    (ready : P (s.readyByPool id)) : P ((s.adoptPool clock current).readyByPool id) := by
  have ended (items : List Permit) (t : MemoryScheduler) :
      Steady t (items.foldl MemoryScheduler.endStale t) :=
    Steady.foldl (f := MemoryScheduler.endStale) (fun _ _ => ⟨rfl, rfl⟩) items t
  unfold MemoryScheduler.adoptPool
  dsimp only
  split
  · have same := congrFun (ended (({ s with pools := s.pools.put current } :
      MemoryScheduler).stale current.spec.poolId current.epoch)
      { s with pools := s.pools.put current }).ready id
    have ready : P _ := same ▸ ready
    split
    · exact update_ready (Or.inl ready) sets
    · exact ready
  · exact ready

theorem adopt_keepsReady (sets : P (some clock.monotonic)) (records : List Pool)
    (durable : List HydratedAttempt) (legacy : List LegacyAttempt)
    (ready : P (s.readyByPool id)) : P ((s.adopt clock records durable legacy).readyByPool id) := by
  unfold MemoryScheduler.adopt
  dsimp only
  induction records generalizing s with
  | nil => exact ready
  | cons current rest ih => exact ih (adoptPool_keepsReady sets current ready)

theorem schedule_keepsReady {poolId : String} (here : s.readyByPool id ≠ none ∨ poolId = id) :
    (s.schedule clock poolId).readyByPool id ≠ none := by
  unfold MemoryScheduler.schedule
  split <;> exact update_ready (P := (· ≠ none)) here (Option.some_ne_none _)

/-- The rest of a start sets the times of all pools. -/
theorem open_ready (found : s.pools.find? id ≠ none) : (s.open clock).readyByPool id ≠ none := by
  obtain ⟨pool, found⟩ := Option.ne_none_iff_exists'.mp found
  have scheduled : ∀ (pools : List Pool) (s : MemoryScheduler),
      (s.readyByPool id ≠ none ∨ ∃ pool ∈ pools, pool.spec.poolId = id) →
      (pools.foldl (fun s pool => s.schedule clock pool.spec.poolId) s).readyByPool id ≠ none := by
    intro pools
    induction pools with
    | nil => exact fun s here => here.resolve_right fun ⟨_, member, _⟩ => by cases member
    | cons current rest ih =>
      intro s here
      refine ih _ ?_
      rcases here with ready | ⟨pool, member, named⟩
      · exact Or.inl (schedule_keepsReady (Or.inl ready))
      · rcases List.mem_cons.mp member with rfl | later
        · exact Or.inl (schedule_keepsReady (Or.inr named))
        · exact Or.inr ⟨pool, later, named⟩
  have named : pool.spec.poolId = id := Table.key_of_find? found
  exact scheduled s.pools.rows s (Or.inr ⟨pool, Table.mem_of_find? found, named⟩)

/-- A turn that is not part of a refresh sets the time of a pool to what its clock shows. -/
theorem step_keepsReady {p : Process} (calls : p.CallsKnow { refreshing := false }) {event : Event}
    (apart : event.apart)
    (sets : ∀ clock notice, event = .maintain clock notice → P (some clock.monotonic))
    (ready : P (p.scheduler.readyByPool id)) : P ((p.step event).scheduler.readyByPool id) := by
  have kept {s' : MemoryScheduler} (same : s'.readyByPool = p.scheduler.readyByPool) :
      P (s'.readyByPool id) := by
    rw [same]
    exact ready
  cases event with
  | maintain clock notice =>
    cases notice with
    | ticked | refreshed => cases apart
    | proof | settled =>
      refine kept (Process.maintain_steady clock p.maintenance ?_).ready
      trivial
    | live | failed =>
      refine kept (Process.maintain_steady clock p.maintenance ?_).ready
      rfl
    | slots idle =>
      show P ((maintain clock p.scheduler p.maintenance (.slots idle)).scheduler.readyByPool id)
      cases p.maintenance with
      | probing poolId rest =>
        rw [maintain, (probeNext_steady clock rest _).ready]
        unfold MemoryScheduler.probed
        generalize (if idle then p.scheduler.slotIdle poolId + 1 else 0) = count
        dsimp only
        split
        · exact update_ready (Or.inl ready) (sets clock _ rfl)
        · exact ready
      | sleeping | refreshing | reconciling | proving | settling => exact ready
  | direct | acquire | release | resume | interrupt | timer =>
    exact kept (Process.step_outside calls (by rintro _ _ ⟨⟩)).2.ready

theorem open_control (s : MemoryScheduler) (clock : Clock) :
    (s.open clock).controlReady = s.controlReady := by
  have scheduled : ∀ (pools : List Pool) (s : MemoryScheduler),
      (pools.foldl (fun s pool => s.schedule clock pool.spec.poolId) s).controlReady =
        s.controlReady := by
    intro pools
    induction pools with
    | nil => exact fun _ => rfl
    | cons pool rest ih =>
      intro s
      have same : (s.schedule clock pool.spec.poolId).controlReady = s.controlReady := by
        unfold MemoryScheduler.schedule
        split <;> rfl
      exact (ih _).trans same
  exact scheduled s.pools.rows s

/-- A refresh keeps the pools that there were, and those that it reads. -/
theorem adopt_pools {records : List Pool} (durable : List HydratedAttempt)
    (legacy : List LegacyAttempt)
    (here : s.pools.find? id ≠ none ∨ ∃ pool ∈ records, pool.spec.poolId = id) :
    (s.adopt clock records durable legacy).pools.find? id ≠ none := by
  have adopted (records : List Pool) : ∀ s : MemoryScheduler,
      (records.foldl (fun s current => s.adoptPool clock current) s).pools =
        records.foldl Table.put s.pools := by
    induction records with
    | nil => exact fun _ => rfl
    | cons current rest ih =>
      intro s
      exact (ih _).trans (congrArg (rest.foldl Table.put) (adoptPool_pools current))
  have same : (s.adopt clock records durable legacy).pools = records.foldl Table.put s.pools :=
    adopted records s
  rw [same]
  exact find?_foldl_put here

end Ready

/-! ### The loop stays in control -/

section Control

variable {scope : Scope} {s s' s₁ : MemoryScheduler}

/-- No pool is taken away, and the control plane is lost only where that is in scope. -/
structure Persists (scope : Scope) (s s' : MemoryScheduler) : Prop where
  control : scope.losing = false → s.controlReady = true → s'.controlReady = true
  pools : ∀ id, s.pools.find? id ≠ none → s'.pools.find? id ≠ none

theorem Persists.refl (s : MemoryScheduler) : Persists scope s s :=
  ⟨fun _ on => on, fun _ found => found⟩

theorem Persists.trans (first : Persists scope s s₁) (second : Persists scope s₁ s') :
    Persists scope s s' :=
  ⟨fun holding on => second.control holding (first.control holding on),
    fun id found => second.pools id (first.pools id found)⟩

theorem Persists.of_same (control : s'.controlReady = s.controlReady)
    (pools : s'.pools = s.pools) : Persists scope s s' :=
  ⟨fun _ on => control.trans on, fun _ found => pools ▸ found⟩

theorem Move.persists (move : Move scope s s') : Persists scope s s' := by
  cases move with
  | quiet same steady control =>
    refine ⟨fun holding on => ?_, fun _ found => same.pools ▸ found⟩
    rcases control with losing | kept
    · exact absurd (losing.symm.trans holding) (by decide)
    · exact kept.trans on
  | withdraw | grant | grantDurable =>
    exact .of_same (removeWaiter_controlReady _) (removeWaiter_pools _ _)
  | adopt pool allowed fits =>
    refine ⟨fun _ on => on, fun id found => ?_⟩
    rw [Table.find?_put]
    split
    · exact Option.some_ne_none _
    · exact found
  | regain => exact ⟨fun _ _ => rfl, fun _ found => found⟩
  | prune | forget | disown | progress | conclude | observe | drop | weigh | wait =>
    exact .of_same rfl rfl

theorem Path.persists (path : Path scope s s') : Persists scope s s' := by
  induction path with
  | refl => exact .refl s
  | tail _ move ih => exact ih.trans move.persists

theorem Sweeps.persists {now : Time} (sweeps : Sweeps scope now s s') : Persists scope s s' := by
  obtain ⟨t, path, rfl | rfl⟩ := sweeps
  · exact path.persists
  · have forgets : Path {} t (t.expireRequests now) := expireRequests_path rfl now
    refine path.persists.trans ⟨fun _ on => ?_, forgets.persists.pools⟩
    exact (Untouched.expireRequests now).ready.trans on

/-- A turn in which the loop does not fail keeps the control plane and the pools. -/
theorem Process.step_persists {p : Process} (calls : p.CallsKnow { losing := false })
    {event : Event} (fine : ¬ p.Fails event) :
    Persists { losing := false } p.scheduler (p.step event).scheduler := by
  have moves (inScope : p.InScope { losing := false } event) :
      Persists { losing := false } p.scheduler (p.step event).scheduler := by
    obtain ⟨s, enters, ⟨now, sweeps⟩, -⟩ :=
      Process.step_sweeps rfl (fun _ _ _ => trivial) calls inScope
    refine Persists.trans ?_ sweeps.persists
    rcases enters with (rfl | ⟨_, _, _, _, _, _, _, _, _, _, rfl⟩) | ⟨_, _, _, _, _, _, rfl |
      ⟨_, _, _, _, _, _, _, rfl⟩⟩ <;> exact .of_same rfl rfl
  have heeds (on : Maintenance) (notice : Notice) :
      Scope.Heeds { losing := false } on notice :=
    Scope.heeds_of_gone (fun _ => trivial) (fun _ => trivial) on
      fun _ _ _ => ⟨rfl, fun _ _ => trivial⟩
  cases event with
  | direct _ _ call =>
    exact moves ⟨rfl, call.fits_of_free trivial (fun _ => trivial) fun _ => trivial⟩
  | resume clock id answer =>
    exact moves fun on _ => Scope.hears_of_gone (fun _ => trivial) on answer
  | acquire | release | interrupt | timer => exact moves trivial
  | maintain clock notice =>
    cases notice with
    | ticked | proof | settled => exact moves ⟨rfl, heeds _ _, trivial, fun _ _ => trivial⟩
    | refreshed | slots => exact moves ⟨rfl, heeds _ _, rfl, fun _ _ => trivial⟩
    | failed =>
      have asleep : p.maintenance = .sleeping := not_not.mp fine
      simp only [Process.step, asleep]
      exact .refl _
    | live held =>
      by_cases waits : ∃ active, p.maintenance = .reconciling active
      · obtain ⟨active, waits⟩ := waits
        have done : (reconcileEach held active).outcome p.scheduler = .ok () :=
          not_not.mp fun failed => fine ⟨active, waits, failed⟩
        have heard : Scope.Heeds {} p.maintenance (.live held) :=
          Scope.heeds_of_gone (fun _ => trivial) (fun _ => trivial) _ fun _ _ same => by cases same
        refine ⟨fun _ on => ?_, (@Path.persists {} _ _ ?_).pools⟩
        · simp only [Process.step, waits]
          exact (maintain_live p.scheduler).1.mpr ⟨on, done⟩
        · exact maintain_path rfl rfl clock p.maintenance heard rfl fun _ _ => trivial
      · have same : (p.step (.maintain clock (.live held))).scheduler = p.scheduler := by
          simp only [Process.step]
          cases on : p.maintenance with
          | reconciling active => exact absurd ⟨active, on⟩ waits
          | sleeping | refreshing | probing | proving | settling => rfl
        rw [same]
        exact .refl _

theorem settleNext_awaits (clock : Clock) (pending : List (String × Finset String))
    (s : MemoryScheduler) : (settleNext clock pending s).next ≠ .refreshing := by
  induction pending generalizing s with
  | nil => exact nofun
  | cons item rest ih =>
    unfold settleNext
    split
    · exact ih s
    · split
      · exact nofun
      · exact ih _

theorem probeNext_awaits (clock : Clock) (pools : List String) (s : MemoryScheduler) :
    (probeNext clock pools s).next ≠ .refreshing := by
  induction pools generalizing s with
  | nil =>
    unfold probeNext reconcileBegin
    split
    · exact settleNext_awaits clock _ _
    · rintro ⟨⟩
  | cons poolId rest ih =>
    unfold probeNext
    split
    · rintro ⟨⟩
    · exact ih s

/-- The loop waits for a refresh only after it has woken up. -/
theorem maintain_awaits {clock : Clock} {s : MemoryScheduler} {on : Maintenance} {notice : Notice}
    (waits : (maintain clock s on notice).next = .refreshing) :
    (on = .sleeping ∧ notice = .ticked) ∨ (on = .refreshing ∧ notice ≠ .failed) := by
  unfold maintain at waits
  split at waits
  · exact Or.inl ⟨rfl, rfl⟩
  · exact absurd waits (probeNext_awaits clock _ _)
  · exact absurd waits (probeNext_awaits clock _ _)
  · split at waits
    · exact absurd waits (settleNext_awaits clock _ _)
    · cases waits
  · unfold settleProved at waits
    dsimp only at waits
    split at waits
    · exact absurd waits (settleNext_awaits clock _ _)
    · split at waits
      · exact absurd waits (settleNext_awaits clock _ _)
      · cases waits
  · exact absurd waits (settleNext_awaits clock _ _)
  · cases waits
  · cases waits
  · refine Or.inr ⟨waits, ?_⟩
    rintro rfl
    exact ‹Notice.failed = .failed → False› rfl

end Control

/-! ### The invariant -/

namespace ControlPlane

variable {sha256 : String → String} {σ : ControlPlane} {boot : String}

/-- What an instance, the rows of owners and the ledger have to do with each other. -/
structure Sound (boot : String) (σ : ControlPlane) : Prop where
  grouped : σ.db.Grouped
  calls : (σ.inst boot).process.CallsKnow { refreshing := false }
  known : ∀ id, (σ.inst boot).Knows id → σ.db.pools.find? id ≠ none
  read : ∀ reading ∈ (σ.inst boot).refresh.reading, ∀ id ∈ reading.poolIds,
    σ.db.pools.find? id ≠ none
  /-- A start has read all pools. -/
  starting : (σ.inst boot).process.scheduler.started = false →
    ∀ reading ∈ (σ.inst boot).refresh.reading, ∀ id, σ.db.pools.find? id ≠ none →
      id ∈ reading.poolIds
  owned : (σ.inst boot).Claimed → ∀ id, σ.db.pools.find? id ≠ none → σ.Owns boot id
  serves : (σ.inst boot).process.scheduler.started = true → ∀ id, σ.db.pools.find? id ≠ none →
    (σ.inst boot).Serves id
  control : (σ.inst boot).InControl

/-- The ledger changes, but has the pools that it had. -/
theorem Sound.ledger (sound : σ.Sound boot) {db : Db} (grouped : db.Grouped)
    (stays : ∀ id, σ.db.pools.find? id ≠ none → db.pools.find? id ≠ none)
    (before : (σ.inst boot).Claimed → ∀ id, db.pools.find? id ≠ none →
      σ.db.pools.find? id ≠ none) : Sound boot { σ with db } where
  grouped := grouped
  calls := sound.calls
  known id knows := stays id (sound.known id knows)
  read reading here id member := stays id (sound.read reading here id member)
  starting idle reading here id found :=
    sound.starting idle reading here id
      (before (Or.inr (Option.isSome_iff_exists.mpr ⟨reading, here⟩)) id found)
  owned claimed id found := sound.owned claimed id (before claimed id found)
  serves started id found := sound.serves started id (before (Or.inl started) id found)
  control := sound.control

/-- The instance is as it was, and has the rows that it had. -/
theorem Sound.of_same (sound : σ.Sound boot) {cluster : Cluster}
    (same : cluster.instances boot = σ.inst boot)
    (owns : ∀ id, σ.Owns boot id → Owns { σ with cluster } boot id) :
    Sound boot { σ with cluster } := by
  have here : inst { σ with cluster } boot = σ.inst boot := same
  refine ⟨sound.grouped, ?_, ?_, ?_, ?_, ?_, ?_, ?_⟩ <;> rw [here]
  · exact sound.calls
  · exact sound.known
  · exact sound.read
  · exact sound.starting
  · exact fun claimed id found => owns id (sound.owned claimed id found)
  · exact sound.serves
  · exact sound.control

/-- The instance changes, and the rows of owners do not. -/
theorem Sound.set (sound : σ.Sound boot) {cluster : Cluster} {now : Instance}
    (here : cluster.instances boot = now) (owners : cluster.owners = σ.cluster.owners)
    (calls : now.process.CallsKnow { refreshing := false })
    (known : ∀ id, now.Knows id → σ.db.pools.find? id ≠ none)
    (refresh : ∀ reading ∈ now.refresh.reading, reading ∈ (σ.inst boot).refresh.reading)
    (started : now.process.scheduler.started = true → (σ.inst boot).Claimed)
    (idle : now.process.scheduler.started = false →
      (σ.inst boot).process.scheduler.started = false)
    (serves : now.process.scheduler.started = true → ∀ id, σ.db.pools.find? id ≠ none →
      now.Serves id) (control : now.InControl) : Sound boot { σ with cluster } := by
  have same : inst { σ with cluster } boot = now := here
  refine ⟨sound.grouped, ?_, ?_, ?_, ?_, ?_, ?_, ?_⟩ <;> rw [same]
  · exact calls
  · exact known
  · exact fun reading found => sound.read reading (refresh reading found)
  · exact fun off reading found => sound.starting (idle off) reading (refresh reading found)
  · intro claimed id found
    have before : (σ.inst boot).Claimed := by
      rcases claimed with on | claimed
      · exact started on
      · obtain ⟨reading, found⟩ := Option.isSome_iff_exists.mp claimed
        exact Or.inr (Option.isSome_iff_exists.mpr ⟨reading, refresh reading found⟩)
    have owns : σ.Owns boot id := sound.owned before id found
    unfold Owns at owns ⊢
    rw [← owners] at owns
    exact owns
  · exact serves
  · exact control

/-- The marks of a start change nothing that the invariant is about. -/
theorem marked_keeps (inst : Instance) (began : Time) (reading : Reading) (rows : Owners) :
    let marked := inst.marked boot began reading rows
    marked.process.calls = inst.process.calls ∧
      marked.process.maintenance = inst.process.maintenance ∧
      marked.process.scheduler.started = inst.process.scheduler.started ∧
      marked.process.scheduler.controlReady = inst.process.scheduler.controlReady ∧
      marked.process.scheduler.pools = inst.process.scheduler.pools ∧
      (inst.process.scheduler.started = true → marked = inst) := by
  unfold Instance.marked
  dsimp only
  split
  · exact ⟨rfl, rfl, rfl, rfl, rfl, fun _ => rfl⟩
  · rename_i idle
    obtain ⟨pools, started, control⟩ := @Instance.markEach_same rows boot began
      (began + inst.lease) reading.poolIds inst.process.scheduler
    exact ⟨rfl, rfl, started, control, pools, fun on => absurd on idle⟩

/-- A refresh that runs takes all rows, or raises. -/
theorem commit_running {inst : Instance} {began : Time} (running : inst.refresh = .running began)
    (reading : Reading) (owners : Owners) :
    (Lease.takeEach (inst.take boot began) reading.poolIds owners = none ∧
      inst.commit boot reading owners =
        (owners, { inst.marked boot began reading owners with refresh := .idle })) ∨
    ∃ owners', Lease.takeEach (inst.take boot began) reading.poolIds owners = some owners' ∧
      inst.commit boot reading owners =
        (owners', { inst.marked boot began reading owners with
          refresh := .committed began reading }) := by
  unfold Instance.commit
  rw [running]
  dsimp only
  split
  · rename_i refused
    exact Or.inl ⟨refused, rfl⟩
  · rename_i owners' taken
    exact Or.inr ⟨owners', taken, rfl⟩

theorem commit_inst (classes : String → Option WorkloadClass) :
    (σ.step sha256 (.commit boot classes)).inst boot =
      ((σ.inst boot).commit boot (readingOf σ.db classes) σ.cluster.owners).2 :=
  Function.update_self _ _ _

/-- A refresh of a started instance takes all rows. -/
theorem Sound.renews (sound : σ.Sound boot)
    (started : (σ.inst boot).process.scheduler.started = true) (began : Time)
    (classes : String → Option WorkloadClass) :
    ∃ owners, Lease.takeEach ((σ.inst boot).take boot began) (readingOf σ.db classes).poolIds
      σ.cluster.owners = some owners := by
  unfold Instance.take
  rw [if_pos started]
  refine Option.isSome_iff_exists.mp (Lease.takeEach_renew_isSome.mpr fun id member => ?_)
  exact sound.owned (Or.inl started) id ((mem_readingOf sound.grouped classes id).mp member)

/-- The transaction of a refresh of the instance itself. -/
theorem Sound.commit (sound : σ.Sound boot) (classes : String → Option WorkloadClass) :
    (σ.step sha256 (.commit boot classes)).Sound boot := by
  have now := @commit_inst sha256 σ boot classes
  have owners : (σ.step sha256 (.commit boot classes)).cluster.owners =
      ((σ.inst boot).commit boot (readingOf σ.db classes) σ.cluster.owners).1 := rfl
  by_cases running : ∃ began, (σ.inst boot).refresh = .running began
  · obtain ⟨began, running⟩ := running
    have ended := @commit_running boot _ _ running (readingOf σ.db classes) σ.cluster.owners
    have kept := @marked_keeps boot (σ.inst boot) began (readingOf σ.db classes) σ.cluster.owners
    generalize (σ.inst boot).marked boot began (readingOf σ.db classes) σ.cluster.owners =
      marked at ended kept
    obtain ⟨calls, loop, started, control, pools, same⟩ := kept
    have calls' : marked.process.CallsKnow { refreshing := false } :=
      fun id on found => sound.calls id on (calls ▸ found)
    have knows (id : String) (knows : marked.Knows id) : σ.db.pools.find? id ≠ none := by
      unfold Instance.Knows at knows
      rw [pools] at knows
      exact sound.known id knows
    have serves (on : marked.process.scheduler.started = true) (id : String)
        (found : σ.db.pools.find? id ≠ none) : marked.Serves id := by
      rw [started] at on
      rw [same on]
      exact sound.serves on id found
    have waits (waits : marked.process.maintenance = .refreshing) :
        (σ.inst boot).process.scheduler.started = true :=
      (sound.control.waits (loop.symm.trans waits)).1
    rcases ended with ⟨refused, done⟩ | ⟨owners', taken, done⟩
    · rw [done] at now owners
      refine sound.set now owners calls' knows (fun _ none => by cases none) (fun on => ?_)
        (fun off => ?_) serves ⟨control.trans sound.control.ready, fun waiting => ?_⟩
      · exact Or.inl (started.symm.trans on)
      · exact started.symm.trans off
      · -- a refresh that the loop waits for is not refused
        obtain ⟨owners', taken⟩ := sound.renews (waits waiting) began classes
        exact absurd (taken.symm.trans refused) (Option.some_ne_none owners')
    · rw [done] at now owners
      obtain ⟨-, all⟩ := Lease.takeEach_taken (Instance.take_writes began) taken
      refine ⟨sound.grouped, ?_, ?_, ?_, ?_, ?_, ?_, ?_⟩ <;> rw [now]
      · exact calls'
      · exact knows
      · intro reading here id member
        obtain rfl := Option.some.inj (Option.mem_def.mp here)
        exact (mem_readingOf sound.grouped classes id).mp member
      · intro _ reading here id found
        obtain rfl := Option.some.inj (Option.mem_def.mp here)
        exact (mem_readingOf sound.grouped classes id).mpr found
      · intro _ id found
        unfold Owns
        rw [owners]
        exact ⟨_, all id ((mem_readingOf sound.grouped classes id).mpr found), rfl⟩
      · exact serves
      · refine ⟨control.trans sound.control.ready, fun waiting => ⟨?_, nofun⟩⟩
        exact started.trans (waits waiting)
  · -- nothing runs
    have same : (σ.inst boot).commit boot (readingOf σ.db classes) σ.cluster.owners =
        (σ.cluster.owners, σ.inst boot) := by
      unfold Instance.commit
      split
      · rename_i began here
        exact absurd ⟨began, here⟩ running
      · rfl
    rw [same] at now owners
    refine sound.of_same now fun id ⟨lease, here, mine⟩ => ⟨lease, ?_, mine⟩
    exact (congrFun owners id).trans here

/-- The transaction of another instance. -/
theorem Sound.commitOther (sound : σ.Sound boot) {other : String} (different : other ≠ boot)
    {classes : String → Option WorkloadClass}
    (spares : ControlPlaneEvent.Spares boot σ (.commit other classes)) :
    (σ.step sha256 (.commit other classes)).Sound boot := by
  refine sound.of_same ?_ fun id => spares different id
  simp only [Cluster.step, Cluster.set]
  exact Function.update_of_ne different.symm _ _

/-- What the answer of a refresh makes of the scheduler. -/
def refreshed (clock : Clock) (s : MemoryScheduler) (reading : Reading) (order : List String) :
    MemoryScheduler :=
  (maintain clock s .refreshing (.refreshed reading.records order)).scheduler

section Refreshed

variable (clock : Clock) (s : MemoryScheduler) (reading : Reading) (order : List String)

theorem refreshed_started : (refreshed clock s reading order).started = s.started := by
  have heard : Scope.Heeds {} .refreshing (.refreshed reading.records order) :=
    ⟨rfl, fun _ _ => trivial⟩
  exact (maintain_path rfl rfl clock .refreshing heard rfl fun _ _ => trivial).follows.started

theorem refreshed_known {id : String}
    (found : (refreshed clock s reading order).pools.find? id ≠ none) :
    s.pools.find? id ≠ none ∨ id ∈ reading.poolIds := by
  have heard : Scope.Heeds { known := fun pool => pool.spec.poolId ∈ reading.poolIds }
      .refreshing (.refreshed reading.records order) := ⟨rfl, Instance.mem_poolIds⟩
  exact Instance.pools_of_path
    (maintain_path rfl rfl clock .refreshing heard rfl fun _ _ => trivial) found

/-- After the answer the loop has the control plane, and the pools that it knew or read. -/
theorem refreshed_ready : (refreshed clock s reading order).controlReady = true ∧
    (∀ id, s.pools.find? id ≠ none ∨ id ∈ reading.poolIds →
      (refreshed clock s reading order).pools.find? id ≠ none) ∧
    ∀ (P : Option Time → Prop) id, P (some clock.monotonic) → P (s.readyByPool id) →
      P ((refreshed clock s reading order).readyByPool id) := by
  unfold refreshed maintain
  refine ⟨(Untouched.probeNext clock _ _).ready, fun id here => ?_, fun P id sets ready => ?_⟩
  · rw [(Untouched.probeNext clock _ _).pools]
    refine adopt_pools [] [] (here.imp_right fun member => ?_)
    obtain ⟨pool, read, named⟩ := List.mem_map.mp member
    exact ⟨pool, read, named⟩
  · rw [(probeNext_steady clock _ _).ready]
    exact adopt_keepsReady sets reading.records [] [] ready

end Refreshed

/-- The answer of a refresh arrives at a loop that waits for it. -/
theorem Sound.again (sound : σ.Sound boot) {clock : Clock} {order : List String}
    {reading : Reading} {cluster : Cluster} {renewedUntil : String → Option Time}
    (read : reading ∈ (σ.inst boot).refresh.reading)
    (started : (σ.inst boot).process.scheduler.started = true)
    (refreshing : (σ.inst boot).process.maintenance = .refreshing)
    (here : cluster.instances boot = { σ.inst boot with
      process := (σ.inst boot).process.step (.maintain clock (.refreshed reading.records order))
      refresh := .idle, renewedUntil }) (owners : cluster.owners = σ.cluster.owners) :
    Sound boot { σ with cluster } := by
  have scheduler : ((σ.inst boot).process.step
      (.maintain clock (.refreshed reading.records order))).scheduler =
        refreshed clock (σ.inst boot).process.scheduler reading order := by
    simp only [Process.step, refreshing]
    rfl
  have after := refreshed_ready clock (σ.inst boot).process.scheduler reading order
  refine sound.set here owners sound.calls (fun id knows => ?_) (fun _ none => by cases none)
    (fun _ => Or.inl started) (fun off => ?_) (fun _ id found => ?_) ⟨?_, fun waiting => ?_⟩
  · -- what it knows it knew, or has just read
    unfold Instance.Knows at knows
    rw [scheduler] at knows
    exact (refreshed_known clock _ reading order knows).elim (sound.known id)
      (sound.read reading read id)
  · rw [scheduler, refreshed_started] at off
    exact off
  · obtain ⟨known, ready⟩ := sound.serves started id found
    unfold Instance.Serves Instance.Knows
    rw [scheduler]
    exact ⟨after.2.1 id (Or.inl known),
      after.2.2 (· ≠ none) id (Option.some_ne_none _) ready⟩
  · rw [scheduler]
    exact after.1
  · -- after the answer the loop goes on with the probes
    have next : (maintain clock (σ.inst boot).process.scheduler
        (σ.inst boot).process.maintenance (.refreshed reading.records order)).next =
          .refreshing := waiting
    rw [refreshing] at next
    exact absurd next (probeNext_awaits clock _ _)

/-- The answer of the first refresh arrives. -/
theorem Sound.opened (sound : σ.Sound boot) {clock : Clock} {reading : Reading}
    {cluster : Cluster} {renewedUntil : String → Option Time}
    (read : reading ∈ (σ.inst boot).refresh.reading)
    (idle : ¬ (σ.inst boot).process.scheduler.started = true)
    (here : cluster.instances boot = { σ.inst boot with
      process := { (σ.inst boot).process with
        scheduler := ((σ.inst boot).process.scheduler.adopt clock reading.records reading.durable
          reading.legacy).open clock }
      refresh := .idle, renewedUntil }) (owners : cluster.owners = σ.cluster.owners) :
    Sound boot { σ with cluster } := by
  have opened := open_same ((σ.inst boot).process.scheduler.adopt clock reading.records
    reading.durable reading.legacy) clock
  refine sound.set here owners sound.calls (fun id knows => ?_) (fun _ none => by cases none)
    (fun _ => Or.inr (Option.isSome_iff_exists.mpr ⟨reading, read⟩)) (fun off => ?_)
    (fun _ id found => ?_) ⟨?_, fun waiting => absurd (sound.control.waits waiting).1 idle⟩
  · -- what it knows it knew, or has just read
    unfold Instance.Knows at knows
    rw [Instance.open_pools] at knows
    exact (Instance.pools_of_path (adopt_path rfl rfl clock Instance.mem_poolIds
      fun _ _ _ _ => trivial) knows).elim (sound.known id) (sound.read reading read id)
  · exact absurd (opened.2.2.symm.trans off) (by decide)
  · -- a start has read all pools that the ledger still has
    have member := sound.starting (Bool.eq_false_iff.mpr idle) reading read id found
    obtain ⟨pool, here, named⟩ := List.mem_map.mp member
    have known := @adopt_pools (σ.inst boot).process.scheduler clock id reading.records
      reading.durable reading.legacy (Or.inr ⟨pool, here, named⟩)
    refine ⟨?_, open_ready known⟩
    unfold Instance.Knows
    rw [Instance.open_pools]
    exact known
  · have adopted : Path { losing := false } (σ.inst boot).process.scheduler
        ((σ.inst boot).process.scheduler.adopt clock reading.records [] []) :=
      adopt_path rfl rfl clock (fun _ _ => trivial) fun _ _ _ _ => trivial
    exact (open_control _ clock).trans (adopted.persists.control rfl sound.control.ready)

/-- The answer of a refresh arrives at the instance. -/
theorem Sound.adopt (sound : σ.Sound boot) (clock : Clock) (order : List String) :
    (σ.step sha256 (.cluster (.adopt boot clock order))).Sound boot := by
  have now : (σ.step sha256 (.cluster (.adopt boot clock order))).inst boot =
      (σ.inst boot).adopt clock order := Function.update_self _ _ _
  have unchanged (same : (σ.inst boot).adopt clock order = σ.inst boot) :=
    @Sound.of_same σ boot sound _ (now.trans same) fun _ owns => owns
  unfold Instance.adopt at now unchanged
  split at now
  · rename_i began reading committed
    rw [committed] at unchanged
    have read : reading ∈ (σ.inst boot).refresh.reading := by
      rw [committed]
      rfl
    dsimp only at now unchanged
    split at now
    · rename_i started
      rw [if_pos started] at unchanged
      split at now
      · rename_i refreshing
        exact sound.again read started refreshing now rfl
      · rename_i other
        refine unchanged ?_
        split
        · rename_i refreshing
          exact absurd refreshing other
        · rfl
    · rename_i idle
      exact sound.opened read idle now rfl
  · rename_i other
    refine unchanged ?_
    split
    · rename_i began reading committed
      exact absurd committed (other began reading)
    · rfl

/-- What happens to another instance. -/
theorem Sound.other (sound : σ.Sound boot) {other : String} (different : other ≠ boot)
    (now : Instance) : Sound boot { σ with cluster := σ.cluster.set other now } :=
  sound.of_same (Function.update_of_ne different.symm _ _) fun _ owns => owns

/-- The loop does not fail: it waits for no refresh that has raised. -/
theorem Sound.fine (sound : σ.Sound boot) {event : Event}
    (works : ControlPlaneEvent.Works boot σ (.cluster (.turn boot event)))
    (sees : ControlPlaneEvent.Sees boot σ (.cluster (.turn boot event))) :
    ¬ (σ.inst boot).process.Fails event := by
  intro fails
  cases event with
  | direct | acquire | release | resume | interrupt | timer => exact fails
  | maintain clock notice =>
    have works := fun failed : notice = .failed => (failed ▸ works) rfl
    have sees := sees rfl
    cases notice with
    | ticked | refreshed | slots | proof | settled => exact fails
    | live held =>
      obtain ⟨active, waits, raises⟩ := fails
      rw [waits] at sees
      exact raises ((reconcileEach_spec held active _).1.mpr sees)
    | failed =>
      have works := works rfl
      cases on : (σ.inst boot).process.maintenance with
      | sleeping => exact fails on
      | refreshing =>
        rw [on] at works
        exact (sound.control.waits on).2 works
      | reconciling | settling =>
        rw [on] at works
        exact works
      | probing | proving =>
        rw [on] at sees
        exact sees

/-- Another turn of the instance. -/
theorem Sound.turn (sound : σ.Sound boot) {event : Event} (apart : event.apart)
    (works : ControlPlaneEvent.Works boot σ (.cluster (.turn boot event)))
    (sees : ControlPlaneEvent.Sees boot σ (.cluster (.turn boot event))) :
    Sound boot { σ with cluster := σ.cluster.set boot { σ.inst boot with
      process := (σ.inst boot).process.step event } } := by
  obtain ⟨calls, follows⟩ := Instance.step_follows sound.calls apart
  have persists := Process.step_persists sound.calls (sound.fine works sees)
  have now : (σ.cluster.set boot { σ.inst boot with
      process := (σ.inst boot).process.step event }).instances boot = { σ.inst boot with
        process := (σ.inst boot).process.step event } := Function.update_self _ _ _
  refine sound.set now rfl calls (fun id knows => ?_) (fun _ here => here)
    (fun on => ?_) (fun off => ?_) (fun on id found => ?_)
    ⟨persists.control rfl sound.control.ready, fun waiting => ?_⟩
  · exact sound.known id ((follows.pools id knows).resolve_right fun added =>
      Bool.false_ne_true added.1)
  · exact Or.inl (follows.started.symm.trans on)
  · exact follows.started.symm.trans off
  · obtain ⟨known, ready⟩ := sound.serves (follows.started.symm.trans on) id found
    exact ⟨persists.pools id known, step_keepsReady (P := (· ≠ none)) sound.calls apart
      (fun _ _ _ => Option.some_ne_none _) ready⟩
  · have before : (σ.inst boot).process.maintenance = .refreshing := by
      cases event with
      | maintain clock notice =>
        rcases maintain_awaits waiting with ⟨-, rfl⟩ | ⟨refreshing, -⟩
        · cases apart
        · exact refreshing
      | direct | acquire | release | resume | interrupt | timer =>
        exact (Process.step_maintenance (by rintro _ _ ⟨⟩)).symm.trans waiting
    obtain ⟨started, going⟩ := sound.control.waits before
    exact ⟨follows.started.trans started, going⟩

/-- A refresh begins. -/
theorem Sound.wake (sound : σ.Sound boot) (clock : Clock) :
    (σ.step sha256 (.cluster (.wake boot clock))).Sound boot := by
  show Sound boot { σ with cluster := σ.cluster.step (.wake boot clock) }
  simp only [Cluster.step]
  split
  · rename_i started
    split
    · rename_i sleeping
      have now : (σ.cluster.set boot { σ.inst boot with
          process := (σ.inst boot).process.step (.maintain clock .ticked)
          refresh := .running σ.cluster.now }).instances boot = { σ.inst boot with
            process := (σ.inst boot).process.step (.maintain clock .ticked)
            refresh := .running σ.cluster.now } := Function.update_self _ _ _
      -- the loop wakes up and changes nothing else
      have same : ((σ.inst boot).process.step (.maintain clock .ticked)).scheduler =
          (σ.inst boot).process.scheduler := by
        have asleep : (σ.inst boot).process.maintenance = .sleeping := sleeping
        simp only [Process.step, asleep]
        rfl
      refine sound.set now rfl sound.calls (fun id knows => ?_) (fun _ none => by cases none)
        (fun _ => Or.inl started) (fun off => ?_) (fun on id found => ?_)
        ⟨?_, fun _ => ⟨?_, by rintro ⟨⟩⟩⟩
      · unfold Instance.Knows at knows
        rw [same] at knows
        exact sound.known id knows
      · rw [same] at off
        exact off
      · unfold Instance.Serves Instance.Knows
        rw [same]
        exact sound.serves started id found
      · rw [same]
        exact sound.control.ready
      · rw [same]
        exact started
    · exact sound
  · rename_i idle
    have now : (σ.cluster.set boot { σ.inst boot with
        refresh := .running σ.cluster.now }).instances boot = { σ.inst boot with
          refresh := .running σ.cluster.now } := Function.update_self _ _ _
    refine sound.set now rfl sound.calls sound.known (fun _ none => by cases none)
      (fun on => absurd on idle) (fun off => off) (fun on => absurd on idle)
      ⟨sound.control.ready, fun waiting => ?_⟩
    exact ⟨(sound.control.waits waiting).1, by rintro ⟨⟩⟩

theorem Sound.clusterEvent (sound : σ.Sound boot) {event : ClusterEvent}
    (works : ControlPlaneEvent.Works boot σ (.cluster event))
    (sees : ControlPlaneEvent.Sees boot σ (.cluster event)) :
    (σ.step sha256 (.cluster event)).Sound boot := by
  cases event with
  | advance moment => exact sound.of_same rfl fun _ owns => owns
  | commit => exact sound
  | wake other clock =>
    rcases eq_or_ne other boot with rfl | different
    · exact sound.wake clock
    · show Sound boot { σ with cluster := σ.cluster.step (.wake other clock) }
      simp only [Cluster.step]
      split
      · split
        · exact sound.other different _
        · exact sound
      · exact sound.other different _
  | adopt other clock order =>
    rcases eq_or_ne other boot with rfl | different
    · exact sound.adopt clock order
    · exact sound.other different _
  | turn other event =>
    show Sound boot { σ with cluster := σ.cluster.step (.turn other event) }
    simp only [Cluster.step]
    split
    · rename_i apart
      rcases eq_or_ne other boot with rfl | different
      · exact sound.turn apart works sees
      · exact sound.other different _
    · exact sound

theorem Sound.step (sound : σ.Sound boot) {event : ControlPlaneEvent}
    (undisturbed : event.Undisturbed boot σ) : (σ.step sha256 event).Sound boot := by
  obtain ⟨spares, works, sees, familiar⟩ := undisturbed
  cases event with
  | ledger request =>
    refine sound.ledger (request.grouped sound.grouped) (fun id => request.pool_stays)
      fun claimed id found => ?_
    exact (request.pool_before found).elim (fun before => before)
      fun configures => familiar claimed id configures
  | commit other classes =>
    rcases eq_or_ne other boot with rfl | different
    · exact sound.commit classes
    · exact sound.commitOther different spares
  | cluster event => exact sound.clusterEvent works sees

/-! ### Pools that can be granted -/

/-- The transaction of a refresh does nothing to the process of a started instance. -/
theorem commit_started {inst : Instance} (started : inst.process.scheduler.started = true)
    (reading : Reading) (owners : Owners) :
    (inst.commit boot reading owners).2.process = inst.process := by
  unfold Instance.commit
  split
  · rename_i began running
    have same : (inst.marked boot began reading owners).process = inst.process :=
      congrArg Instance.process ((@marked_keeps boot inst began reading owners).2.2.2.2.2 started)
    dsimp only
    split
    · exact same
    · exact same
  · rfl

/-- The answer of a refresh is adopted by a loop that waits for it. -/
theorem adopt_started {inst : Instance} (started : inst.process.scheduler.started = true)
    (clock : Clock) (order : List String) :
    (inst.adopt clock order).process.scheduler = inst.process.scheduler ∨
      ∃ reading, (inst.adopt clock order).process.scheduler =
        refreshed clock inst.process.scheduler reading order := by
  unfold Instance.adopt
  split
  · rename_i began reading committed
    dsimp only
    rw [if_pos started]
    split
    · rename_i refreshing
      refine Or.inr ⟨reading, ?_⟩
      simp only [Process.step, refreshing]
      rfl
    · exact Or.inl rfl
  · exact Or.inl rfl

/-- What an event does to the scheduler of a started instance. -/
theorem step_started (started : (σ.inst boot).process.scheduler.started = true)
    (event : ControlPlaneEvent) :
    ((σ.step sha256 event).inst boot).process.scheduler = (σ.inst boot).process.scheduler ∨
      (∃ clock order reading, event = .cluster (.adopt boot clock order) ∧
        ((σ.step sha256 event).inst boot).process.scheduler =
          refreshed clock (σ.inst boot).process.scheduler reading order) ∨
      ∃ turn, event = .cluster (.turn boot turn) ∧ turn.apart = true ∧
        ((σ.step sha256 event).inst boot).process = (σ.inst boot).process.step turn := by
  have other {name : String} (different : name ≠ boot) (now : Instance) :
      (σ.cluster.set name now).instances boot = σ.inst boot :=
    Function.update_of_ne different.symm _ _
  have here (now : Instance) : (σ.cluster.set boot now).instances boot = now :=
    Function.update_self _ _ _
  cases event with
  | ledger => exact Or.inl rfl
  | commit name classes =>
    refine Or.inl ?_
    rcases eq_or_ne name boot with rfl | different
    · rw [commit_inst]
      exact congrArg Process.scheduler (commit_started started _ _)
    · exact congrArg (fun inst => inst.process.scheduler) (other different _)
  | cluster event =>
    cases event with
    | advance | commit => exact Or.inl rfl
    | wake name clock =>
      refine Or.inl ?_
      show ((σ.cluster.step (.wake name clock)).instances boot).process.scheduler = _
      simp only [Cluster.step]
      rcases eq_or_ne name boot with rfl | different
      · split
        · split
          · -- the loop wakes up and changes nothing else
            rename_i asleep
            have asleep : (σ.inst name).process.maintenance = .sleeping := asleep
            rw [here]
            simp only [Process.step]
            show (maintain clock (σ.inst name).process.scheduler
              (σ.inst name).process.maintenance .ticked).scheduler = _
            rw [asleep]
            rfl
          · rfl
        · rw [here]
          rfl
      · split
        · split
          · rw [other different]
          · rfl
        · rw [other different]
    | adopt name clock order =>
      rcases eq_or_ne name boot with rfl | different
      · have now : (σ.step sha256 (.cluster (.adopt name clock order))).inst name =
            (σ.inst name).adopt clock order := Function.update_self _ _ _
        rw [now]
        rcases adopt_started started clock order with same | ⟨reading, same⟩
        · exact Or.inl same
        · exact Or.inr (Or.inl ⟨clock, order, reading, rfl, same⟩)
      · exact Or.inl (congrArg (fun inst => inst.process.scheduler) (other different _))
    | turn name event =>
      show _ ∨ _ ∨ _
      by_cases apart : event.apart = true
      · rcases eq_or_ne name boot with rfl | different
        · refine Or.inr (Or.inr ⟨event, rfl, apart, ?_⟩)
          show ((σ.cluster.step (.turn name event)).instances name).process = _
          simp only [Cluster.step, if_pos apart]
          rw [here]
          rfl
        · refine Or.inl ?_
          show ((σ.cluster.step (.turn name event)).instances boot).process.scheduler = _
          simp only [Cluster.step, if_pos apart]
          rw [other different]
      · refine Or.inl ?_
        show ((σ.cluster.step (.turn name event)).instances boot).process.scheduler = _
        simp only [Cluster.step, if_neg apart]
        rfl

/-- The instance has started, the ledger has the pool, and a moment has reached its time. -/
structure Serving (boot poolId : String) (moment : Time) (σ : ControlPlane) : Prop where
  started : (σ.inst boot).process.scheduler.started = true
  present : σ.db.pools.find? poolId ≠ none
  ready : (σ.inst boot).process.scheduler.readyFor moment poolId = true

/-- No pool is taken out of the ledger. -/
theorem pool_stays {poolId : String} (present : σ.db.pools.find? poolId ≠ none)
    (event : ControlPlaneEvent) : (σ.step sha256 event).db.pools.find? poolId ≠ none := by
  cases event with
  | ledger request => exact request.pool_stays present
  | commit => exact present
  | cluster event =>
    show (if event.commits then σ else _ : ControlPlane).db.pools.find? poolId ≠ none
    split
    · exact present
    · exact present

/-- A step whose clock shows no later moment takes no pool away. -/
theorem Serving.step {poolId : String} {moment : Time} (serving : σ.Serving boot poolId moment)
    (sound : σ.Sound boot) {event : ControlPlaneEvent}
    (shows : ∀ clock ∈ event.clock boot, clock.monotonic ≤ moment) :
    (σ.step sha256 event).Serving boot poolId moment := by
  obtain ⟨started, present, ready⟩ := serving
  have present := @pool_stays sha256 σ poolId present event
  -- a time that is set anew is one that the clock has shown
  have sets {clock : Clock} (member : clock ∈ event.clock boot) :
      reached moment (some clock.monotonic) = true := decide_eq_true (shows clock member)
  rcases @step_started sha256 σ boot started event with same | ⟨clock, order, reading, rfl, now⟩ |
    ⟨turn, rfl, apart, now⟩
  · exact ⟨same ▸ started, present, same ▸ ready⟩
  · refine ⟨?_, present, ?_⟩
    · rw [now]
      exact (refreshed_started clock _ reading order).trans started
    · rw [now]
      exact (refreshed_ready clock _ reading order).2.2 (fun time => reached moment time = true)
        poolId (sets (if_pos rfl)) ready
  · obtain ⟨-, follows⟩ := Instance.step_follows sound.calls apart
    refine ⟨?_, present, ?_⟩
    · rw [now]
      exact follows.started.trans started
    · rw [now]
      refine step_keepsReady (P := fun time => reached moment time = true) sound.calls apart
        (fun clock notice same => sets ?_) ready
      subst same
      exact if_pos rfl

/-! ### Runs -/

/-- Nobody has started yet, and the instance is as it was built. -/
structure Begins (boot : String) (σ : ControlPlane) : Prop where
  fresh : σ.cluster.Fresh
  grouped : σ.db.Grouped
  ready : (σ.inst boot).process.scheduler.controlReady = true
  asleep : (σ.inst boot).process.maintenance = .sleeping

theorem Begins.sound (begins : σ.Begins boot) : σ.Sound boot := by
  obtain ⟨idle, pools, calls, refresh, -⟩ := begins.fresh boot
  have unclaimed : ¬ (σ.inst boot).Claimed := by
    rintro (started | claimed)
    · exact absurd (started.symm.trans idle) (by decide)
    · have none : (σ.inst boot).refresh.reading = none := congrArg Refresh.reading refresh
      rw [none] at claimed
      cases claimed
  have unread (reading : Reading) : reading ∉ (σ.inst boot).refresh.reading :=
    fun here => unclaimed (Or.inr (Option.isSome_iff_exists.mpr ⟨reading, here⟩))
  refine ⟨begins.grouped, fun id on found => ?_, fun id knows => ?_, ?_, ?_, ?_, ?_, ?_⟩
  · exact absurd ((congrFun calls id).symm.trans found) nofun
  · have unknown : (σ.inst boot).process.scheduler.pools = .empty := pools
    unfold Instance.Knows at knows
    rw [unknown] at knows
    exact absurd rfl knows
  · exact fun reading here => absurd here (unread reading)
  · exact fun _ reading here => absurd here (unread reading)
  · exact fun claimed => absurd claimed unclaimed
  · exact fun started => absurd (Or.inl started) unclaimed
  · exact ⟨begins.ready, fun waits => absurd (begins.asleep.symm.trans waits) nofun⟩

theorem Sound.after {events : List ControlPlaneEvent} (sound : σ.Sound boot)
    (undisturbed : Throughout sha256 (fun σ event => event.Undisturbed boot σ) σ events) :
    (σ.after sha256 events).Sound boot := by
  induction events generalizing σ with
  | nil => exact sound
  | cons event rest ih => exact ih (sound.step undisturbed.1) undisturbed.2

theorem Serving.after {events : List ControlPlaneEvent} {poolId : String} {moment : Time}
    (serving : σ.Serving boot poolId moment) (sound : σ.Sound boot)
    (undisturbed : Throughout sha256 (fun σ event => event.Undisturbed boot σ) σ events)
    (shows : ∀ event ∈ events, ∀ clock ∈ event.clock boot, clock.monotonic ≤ moment) :
    (σ.after sha256 events).Serving boot poolId moment := by
  induction events generalizing σ with
  | nil => exact serving
  | cons event rest ih =>
    have now : (σ.step sha256 event).Serving boot poolId moment :=
      serving.step sound (shows event List.mem_cons_self)
    exact ih now (sound.step undisturbed.1) undisturbed.2 fun later member =>
      shows later (List.mem_cons_of_mem event member)

theorem throughout_append {condition : ControlPlane → ControlPlaneEvent → Prop}
    {events later : List ControlPlaneEvent} :
    Throughout sha256 condition σ (events ++ later) ↔
      Throughout sha256 condition σ events ∧
        Throughout sha256 condition (σ.after sha256 events) later := by
  induction events generalizing σ with
  | nil => exact iff_of_eq (true_and _).symm
  | cons event rest ih => exact (and_congr_right fun _ => ih).trans and_assoc.symm

/-- A pool whose time has been reached can be granted. -/
theorem Sound.canGrant (sound : σ.Sound boot) {poolId : String} {moment : Time}
    (serving : σ.Serving boot poolId moment) : (σ.inst boot).CanGrant poolId moment :=
  ⟨serving.started, sound.control.ready, (sound.serves serving.started poolId serving.present).1,
    serving.ready⟩

/-- While nobody takes its rows over, no pool is added and the loop is not disturbed, every
refresh of a started instance succeeds, the instance has the control plane, every pool can be
granted from some time on, and a pool that can be granted can be granted at all later times. -/
theorem refreshes {events later : List ControlPlaneEvent} (begins : σ.Begins boot)
    (undisturbed : Throughout sha256 (fun σ event => event.Undisturbed boot σ) σ (events ++ later))
    (started : ((σ.after sha256 (events ++ later)).inst boot).process.scheduler.started = true) :
    let before := σ.after sha256 events
    let σ := σ.after sha256 (events ++ later)
    (∀ began classes, (σ.inst boot).refresh = .running began →
      ((σ.step sha256 (.commit boot classes)).inst boot).refresh =
        .committed began (readingOf σ.db classes)) ∧
      (σ.inst boot).process.scheduler.controlReady = true ∧
      (∀ poolId, σ.db.pools.find? poolId ≠ none → ∃ ready, ∀ moment ≥ ready,
        (σ.inst boot).CanGrant poolId moment) ∧
      ∀ poolId earlier moment, (before.inst boot).CanGrant poolId earlier → earlier ≤ moment →
        (∀ event ∈ later, ∀ clock ∈ event.clock boot, clock.monotonic ≤ moment) →
          (σ.inst boot).CanGrant poolId moment := by
  dsimp only
  have sound : (σ.after sha256 (events ++ later)).Sound boot := begins.sound.after undisturbed
  have together : σ.after sha256 (events ++ later) =
      (σ.after sha256 events).after sha256 later := List.foldl_append
  obtain ⟨first, second⟩ := throughout_append.mp undisturbed
  have before : (σ.after sha256 events).Sound boot := begins.sound.after first
  generalize σ.after sha256 events = start at before second together
  rw [together] at sound started ⊢
  refine ⟨fun began classes running => ?_, sound.control.ready, fun poolId found => ?_,
    fun poolId earlier moment can passed shows => ?_⟩
  · obtain ⟨owners, taken⟩ := sound.renews started began classes
    rw [commit_inst]
    rcases @commit_running boot _ _ running (readingOf (start.after sha256 later).db classes)
      (start.after sha256 later).cluster.owners with ⟨refused, -⟩ | ⟨owners', -, done⟩
    · exact absurd (taken.symm.trans refused) (Option.some_ne_none owners)
    · rw [done]
  · obtain ⟨-, ready⟩ := sound.serves started poolId found
    obtain ⟨ready, here⟩ := Option.ne_none_iff_exists'.mp ready
    refine ⟨ready, fun moment later => sound.canGrant ⟨started, found, ?_⟩⟩
    unfold MemoryScheduler.readyFor
    rw [here]
    exact decide_eq_true later
  · obtain ⟨running, -, known, ready⟩ := can
    have reaches : (start.inst boot).process.scheduler.readyFor moment poolId = true := by
      unfold MemoryScheduler.readyFor at ready ⊢
      cases time : (start.inst boot).process.scheduler.readyByPool poolId with
      | none =>
        rw [time] at ready
        cases ready
      | some time' =>
        rw [time] at ready
        exact decide_eq_true ((of_decide_eq_true ready).trans passed)
    have serving : start.Serving boot poolId moment :=
      ⟨running, before.known poolId known, reaches⟩
    exact sound.canGrant (serving.after before second shows)

end ControlPlane

/-! ### Sample runs -/

/-- A fresh cluster around a ledger without pools. -/
def samplePlane : ControlPlane where
  db := .empty {}
  cluster := sampleCluster

/-- An operator configures a pool. -/
def configures (poolId : String) : ControlPlaneEvent :=
  .ledger (.call (Ledger.Sample.env "") (.configurePool
    { Ledger.Sample.pool "e" with poolId } 4))

/-- A pool is configured, and an instance starts. -/
def startsWith : List ControlPlaneEvent :=
  [configures "p", .cluster (.wake "a" ⟨0, 0⟩), .commit "a" fun _ => none,
    .cluster (.adopt "a" ⟨0, 0⟩ [])]

/-- The maintenance loop of the instance begins a refresh. -/
def refreshesAgain : List ControlPlaneEvent := [.cluster (.wake "a" ⟨1, 1⟩)]

/-- The engine of the pool is replaced, and the loop begins a refresh. -/
def replaces : List ControlPlaneEvent :=
  .ledger (.call (Ledger.Sample.env "") (.configurePool (Ledger.Sample.pool "f") 4)) ::
    refreshesAgain

theorem samplePlane_begins : samplePlane.Begins "a" where
  fresh := sampleCluster_fresh
  grouped := Ledger.Db.empty_grouped _
  ready := rfl
  asleep := rfl

/-- The refresh succeeds, and the pool is granted as before. -/
theorem refreshes_sample :
    let σ := samplePlane.after Ledger.Sample.sha256 (startsWith ++ replaces)
    ((σ.step Ledger.Sample.sha256 (.commit "a" fun _ => none)).inst "a").refresh =
        .committed 0 (readingOf σ.db fun _ => none) ∧
      (configured σ.db).map Pool.epoch = ["f"] ∧
      (σ.inst "a").process.scheduler.controlReady = true ∧ (σ.inst "a").CanGrant "p" 1 := by
  have unclaimed : ¬ (samplePlane.inst "a").Claimed := by
    rintro (started | claimed)
    · cases started
    · cases claimed
  have known : (samplePlane.after Ledger.Sample.sha256 startsWith).db.pools.find? "p" ≠ none :=
    fun absent => absurd (congrArg Option.isNone absent) (by decide +kernel)
  have granted : ((samplePlane.after Ledger.Sample.sha256 startsWith).inst "a").CanGrant "p" 0 := by
    decide +kernel
  obtain ⟨succeeds, ready, -, kept⟩ := @ControlPlane.refreshes Ledger.Sample.sha256 samplePlane "a"
    startsWith replaces samplePlane_begins
    ⟨⟨trivial, trivial, trivial, fun claimed => absurd claimed unclaimed⟩,
      ⟨trivial, trivial, trivial, trivial⟩,
      ⟨fun other => absurd rfl other, trivial, trivial, trivial⟩,
      ⟨trivial, trivial, trivial, trivial⟩,
      ⟨trivial, trivial, trivial, fun _ poolId member => by
        obtain rfl : "p" = poolId := Option.some.inj (Option.mem_def.mp member)
        exact known⟩, ⟨trivial, trivial, trivial, trivial⟩, trivial⟩
    (by decide +kernel)
  refine ⟨succeeds 0 (fun _ => none) rfl, by decide +kernel, ready, ?_⟩
  exact kept "p" 0 1 granted (by decide) (by decide)

/-- A pool is added, and the next refresh raises. -/
def addsPool : List ControlPlaneEvent := startsWith ++ [configures "q"] ++ refreshesAgain ++
  [.commit "a" fun _ => none, .cluster (.turn "a" (.maintain ⟨2, 2⟩ .failed))]

/-- The instance has started and nobody takes its rows over, but no pool can be granted. -/
theorem refreshes_fails :
    samplePlane.Begins "a" ∧
      ControlPlane.Throughout Ledger.Sample.sha256 (fun σ event => event.Spares "a" σ)
        samplePlane addsPool ∧
      ControlPlane.Throughout Ledger.Sample.sha256 (fun σ event => event.Works "a" σ)
        samplePlane addsPool ∧
      let σ := samplePlane.after Ledger.Sample.sha256 addsPool
      (σ.inst "a").process.scheduler.started = true ∧ (σ.inst "a").refresh = .idle ∧
        (σ.inst "a").process.scheduler.controlReady = false ∧
        ∀ poolId moment, ¬ (σ.inst "a").CanGrant poolId moment := by
  have lost : ((samplePlane.after Ledger.Sample.sha256 addsPool).inst
      "a").process.scheduler.controlReady = false := by decide +kernel
  refine ⟨samplePlane_begins, ?_, ?_, by decide +kernel, rfl, lost, fun poolId moment can => ?_⟩
  · exact ⟨trivial, trivial, fun other => absurd rfl other, trivial, trivial, trivial,
      fun other => absurd rfl other, trivial, trivial⟩
  · exact ⟨trivial, trivial, trivial, trivial, trivial, trivial, trivial,
      fun _ => rfl, trivial⟩
  · exact absurd (can.2.1.symm.trans lost) (by decide)

end IntramindRuntime.Scheduling
