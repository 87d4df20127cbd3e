import IntramindRuntime.Library.Lease
import IntramindRuntime.Scheduling.Moves

/-!
# Who owns an endpoint

Every instance of the runtime API claims the endpoints when it starts, in rows of the
ledger that name its boot and expire, and renews them with each refresh. A grant asks
for none of this: it looks at the memory of the instance alone. An instance that stops
between two refreshes, for longer than its lease, goes on granting, also when another
instance has taken the rows over. As long as every ready instance is within the lease
of its last refresh, only one of them can grant.

## Main definitions

* `Instance`, `Cluster` — instances of the runtime API around one ledger
* `ClusterEvent`, `Cluster.step` — clocks advance, transactions begin and commit, instances run
* `Instance.CanGrant` — what a grant looks at
* `ClusterEvent.InTime` — no ready instance outlives the lease of its last refresh
* `Instance.Sound` — what an instance remembers of its leases is true

## Main results

* `Cluster.exclusive_owner` — in a run that is in time, two instances never both grant
* `exclusive_owner_fails` — an instance that stops is replaced, and then both can grant
-/

namespace IntramindRuntime.Scheduling

open Library Relation

/-- The rows of `runtime_owners` for the endpoints, by pool. -/
abbrev Owners := String → Option (Lease String)

/-- What the transaction of a refresh reads. -/
structure Reading where
  records : List Pool
  durable : List HydratedAttempt := []
  legacy : List LegacyAttempt := []

/-- The pools of a reading. -/
def Reading.poolIds (reading : Reading) : List String :=
  reading.records.map fun pool => pool.spec.poolId

/-- The transaction of the refresh of an instance. -/
inductive Refresh
  | idle
  /-- It runs; `now()` is the time when it began. -/
  | running (began : Time)
  /-- It has committed, and the answer is on its way. -/
  | committed (began : Time) (reading : Reading)

/-- When the transaction began. -/
def Refresh.began : Refresh → Option Time
  | .idle => none
  | .running began | .committed began _ => some began

/-- An instance of the runtime API. -/
structure Instance where
  /-- The lease of its store. -/
  lease : Time
  process : Process
  refresh : Refresh := .idle
  /-- Up to when its last successful refresh has written each row. The code does not keep
  these times. -/
  renewedUntil : String → Option Time := fun _ => none

/-- The instances, by boot generation, and the ledger. -/
structure Cluster where
  /-- The clock of the ledger. -/
  now : Time
  owners : Owners
  instances : String → Instance

namespace MemoryScheduler

/-- A pool whose former owner is another boot is dirty. -/
def mark (s : MemoryScheduler) (boot poolId : String) (row : Option (Lease String)) :
    MemoryScheduler :=
  match row with
  | some lease =>
    if lease.owner = boot then s
    else { s with
      dirtyPools := insert poolId s.dirtyPools
      oldOwnerExpires := Function.update s.oldOwnerExpires poolId (some lease.expires) }
  | none => s

/-- The marks of an initial refresh, up to the first pool that cannot be claimed. -/
def markEach (boot : String) (began until' : Time) :
    List String → Owners → MemoryScheduler → MemoryScheduler
  | [], _, s => s
  | poolId :: rest, owners, s =>
    let s := s.mark boot poolId (owners poolId)
    match Lease.claim boot began until' (owners poolId) with
    | none => s
    | some lease => markEach boot began until' rest (Function.update owners poolId (some lease)) s

end MemoryScheduler

namespace Instance

variable (inst : Instance)

/-- What a grant for a pool looks at, at a reading of `monotonic()`. -/
def CanGrant (poolId : String) (monotonic : Time) : Prop :=
  inst.process.scheduler.started = true ∧ inst.process.scheduler.controlReady = true ∧
    inst.process.scheduler.pools.find? poolId ≠ none ∧
    inst.process.scheduler.readyFor monotonic poolId = true

instance (poolId : String) (monotonic : Time) : Decidable (inst.CanGrant poolId monotonic) := by
  unfold CanGrant
  infer_instance

/-- The rows that an answer says are renewed. -/
def renewed (began : Time) (reading : Reading) : String → Option Time := fun poolId =>
  if poolId ∈ reading.poolIds then some (began + inst.lease) else inst.renewedUntil poolId

/-- An initial refresh marks the pools of other boots as it goes. -/
def marked (boot : String) (began : Time) (reading : Reading) (owners : Owners) : Instance :=
  let s := inst.process.scheduler
  if s.started then inst
  else { inst with process := { inst.process with
    scheduler := MemoryScheduler.markEach boot began (began + inst.lease) reading.poolIds owners s } }

/-- How the refresh takes a row: `start` claims it, the maintenance loop renews it. -/
def take (boot : String) (began : Time) : Option (Lease String) → Option (Lease String) :=
  if inst.process.scheduler.started then Lease.renew boot (began + inst.lease)
  else Lease.claim boot began (began + inst.lease)

/-- The transaction of a refresh commits, or raises because a pool belongs to another boot. -/
def commit (boot : String) (reading : Reading) (owners : Owners) : Owners × Instance :=
  match inst.refresh with
  | .running began =>
    let marked := inst.marked boot began reading owners
    match Lease.takeEach (inst.take boot began) reading.poolIds owners with
    | none => (owners, { marked with refresh := .idle })
    | some owners => (owners, { marked with refresh := .committed began reading })
  | _ => (owners, inst)

/-- The answer of a refresh arrives: `start` goes on, or the maintenance loop does. -/
def adopt (clock : Clock) (order : List String) : Instance :=
  match inst.refresh with
  | .committed began reading =>
    let s := inst.process.scheduler
    let done (process : Process) : Instance := { inst with
      process, refresh := .idle, renewedUntil := inst.renewed began reading }
    if s.started then
      match inst.process.maintenance with
      | .refreshing => done (inst.process.step (.maintain clock (.refreshed reading.records order)))
      | _ => inst
    else done { inst.process with
      scheduler := (s.adopt clock reading.records reading.durable reading.legacy).open clock }
  | _ => inst

end Instance

/-- What happens next. -/
inductive ClusterEvent
  /-- The clocks advance while nobody runs. -/
  | advance (moment : Time)
  /-- `start` is called, or the maintenance loop wakes up; a transaction begins. -/
  | wake (boot : String) (clock : Clock)
  | commit (boot : String) (reading : Reading)
  | adopt (boot : String) (clock : Clock) (order : List String)
  /-- Any other turn of an instance. -/
  | turn (boot : String) (event : Event)

/-- A turn that does not belong to a refresh. -/
def Event.apart : Event → Bool
  | .maintain _ .ticked | .maintain _ (.refreshed _ _) => false
  | _ => true

namespace Cluster

variable (σ : Cluster)

/-- Change one instance. -/
def set (boot : String) (inst : Instance) : Cluster :=
  { σ with instances := Function.update σ.instances boot inst }

/-- One step. What an instance cannot do changes nothing. -/
def step : ClusterEvent → Cluster
  | .advance moment => { σ with now := max σ.now moment }
  | .wake boot clock =>
    let inst := σ.instances boot
    if inst.process.scheduler.started then
      match inst.process.maintenance with
      | .sleeping => σ.set boot { inst with
          process := inst.process.step (.maintain clock .ticked)
          refresh := .running σ.now }
      | _ => σ
    else σ.set boot { inst with refresh := .running σ.now }
  | .commit boot reading =>
    let (owners, inst) := (σ.instances boot).commit boot reading σ.owners
    { σ.set boot inst with owners }
  | .adopt boot clock order => σ.set boot ((σ.instances boot).adopt clock order)
  | .turn boot event =>
    let inst := σ.instances boot
    if event.apart then σ.set boot { inst with process := inst.process.step event } else σ

/-- Any sequence of steps. -/
def after (events : List ClusterEvent) : Cluster := events.foldl step σ

/-- No instance has started yet. -/
def Fresh : Prop := ∀ boot,
  (σ.instances boot).process.scheduler.started = false ∧
  (σ.instances boot).process.scheduler.pools = .empty ∧
  (σ.instances boot).process.calls = (fun _ => none) ∧
  (σ.instances boot).refresh = .idle ∧
  (σ.instances boot).renewedUntil = fun _ => none

end Cluster

/-- A ready instance is within its leases at a time, for these pools. -/
def Instance.Within (pools : String → Prop) (renewedUntil : String → Option Time) (now : Time) :
    Prop :=
  ∀ poolId, pools poolId → ∃ until', renewedUntil poolId = some until' ∧ now < until'

namespace Instance

/-- The pools that the instance knows. -/
def Knows (inst : Instance) (poolId : String) : Prop :=
  inst.process.scheduler.pools.find? poolId ≠ none

/-- The instance has started and believes that it has the control plane. -/
def Ready (inst : Instance) : Prop :=
  inst.process.scheduler.started = true ∧ inst.process.scheduler.controlReady = true

end Instance

/-- The clocks do not pass the leases of a ready instance, and an answer arrives before
the leases that it reports end. -/
def ClusterEvent.InTime (σ : Cluster) : ClusterEvent → Prop
  | .advance moment => ∀ boot, (σ.instances boot).Ready →
      Instance.Within (σ.instances boot).Knows (σ.instances boot).renewedUntil (max σ.now moment)
  | .adopt boot _ _ => ∀ began reading, (σ.instances boot).refresh = .committed began reading →
      Instance.Within (fun poolId => (σ.instances boot).Knows poolId ∨ poolId ∈ reading.poolIds)
        ((σ.instances boot).renewed began reading) σ.now
  | _ => True

/-- Every step of a run is in time. -/
def Cluster.InTime : Cluster → List ClusterEvent → Prop
  | _, [] => True
  | σ, event :: events => event.InTime σ ∧ Cluster.InTime (σ.step event) events

/-! ### What turns leave alone -/

section Turns

variable {s s' : MemoryScheduler}

@[simp] theorem removeWaiter_started (identity : String) :
    (s.removeWaiter identity).started = s.started := by
  unfold MemoryScheduler.removeWaiter
  split <;> rfl

@[simp] theorem removeWaiter_controlReady (identity : String) :
    (s.removeWaiter identity).controlReady = s.controlReady := by
  unfold MemoryScheduler.removeWaiter
  split <;> rfl

/-- The pools and the readiness after moves: only a refresh adds pools or makes ready. -/
structure Follows (scope : Scope) (s s' : MemoryScheduler) : Prop where
  started : s'.started = s.started
  pools : ∀ poolId, s'.pools.find? poolId ≠ none → s.pools.find? poolId ≠ none ∨
    (scope.refreshing = true ∧ ∃ pool, scope.known pool ∧ pool.spec.poolId = poolId)
  ready : s'.controlReady = true → s.controlReady = true ∨ scope.refreshing = true

theorem Follows.of_same {scope : Scope} (started : s'.started = s.started)
    (pools : s'.pools = s.pools) (ready : s'.controlReady = s.controlReady) :
    Follows scope s s' :=
  ⟨started, fun _ found => Or.inl (pools ▸ found), fun on => Or.inl (ready ▸ on)⟩

theorem Move.follows {scope : Scope} (move : Move scope s s') : Follows scope s s' := by
  cases move with
  | quiet same =>
    exact ⟨same.started, fun _ found => Or.inl (same.pools ▸ found),
      fun on => Or.inl (same.controlReady on)⟩
  | withdraw identity =>
    exact .of_same (removeWaiter_started _) (removeWaiter_pools _ _) (removeWaiter_controlReady _)
  | grant reservation new waits found room =>
    exact .of_same (removeWaiter_started _) (removeWaiter_pools _ _) (removeWaiter_controlReady _)
  | grantDurable call allowed asked fits named room =>
    exact .of_same (removeWaiter_started _) (removeWaiter_pools _ _) (removeWaiter_controlReady _)
  | adopt pool allowed fits =>
    refine ⟨rfl, fun poolId found => ?_, fun on => Or.inl on⟩
    rw [Table.find?_put] at found
    split at found
    · rename_i same
      exact Or.inr ⟨allowed, pool, fits, same⟩
    · exact Or.inl found
  | regain allowed =>
    exact ⟨rfl, fun _ found => Or.inl found, fun _ => Or.inr allowed⟩
  | prune | forget | disown | progress | conclude | observe | drop | weigh | wait =>
    exact .of_same rfl rfl rfl

theorem Path.follows {scope : Scope} (path : Path scope s s') : Follows scope s s' := by
  induction path with
  | refl => exact .of_same rfl rfl rfl
  | tail _ move ih =>
    obtain ⟨started, pools, ready⟩ := move.follows
    refine ⟨started.trans ih.started, fun poolId found => ?_, fun on => ?_⟩
    · exact (pools poolId found).elim (ih.pools poolId) Or.inr
    · exact (ready on).elim ih.ready Or.inr

end Turns

/-! ### Instances -/

namespace Instance

/-- What an instance remembers of its leases is true, and while it is ready it is within
the leases of all its pools. -/
structure Sound (owners : Owners) (now : Time) (boot : String) (inst : Instance) : Prop where
  calls : inst.process.CallsKnow { refreshing := false }
  holds : ∀ poolId until', inst.renewedUntil poolId = some until' →
    Lease.Holds (owners poolId) boot until' now
  bounded : ∀ poolId until', inst.renewedUntil poolId = some until' → until' ≤ now + inst.lease
  begun : ∀ began ∈ inst.refresh.began, began ≤ now ∧
    ∀ poolId until', inst.renewedUntil poolId = some until' → until' ≤ began + inst.lease
  committed : ∀ began reading, inst.refresh = .committed began reading →
    ∀ poolId ∈ reading.poolIds, Lease.Holds (owners poolId) boot (began + inst.lease) now
  ready : inst.Ready → Within inst.Knows inst.renewedUntil now

variable {owners owners' : Owners} {now : Time} {boot : String} {inst : Instance}

/-- Time passes, but not past the leases of a ready instance. -/
theorem Sound.later (sound : inst.Sound owners now boot) {later : Time} (passed : now ≤ later)
    (inTime : inst.Ready → Within inst.Knows inst.renewedUntil later) :
    inst.Sound owners later boot where
  calls := sound.calls
  holds := fun poolId until' found => (sound.holds poolId until' found).later passed
  bounded := by
    intro poolId until' found
    exact Int.le_trans (sound.bounded poolId until' found) (Int.add_le_add_right passed _)
  begun := fun began here =>
    ⟨(sound.begun began here).1.trans passed, (sound.begun began here).2⟩
  committed := fun began reading here poolId member =>
    (sound.committed began reading here poolId member).later passed
  ready := inTime

/-- The transaction of another instance leaves it sound. -/
theorem Sound.of_other (sound : inst.Sound owners now boot) {other : String}
    (different : other ≠ boot) {began until' : Time} (past : began ≤ now)
    (taken : ∀ poolId, Lease.Taken (owners poolId) (owners' poolId) other began until') :
    inst.Sound owners' now boot where
  calls := sound.calls
  holds := fun poolId until'' found =>
    (sound.holds poolId until'' found).of_taken (taken poolId) different past
  bounded := sound.bounded
  begun := sound.begun
  committed := fun began' reading here poolId member =>
    (sound.committed began' reading here poolId member).of_taken (taken poolId) different past
  ready := sound.ready

/-- Another process that knows no more pools and is not ready before. -/
theorem Sound.with_process (sound : inst.Sound owners now boot) {process : Process}
    (calls : process.CallsKnow { refreshing := false })
    (ready : ({ inst with process } : Instance).Ready →
      inst.Ready ∧ ∀ poolId, ({ inst with process } : Instance).Knows poolId → inst.Knows poolId) :
    ({ inst with process } : Instance).Sound owners now boot where
  calls := calls
  holds := sound.holds
  bounded := sound.bounded
  begun := sound.begun
  committed := sound.committed
  ready := fun on poolId known => sound.ready (ready on).1 poolId ((ready on).2 poolId known)

/-- A turn that is not part of a refresh reads no pools, and makes nobody ready. -/
theorem step_follows {p : Process} (calls : p.CallsKnow { refreshing := false }) {event : Event}
    (apart : event.apart) : (p.step event).CallsKnow { refreshing := false } ∧
      Follows { refreshing := false } p.scheduler (p.step event).scheduler := by
  have inScope : p.InScope { refreshing := false } event := by
    cases event with
    | direct _ _ call =>
      exact ⟨rfl, call.fits_of_free trivial (fun _ => trivial) fun _ => trivial⟩
    | resume clock id answer => exact fun on _ => Scope.hears_of_gone (fun _ => trivial) on answer
    | maintain clock notice =>
      refine ⟨rfl, Scope.heeds_of_gone (fun _ => trivial) (fun _ => trivial) _
        fun records order same => ?_, Scope.readies rfl rfl notice, fun _ _ => trivial⟩
      subst same
      cases apart
    | _ => trivial
  obtain ⟨s, joined, path, calls⟩ :=
    Process.step_turns rfl rfl rfl (fun _ _ _ => trivial) calls inScope
  refine ⟨calls, ?_⟩
  rcases joined with rfl | ⟨clock, uuid, call, request, poolId, ownerId, -, -, -, -, rfl⟩
  · exact path.follows
  · exact ⟨path.follows.started, path.follows.pools, path.follows.ready⟩

/-- A turn of the process that is not part of a refresh. -/
theorem Sound.turn (sound : inst.Sound owners now boot) {event : Event} (apart : event.apart) :
    ({ inst with process := inst.process.step event } : Instance).Sound owners now boot := by
  obtain ⟨calls, follows⟩ := step_follows sound.calls apart
  refine sound.with_process calls fun on => ⟨⟨follows.started ▸ on.1, ?_⟩, fun poolId known => ?_⟩
  · exact (follows.ready on.2).resolve_right Bool.false_ne_true
  · exact (follows.pools poolId known).resolve_right fun added => Bool.false_ne_true added.1

theorem mark_same (s : MemoryScheduler) (poolId : String) (row : Option (Lease String)) :
    (s.mark boot poolId row).pools = s.pools ∧ (s.mark boot poolId row).started = s.started ∧
      (s.mark boot poolId row).controlReady = s.controlReady := by
  unfold MemoryScheduler.mark
  split
  · split <;> exact ⟨rfl, rfl, rfl⟩
  · exact ⟨rfl, rfl, rfl⟩

theorem markEach_same (began until' : Time) (poolIds : List String) (s : MemoryScheduler) :
    let marked := MemoryScheduler.markEach boot began until' poolIds owners s
    marked.pools = s.pools ∧ marked.started = s.started ∧ marked.controlReady = s.controlReady := by
  induction poolIds generalizing owners s with
  | nil => exact ⟨rfl, rfl, rfl⟩
  | cons poolId rest ih =>
    obtain ⟨pools, started, on⟩ := @mark_same boot s poolId (owners poolId)
    unfold MemoryScheduler.markEach
    dsimp only
    split
    · exact ⟨pools, started, on⟩
    · rename_i lease _
      obtain ⟨pools', started', on'⟩ :=
        @ih (Function.update owners poolId (some lease)) (s.mark boot poolId (owners poolId))
      exact ⟨pools'.trans pools, started'.trans started, on'.trans on⟩

/-- The marks of an initial refresh change nothing that is known of the leases. -/
theorem Sound.marked (sound : inst.Sound owners now boot) (began : Time) (reading : Reading)
    (rows : Owners) : (inst.marked boot began reading rows).Sound owners now boot := by
  unfold Instance.marked
  dsimp only
  split
  · exact sound
  · obtain ⟨pools, started, on⟩ := @markEach_same rows boot began (began + inst.lease)
      reading.poolIds inst.process.scheduler
    refine sound.with_process sound.calls fun ready => ⟨⟨?_, ?_⟩, fun poolId known => ?_⟩
    · rw [← started]
      exact ready.1
    · rw [← on]
      exact ready.2
    · unfold Knows at known ⊢
      rw [← pools]
      exact known

theorem marked_same (began : Time) (reading : Reading) (rows : Owners) :
    (inst.marked boot began reading rows).lease = inst.lease ∧
      (inst.marked boot began reading rows).renewedUntil = inst.renewedUntil := by
  unfold Instance.marked
  dsimp only
  split <;> exact ⟨rfl, rfl⟩

/-- A refresh that is over, or has failed. -/
theorem Sound.idle (sound : inst.Sound owners now boot) :
    ({ inst with refresh := .idle } : Instance).Sound owners now boot :=
  { sound with
    begun := fun _ here => by cases here
    committed := fun _ _ here => by cases here }

/-- A transaction that has taken its rows for the instance. -/
theorem Sound.taken (sound : inst.Sound owners now boot) {began : Time} {reading : Reading}
    (past : began ≤ now)
    (bound : ∀ poolId until', inst.renewedUntil poolId = some until' → until' ≤ began + inst.lease)
    (taken : ∀ poolId, Lease.Taken (owners poolId) (owners' poolId) boot began
      (began + inst.lease))
    (all : ∀ poolId ∈ reading.poolIds, owners' poolId = some ⟨boot, began + inst.lease⟩) :
    ({ inst with refresh := .committed began reading } : Instance).Sound owners' now boot where
  calls := sound.calls
  holds := fun poolId until' found =>
    (sound.holds poolId until' found).of_taken_self (taken poolId) (bound poolId until' found)
  bounded := sound.bounded
  begun := fun began' here => by
    obtain rfl := Option.some.inj (Option.mem_def.mp here)
    exact ⟨past, bound⟩
  committed := fun began' reading' here poolId member => by
    obtain ⟨rfl, rfl⟩ := Refresh.committed.inj here
    rw [all poolId member]
    exact Lease.holds_self
  ready := sound.ready

theorem take_writes (began : Time) :
    Lease.Writes (inst.take boot began) boot began (began + inst.lease) := by
  unfold take
  split
  · exact Lease.renew_writes boot began _
  · exact Lease.claim_writes boot began _

/-- The transaction of an instance takes all of its rows for it, or none. -/
theorem Sound.commit (sound : inst.Sound owners now boot) (reading : Reading) :
    (inst.commit boot reading owners).2.Sound (inst.commit boot reading owners).1 now boot ∧
      ∃ began ≤ now, ∃ until', ∀ poolId,
        Lease.Taken (owners poolId) ((inst.commit boot reading owners).1 poolId) boot began
          until' := by
  unfold Instance.commit
  split
  · rename_i began running
    obtain ⟨past, bound⟩ := sound.begun began (by rw [running]; rfl)
    have marked := sound.marked began reading owners
    obtain ⟨lease, renewed⟩ := @marked_same boot inst began reading owners
    dsimp only
    split
    · exact ⟨marked.idle, now, le_rfl, now, fun poolId => Or.inl rfl⟩
    · rename_i owners' done
      obtain ⟨taken, all⟩ := Lease.takeEach_taken (take_writes began) done
      refine ⟨marked.taken past ?_ ?_ ?_, began, past, _, taken⟩
      · rw [renewed, lease]
        exact bound
      · rw [lease]
        exact taken
      · rw [lease]
        exact all
  · exact ⟨sound, now, le_rfl, now, fun poolId => Or.inl rfl⟩

theorem renewed_cases {began : Time} {reading : Reading} {poolId : String} {until' : Time}
    (found : inst.renewed began reading poolId = some until') :
    (poolId ∈ reading.poolIds ∧ until' = began + inst.lease) ∨
      inst.renewedUntil poolId = some until' := by
  unfold Instance.renewed at found
  split at found
  · rename_i member
    exact Or.inl ⟨member, (Option.some.inj found).symm⟩
  · exact Or.inr found

/-- The rows that an answer reports are remembered. -/
theorem Sound.renewed (sound : inst.Sound owners now boot) {began : Time} {reading : Reading}
    (here : inst.refresh = .committed began reading) {process : Process}
    (calls : process.CallsKnow { refreshing := false })
    (known : ∀ poolId, process.scheduler.pools.find? poolId ≠ none →
      inst.Knows poolId ∨ poolId ∈ reading.poolIds)
    (inTime : Within (fun poolId => inst.Knows poolId ∨ poolId ∈ reading.poolIds)
      (inst.renewed began reading) now) :
    ({ inst with process, refresh := .idle, renewedUntil := inst.renewed began reading } :
      Instance).Sound owners now boot where
  calls := calls
  holds := fun poolId until' found => by
    rcases renewed_cases found with ⟨member, rfl⟩ | old
    · exact sound.committed began reading here poolId member
    · exact sound.holds poolId until' old
  bounded := fun poolId until' found => by
    rcases renewed_cases found with ⟨-, rfl⟩ | old
    · have past := (sound.begun began (by rw [here]; rfl)).1
      exact Int.add_le_add_right past _
    · exact sound.bounded poolId until' old
  begun := fun _ none => by cases none
  committed := fun _ _ none => by cases none
  ready := fun _ poolId here => inTime poolId (known poolId here)

/-- A refresh knows the pools it has read, next to the ones before. -/
theorem pools_of_path {s s' : MemoryScheduler} {reading : Reading} {poolId : String}
    (path : Path { known := fun pool => pool.spec.poolId ∈ reading.poolIds } s s')
    (found : s'.pools.find? poolId ≠ none) :
    s.pools.find? poolId ≠ none ∨ poolId ∈ reading.poolIds := by
  rcases path.follows.pools poolId found with before | ⟨-, pool, read, rfl⟩
  · exact Or.inl before
  · exact Or.inr read

theorem mem_poolIds {reading : Reading} :
    ∀ pool ∈ reading.records, pool.spec.poolId ∈ reading.poolIds :=
  fun pool member => List.mem_map.mpr ⟨pool, member, rfl⟩

theorem schedule_pools (clock : Clock) (pools : List Pool) (s : MemoryScheduler) :
    (pools.foldl (fun s pool => s.schedule clock pool.spec.poolId) s).pools = s.pools := by
  induction pools generalizing s with
  | nil => rfl
  | cons pool rest ih =>
    refine (ih _).trans ?_
    dsimp only
    unfold MemoryScheduler.schedule
    split <;> rfl

/-- The pools after `start`. -/
theorem open_pools (s : MemoryScheduler) (clock : Clock) : (s.open clock).pools = s.pools := by
  unfold MemoryScheduler.open MemoryScheduler.expireDirty
  exact schedule_pools clock s.pools.rows s

theorem Sound.adopt (sound : inst.Sound owners now boot) (clock : Clock) (order : List String)
    (inTime : ∀ began reading, inst.refresh = .committed began reading →
      Within (fun poolId => inst.Knows poolId ∨ poolId ∈ reading.poolIds)
        (inst.renewed began reading) now) :
    (inst.adopt clock order).Sound owners now boot := by
  unfold Instance.adopt
  split
  · rename_i began reading here
    dsimp only
    split
    · split
      · rename_i refreshing
        refine sound.renewed here sound.calls (fun poolId found => ?_) (inTime began reading here)
        have heard : Scope.Heeds { known := fun pool => pool.spec.poolId ∈ reading.poolIds }
            .refreshing (.refreshed reading.records order) := ⟨rfl, mem_poolIds⟩
        simp only [Process.step, refreshing] at found
        exact pools_of_path (maintain_path rfl rfl clock .refreshing heard rfl fun _ _ => trivial)
          found
      · exact sound
    · refine sound.renewed here sound.calls (fun poolId found => ?_) (inTime began reading here)
      rw [open_pools] at found
      exact pools_of_path (adopt_path rfl rfl clock mem_poolIds fun _ _ _ _ => trivial) found
  · exact sound

end Instance

/-! ### Clusters -/

namespace Cluster

variable {σ : Cluster}

/-- Every instance is sound. -/
def Sound (σ : Cluster) : Prop := ∀ boot, (σ.instances boot).Sound σ.owners σ.now boot

theorem Fresh.sound (fresh : σ.Fresh) : σ.Sound := by
  intro boot
  obtain ⟨started, pools, calls, refresh, renewed⟩ := fresh boot
  refine ⟨fun id on found => ?_, fun poolId until' found => ?_, fun poolId until' found => ?_,
    fun began here => ?_, fun began reading here => ?_, fun ready => ?_⟩
  · rw [calls] at found
    cases found
  · rw [renewed] at found
    cases found
  · rw [renewed] at found
    cases found
  · rw [refresh] at here
    cases here
  · rw [refresh] at here
    cases here
  · rw [Instance.Ready, started] at ready
    cases ready.1

/-- One instance takes a turn that leaves the rows alone. -/
theorem Sound.set (sound : σ.Sound) {boot : String} {inst : Instance}
    (own : inst.Sound σ.owners σ.now boot) : (σ.set boot inst).Sound := by
  intro other
  unfold Cluster.set
  rcases eq_or_ne other boot with rfl | different
  · simp only [Function.update_self]
    exact own
  · simp only [Function.update_of_ne different]
    exact sound other

theorem Sound.step (sound : σ.Sound) {event : ClusterEvent} (inTime : event.InTime σ) :
    (σ.step event).Sound := by
  cases event with
  | advance moment =>
    exact fun boot => (sound boot).later (le_max_left _ _) fun ready => inTime boot ready
  | wake boot clock =>
    have begun (process : Process) (own : ({ σ.instances boot with process } : Instance).Sound
        σ.owners σ.now boot) : ({ σ.instances boot with process, refresh := .running σ.now } :
          Instance).Sound σ.owners σ.now boot :=
      { own with
        begun := fun began here => by
          obtain rfl := Option.some.inj (Option.mem_def.mp here)
          exact ⟨le_rfl, own.bounded⟩
        committed := fun _ _ none => by cases none }
    simp only [Cluster.step]
    split
    · split
      · rename_i sleeping
        -- the loop wakes up and changes nothing else
        have same : ((σ.instances boot).process.step (.maintain clock .ticked)).scheduler =
            (σ.instances boot).process.scheduler := by
          simp only [Process.step, sleeping]
          rfl
        refine sound.set (begun _ ((sound boot).with_process (sound boot).calls ?_))
        intro ready
        unfold Instance.Ready at ready
        unfold Instance.Ready Instance.Knows
        rw [same] at ready ⊢
        exact ⟨ready, fun _ known => known⟩
      · exact sound
    · exact sound.set (begun _ (sound boot))
  | commit boot reading =>
    obtain ⟨own, began, past, until', taken⟩ := (sound boot).commit reading
    intro other
    simp only [Cluster.step, Cluster.set]
    rcases eq_or_ne other boot with rfl | different
    · simp only [Function.update_self]
      exact own
    · simp only [Function.update_of_ne different]
      exact (sound other).of_other different.symm past taken
  | adopt boot clock order => exact sound.set ((sound boot).adopt clock order inTime)
  | turn boot event =>
    simp only [Cluster.step]
    split
    · rename_i apart
      exact sound.set ((sound boot).turn apart)
    · exact sound

theorem Sound.after {events : List ClusterEvent} (sound : σ.Sound) (inTime : σ.InTime events) :
    (σ.after events).Sound := by
  induction events generalizing σ with
  | nil => exact sound
  | cons event rest ih => exact ih (sound.step inTime.1) inTime.2

/-- While every ready instance is within the lease of its last refresh, no two instances
can grant a permit for one pool, at whatever readings of their clocks. -/
theorem exclusive_owner {events : List ClusterEvent} (fresh : σ.Fresh) (inTime : σ.InTime events)
    {a b poolId : String} {moment moment' : Time}
    (first : ((σ.after events).instances a).CanGrant poolId moment)
    (second : ((σ.after events).instances b).CanGrant poolId moment') : a = b := by
  have sound : (σ.after events).Sound := fresh.sound.after inTime
  obtain ⟨started, on, known, -⟩ := first
  obtain ⟨started', on', known', -⟩ := second
  obtain ⟨until', found, early⟩ := (sound a).ready ⟨started, on⟩ poolId known
  obtain ⟨until'', found', early'⟩ := (sound b).ready ⟨started', on'⟩ poolId known'
  exact ((sound a).holds poolId until' found).unique ((sound b).holds poolId until'' found')
    early early'

end Cluster

/-! ### Sample clusters -/

/-- Instances with a lease of half a minute, in front of an empty ledger. -/
def sampleCluster : Cluster where
  now := 0
  owners := fun _ => none
  instances := fun boot =>
    { lease := 30000000
      process := { scheduler := { settings := { lease := 30000000 }, bootGeneration := boot } } }

/-- An instance starts at a time. -/
def startsAt (boot : String) (moment : Time) : List ClusterEvent :=
  [.advance moment, .wake boot ⟨moment, moment⟩, .commit boot { records := [samplePool] },
    .adopt boot ⟨moment, moment⟩ []]

theorem sampleCluster_fresh : sampleCluster.Fresh := fun _ => ⟨rfl, rfl, rfl, rfl, rfl⟩

/-- Nobody is ready before the answer of the first refresh, which arrives at once. -/
theorem startsAt_inTime : sampleCluster.InTime (startsAt "a" 0) := by
  have idle : ClusterEvent.InTime sampleCluster (.advance 0) := fun boot ready => by
    cases ready.1
  refine ⟨idle, trivial, trivial, ?_, trivial⟩
  intro began reading here poolId known
  obtain ⟨rfl, rfl⟩ := Refresh.committed.inj here
  rcases known with before | read
  · exact absurd rfl before
  · exact ⟨30000000, if_pos read, by decide⟩

/-- A second instance starts ten seconds before the lease of the first one ends. -/
def refused : List ClusterEvent := startsAt "a" 0 ++ startsAt "b" 20000000

/-- Only the first instance is ready when the second one starts, and its lease goes on. The
refresh of the second one does not commit. -/
theorem refused_inTime : sampleCluster.InTime refused := by
  obtain ⟨idle, woken, committed, adopted, -⟩ := startsAt_inTime
  refine ⟨idle, woken, committed, adopted, fun boot ready poolId known => ?_, trivial, trivial, ?_,
    trivial⟩
  · by_cases first : boot = "a"
    · subst first
      obtain ⟨pool, found⟩ := Option.ne_none_iff_exists'.mp known
      have pools : ((sampleCluster.after (startsAt "a" 0)).instances
          "a").process.scheduler.pools.rows.all fun pool => pool.spec.poolId = "p" := by
        decide +kernel
      have listed := of_decide_eq_true (List.all_eq_true.mp pools pool (Table.mem_of_find? found))
      obtain rfl : poolId = "p" := (Table.key_of_find? found).symm.trans listed
      refine ⟨30000000, ?_, by decide +kernel⟩
      decide +kernel
    · -- the second instance has not started
      have same : (sampleCluster.after (startsAt "a" 0)).instances boot =
          sampleCluster.instances boot := by
        simp [startsAt, Cluster.after, Cluster.step, Cluster.set, sampleCluster, first]
      have started : ((sampleCluster.after (startsAt "a" 0)).instances
          boot).process.scheduler.started = true := ready.1
      rw [same] at started
      cases started
  · intro began reading here
    cases here

/-- The instance that comes too early is refused, and the first one can go on granting. -/
theorem exclusive_owner_sample :
    ((sampleCluster.after refused).instances "a").CanGrant "p" 20000000 ∧
      ((sampleCluster.after refused).instances "b").process.scheduler.dirtyPools = {"p"} ∧
      ∀ b, ((sampleCluster.after refused).instances b).CanGrant "p" 20000000 → "a" = b := by
  have granted : ((sampleCluster.after refused).instances "a").CanGrant "p" 20000000 := by
    decide +kernel
  exact ⟨granted, by decide +kernel,
    fun b => Cluster.exclusive_owner sampleCluster_fresh refused_inTime granted⟩

/-- An instance stops for half an hour and a minute. -/
def stopped : List ClusterEvent := startsAt "a" 0 ++ startsAt "b" 31000000 ++ [.advance 1860000000]

/-- Both instances can grant permits for the pool. -/
theorem exclusive_owner_fails :
    sampleCluster.Fresh ∧
      ((sampleCluster.after stopped).instances "a").CanGrant "p" 1860000000 ∧
      ((sampleCluster.after stopped).instances "b").CanGrant "p" 1860000000 :=
  ⟨sampleCluster_fresh, by decide +kernel, by decide +kernel⟩

end IntramindRuntime.Scheduling
