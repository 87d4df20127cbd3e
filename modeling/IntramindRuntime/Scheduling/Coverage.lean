import IntramindRuntime.Ledger.SentAttempts
import IntramindRuntime.Scheduling.Ownership

/-!
# Sends are covered by permits

An executor asks the runtime API for a permit, marks its attempt as sent in the ledger,
asks the runtime API once more whether the permit is there, and only then sends. The
permits are lost when the runtime API crashes; its successor reads from the ledger which
attempts hold compute. This file composes executors, the ledger and the runtime API, and
shows that no crash comes between a send and its permit.

## Main definitions

* `Tick`, `Deployment` — the ticks of executors, around one ledger and one runtime API
* `Deployment.step`, `Deployment.after` — any sequence of steps of all parties
* `Covering` — the permits that a scheduler has, and those it must have
* `Deployment.Sound` — the invariant

## Main results

* `Move.covering` — moves keep the permits of attempts that hold compute
* `Deployment.step_sound` — every step keeps the invariant
* `Deployment.durable_send_covered` — what an executor sends is covered, then and later
-/

namespace IntramindRuntime.Scheduling

open Library Relation
open Ledger (Db Env Reply Request)

/-! ### What the runtime API reads -/

/-- An attempt as `start` reads it. -/
def HydratedAttempt.ofRow (a : Ledger.AttemptRow) (root : Ledger.RootRow) : HydratedAttempt where
  attemptId := a.attemptId
  poolId := a.poolId
  ownerId := a.ownerId
  engineEpoch := a.engineEpoch
  state := a.state
  priority := root.priority

/-- The attempts that hold compute. -/
def hydrated (d : Db) : List HydratedAttempt :=
  (d.attempts.rows.filter fun a => a.computeHeld &&
    (a.state = .sendIntent || a.state = .active || a.state = .unknown)).filterMap fun a =>
      (d.join a).map fun joined => .ofRow a joined.root

/-- The direct attempts of the release before that hold compute. The workload classes are
in a part of the rows that the model of the ledger leaves out. -/
def legacy (d : Db) (classes : String → Option WorkloadClass) : List LegacyAttempt :=
  (d.directAttempts.rows.filter fun a =>
    a.computeHeld && (a.state = .sendIntent || a.state = .unknown)).map fun a =>
      { attemptId := a.attemptId, poolId := a.poolId, ownerId := a.ownerId,
        engineEpoch := a.engineEpoch, state := a.state, workloadClass := classes a.attemptId }

/-- The query of `_reconcile_durable`: an attempt is live while it holds compute, or while
it may still be sent. -/
def liveOf (d : Db) (active : List String) : List (String × PermitState) :=
  (d.attempts.rows.filter fun a =>
    decide (a.attemptId ∈ active) && (a.computeHeld || a.state = .reserved)).map
      (fun a => (a.attemptId, PermitState.ofAttempt a.state)) ++
  (d.directAttempts.rows.filter fun a => decide (a.attemptId ∈ active) && a.computeHeld).map
    fun a => (a.attemptId, PermitState.ofDirect a.state)

/-! ### The parties -/

/-- How far a tick has come. -/
inductive Phase
  /-- It asks for a permit. -/
  | acquiring
  /-- It has one, and fetches the payload. -/
  | ready
  /-- `mark_send` has committed, and the final heartbeat is on its way. -/
  | marked
  /-- The heartbeat was answered. -/
  | beaten
  /-- The tick is in `driver.execute`. -/
  | executing
  /-- The engine has answered, and `compute_finished` is tried. -/
  | finishing
  /-- `compute_finished` has committed. -/
  | finished
  /-- Something was raised; the end of the attempt is written. -/
  | ending
  deriving DecidableEq, Repr

/-- The attempt may still be sent by this tick. -/
def Phase.early : Phase → Bool
  | .acquiring | .ready | .marked => true
  | _ => false

/-- The final heartbeat was answered, and nothing was raised since. -/
def Phase.confirmed : Phase → Bool
  | .beaten | .executing | .finishing | .finished => true
  | _ => false

/-- One run of `Executor.tick`, once it has a reservation. -/
structure Tick where
  reservation : Reservation
  phase : Phase

/-- The attempt of a tick. -/
def Tick.attemptId (tick : Tick) : String := tick.reservation.attemptId

/-- A runtime API that is alive. -/
structure Api where
  process : Process
  /-- What `start` has read, until it goes on. -/
  reading : Option Reading := none
  /-- What the query of `_reconcile_durable` has found, until the loop goes on. -/
  live : Option (List (String × PermitState)) := none

/-- `start` has returned. -/
def Api.started (api : Api) : Bool := api.process.scheduler.started

/-- The permits of a runtime API. -/
def Api.permits (api : Api) : Table Permit := api.process.scheduler.permits

/-- The executors, the ledger, and the runtime API if one is alive. -/
structure Deployment where
  db : Db
  api : Option Api := none
  ticks : ℕ → Option Tick := fun _ => none
  /-- The attempts whose release an executor has asked for. -/
  releases : List String := []
  /-- The identifiers of direct attempts. -/
  taken : List String := []
  /-- The attempts whose final heartbeat was answered. The code keeps no such record. -/
  covered : List String := []

/-- What a tick does next. -/
inductive TickEvent
  | reserveNext (env : Env) (poolId ownerId : String)
  /-- The answer to `permits.acquire` arrives. That there is a permit is left open here, as
  the final heartbeat asks again. -/
  | acquired
  | markSend (env : Env)
  /-- The runtime API answers the final heartbeat. -/
  | heartbeat
  | execute
  | executed
  | computeFinished (env : Env)
  /-- `permits.release` is sent. -/
  | release
  /-- Something is raised, also because a message failed. -/
  | raise
  /-- The `finally` block: the permit is released if the ledger says that no compute is
  held. -/
  | check
  /-- The executor crashes, or the tick ends and keeps the permit. -/
  | leave

/-- What happens next. -/
inductive DeploymentEvent
  /-- A method of the store is called, by an executor, an administrator or a worker. -/
  | ledger (request : Request)
  | boot (settings : Settings) (generation : String)
  | crash
  /-- The transaction of the first refresh reads the pools and the attempts. -/
  | hydrate (records : List Pool) (classes : String → Option WorkloadClass)
  /-- The rest of `start`. -/
  | «open» (clock : Clock)
  /-- A turn of the runtime API. What the ledger and the engines tell it is left open, but
  for the answer to `_reconcile_durable`. -/
  | turn (event : Event)
  /-- The query of `_reconcile_durable` is executed. -/
  | readLive
  /-- Its answer arrives. -/
  | answerLive (clock : Clock)
  | tick (executor : ℕ) (event : TickEvent)

/-- The identifiers that a turn may draw for direct attempts. -/
def Event.draws : Event → List String
  | .direct _ uuid _ => [uuid]
  | _ => []

/-- A turn of the maintenance loop. -/
def Event.maintains : Event → Bool
  | .maintain _ _ => true
  | _ => false

namespace Deployment

variable (sha256 : String → String) (σ : Deployment)

/-- No direct attempt has the identifier of a durable one: `uuid4` does not repeat itself. -/
def Apart (d : Db) (taken : List String) : Prop := ∀ id ∈ taken, ¬ d.Knows id

instance (d : Db) (taken : List String) : Decidable (Apart d taken) := by
  unfold Apart
  infer_instance

/-- The messages of executors to the runtime API: it asks for the permit of an attempt it
has reserved, or gives back a permit as it has decided to. -/
def Allows : Event → Prop
  | .acquire _ call => σ.db.Knows call.attemptId
  | .release _ attemptId _ => attemptId ∈ σ.releases
  | .maintain _ (.live _) => False
  | _ => True

instance : DecidablePred σ.Allows := fun event => by
  unfold Allows
  split <;> infer_instance

/-- A tick goes on. -/
def setTick (executor : ℕ) (tick : Option Tick) : Deployment :=
  { σ with ticks := Function.update σ.ticks executor tick }

theorem ticks_setTick (executor other : ℕ) (tick : Option Tick) :
    (σ.setTick executor tick).ticks other = if other = executor then tick else σ.ticks other :=
  Function.update_apply ..

/-- A tick goes from one phase to another. -/
def advance (executor : ℕ) («from» next : Phase) : Deployment :=
  match σ.ticks executor with
  | some tick => if tick.phase = «from» then σ.setTick executor (some { tick with phase := next })
    else σ
  | none => σ

/-- A method of the store that moves a tick on if it succeeds. -/
def perform (executor : ℕ) («from» next : Phase) (request : Reservation → Request) : Deployment :=
  match σ.ticks executor with
  | some tick =>
    match (request tick.reservation).perform sha256 σ.db with
    | .ok (_, db) =>
      if tick.phase = «from» ∧ Apart db σ.taken then
        { σ with db }.setTick executor (some { tick with phase := next })
      else σ
    | .error _ => σ
  | none => σ

/-- The runtime API answers a heartbeat: it has started, and has the permit. -/
def answers (reservation : Reservation) : Bool :=
  match σ.api with
  | some api => api.started && ((durableHeartbeat reservation.attemptId
      reservation.ownerId).outcome api.process.scheduler).isOk
  | none => false

/-- A step of a tick. What a tick cannot do changes nothing. -/
def tickStep (executor : ℕ) : TickEvent → Deployment
  | .reserveNext env poolId ownerId =>
    match σ.ticks executor,
      (Request.call env (.reserveNext poolId ownerId)).perform sha256 σ.db with
    | none, .ok (.reservation (some reservation), db) =>
      if Apart db σ.taken then { σ with db }.setTick executor (some ⟨reservation, .acquiring⟩)
      else σ
    | _, _ => σ
  | .acquired => σ.advance executor .acquiring .ready
  | .markSend env =>
    σ.perform sha256 executor .ready .marked fun reservation => .call env (.markSend reservation)
  | .heartbeat =>
    match σ.ticks executor with
    | some tick =>
      if tick.phase = .marked ∧ σ.answers tick.reservation then
        { σ with covered := tick.attemptId :: σ.covered }.setTick executor
          (some { tick with phase := .beaten })
      else σ
    | none => σ
  | .execute => σ.advance executor .beaten .executing
  | .executed => σ.advance executor .executing .finishing
  | .computeFinished env =>
    σ.perform sha256 executor .finishing .finished fun reservation =>
      .call env (.computeFinished reservation)
  | .release =>
    match σ.ticks executor with
    | some tick =>
      if tick.phase = .finished then { σ with releases := tick.attemptId :: σ.releases } else σ
    | none => σ
  | .raise =>
    match σ.ticks executor with
    | some tick => σ.setTick executor (some { tick with phase := .ending })
    | none => σ
  | .check =>
    match σ.ticks executor with
    | some tick =>
      if tick.phase = .finished ∨ tick.phase = .ending then
        if σ.db.Holds tick.attemptId then σ.setTick executor none
        else { σ with releases := tick.attemptId :: σ.releases }.setTick executor none
      else σ
    | none => σ
  | .leave => σ.setTick executor none

/-- A step of the runtime API, if one is alive. -/
def withApi (f : Api → Deployment) : Deployment :=
  match σ.api with
  | some api => f api
  | none => σ

/-- One step. What a party cannot do changes nothing. -/
def step : DeploymentEvent → Deployment
  | .ledger request =>
    let db := request.after sha256 σ.db
    if Apart db σ.taken then { σ with db } else σ
  | .boot settings generation =>
    match σ.api with
    | none => { σ with api := some { process := { scheduler :=
        { settings, bootGeneration := generation } } } }
    | some _ => σ
  | .crash => { σ with api := none }
  | .hydrate records classes => σ.withApi fun api =>
    let old := legacy σ.db classes
    let taken := old.map LegacyAttempt.attemptId ++ σ.taken
    if api.started = false ∧ Apart σ.db taken then
      { σ with
        api := some { api with reading := some ⟨records, hydrated σ.db, old⟩ }
        taken }
    else σ
  | .open clock => σ.withApi fun api =>
    match api.reading with
    | some reading =>
      if api.started = false then
        let s := api.process.scheduler
        { σ with api := some { api with
          process := { api.process with
            scheduler :=
              (s.adopt clock reading.records reading.durable reading.legacy).open clock }
          reading := none } }
      else σ
    | none => σ
  | .turn event => σ.withApi fun api =>
    if api.started = true ∧ σ.Allows event ∧ Apart σ.db (event.draws ++ σ.taken) then
      { σ with
        api := some { api with
          process := api.process.step event
          live := if event.maintains then none else api.live }
        taken := event.draws ++ σ.taken }
    else σ
  | .readLive => σ.withApi fun api =>
    match api.process.maintenance with
    | .reconciling active => { σ with api := some { api with live := some (liveOf σ.db active) } }
    | _ => σ
  | .answerLive clock => σ.withApi fun api =>
    match api.live with
    | some held => { σ with api := some { api with
        process := api.process.step (.maintain clock (.live held))
        live := none } }
    | none => σ
  | .tick executor event => σ.tickStep sha256 executor event

/-- Any sequence of steps. -/
def after (events : List DeploymentEvent) : Deployment :=
  events.foldl (fun σ event => σ.step sha256 event) σ

theorem after_append (events later : List DeploymentEvent) :
    σ.after sha256 (events ++ later) = (σ.after sha256 events).after sha256 later :=
  List.foldl_append

/-- Nobody has done anything yet. -/
def initial (authority : Ledger.Authority) : Deployment := { db := Db.empty authority }

end Deployment

/-! ### The permits of a scheduler -/

/-- The permits of a scheduler that matter: direct permits and attempts have identifiers
that are taken, all other permits belong to attempts that are known, and the attempts that
need a permit have one. -/
structure Covering (known : String → Prop) (taken : List String) (needs : String → Prop)
    (s : MemoryScheduler) : Prop where
  direct : ∀ id, s.directAttempts.find? id ≠ none → id ∈ taken
  permits : ∀ id permit, s.permits.find? id = some permit →
    (known id ∧ permit.kind = .durable) ∨ id ∈ taken
  covers : ∀ id, needs id → s.permits.find? id ≠ none

namespace Covering

variable {known needs : String → Prop} {taken : List String} {s s' : MemoryScheduler}

theorem mono {known' needs' : String → Prop} {taken' : List String}
    (covering : Covering known taken needs s) (grows : ∀ id, known id → known' id)
    (more : ∀ id ∈ taken, id ∈ taken') (fewer : ∀ id, needs' id → needs id) :
    Covering known' taken' needs' s where
  direct id found := more id (covering.direct id found)
  permits id permit found := (covering.permits id permit found).imp
    (And.imp_left (grows id)) (more id)
  covers id need := covering.covers id (fewer id need)

/-- Only direct attempts and permits matter. -/
theorem of_same (covering : Covering known taken needs s)
    (attempts : s'.directAttempts = s.directAttempts) (permits : s'.permits = s.permits) :
    Covering known taken needs s' := by
  refine ⟨fun id found => ?_, fun id permit found => ?_, fun id need => ?_⟩
  · rw [attempts] at found
    exact covering.direct id found
  · rw [permits] at found
    exact covering.permits id permit found
  · rw [permits]
    exact covering.covers id need

/-- A new permit takes nothing away. -/
theorem put (covering : Covering known taken needs s) {permit : Permit}
    (fits : (known permit.attemptId ∧ permit.kind = .durable) ∨ permit.attemptId ∈ taken)
    (permits : s'.permits = s.permits.put permit)
    (attempts : ∀ id, s'.directAttempts.find? id ≠ none →
      s.directAttempts.find? id ≠ none ∨ id ∈ taken) : Covering known taken needs s' := by
  refine ⟨fun id found => ?_, fun id other found => ?_, fun id need => ?_⟩
  · exact (attempts id found).elim (covering.direct id) fun member => member
  · rw [permits, Table.find?_put] at found
    split at found
    · rename_i same
      cases found
      exact same ▸ fits
    · exact covering.permits id other found
  · rw [permits, Table.find?_put]
    split
    · exact Option.some_ne_none _
    · exact covering.covers id need

/-- A permit changes, but not its kind. -/
theorem modify (covering : Covering known taken needs s) {attemptId : String} {f : Permit → Permit}
    (permits : s'.permits = s.permits.modify attemptId f)
    (key : ∀ p, (f p).attemptId = p.attemptId) (kind : ∀ p, (f p).kind = p.kind)
    (attempts : ∀ id, s'.directAttempts.find? id ≠ none → s.directAttempts.find? id ≠ none) :
    Covering known taken needs s' := by
  refine ⟨fun id found => covering.direct id (attempts id found), fun id permit found => ?_,
    fun id need => ?_⟩
  · rw [permits] at found
    obtain ⟨old, here, ⟨-, rfl⟩ | ⟨-, rfl⟩⟩ := Table.find?_of_modify found key
    · rw [kind]
      exact covering.permits id old here
    · exact covering.permits id _ here
  · rw [permits]
    exact fun absent => covering.covers id need (Table.find?_eq_none_of_modify absent key)

/-- A permit is given back that nobody needs. -/
theorem release (covering : Covering known taken needs s) {attemptId : String}
    (free : ¬ needs attemptId) (permits : s'.permits = s.permits.erase attemptId)
    (attempts : ∀ id, s'.directAttempts.find? id ≠ none → s.directAttempts.find? id ≠ none) :
    Covering known taken needs s' := by
  refine ⟨fun id found => covering.direct id (attempts id found), fun id permit found => ?_,
    fun id need => ?_⟩
  · rw [permits, Table.find?_erase] at found
    split at found
    · cases found
    · exact covering.permits id permit found
  · rw [permits, Table.find?_erase]
    split
    · rename_i same
      exact absurd (same ▸ need) free
    · exact covering.covers id need

end Covering

section Moves

variable {scope : Scope} {known needs : String → Prop} {taken : List String}
  {s s' : MemoryScheduler}

/-- What comes from outside fits: new direct attempts have taken identifiers, permits are
asked for attempts that are known, and what is reported as over needs no permit. -/
structure Scope.Fits (scope : Scope) (known : String → Prop) (taken : List String)
    (needs : String → Prop) : Prop where
  drawn : ∀ id, scope.drawn id → id ∈ taken
  asked : ∀ id, scope.asked id → known id
  gone : ∀ id, scope.gone id → ¬ needs id
  apart : ∀ id, needs id → id ∉ taken

/-- Moves keep the permits of attempts that need one. -/
theorem Move.covering (move : Move scope s s') (fits : scope.Fits known taken needs)
    (covering : Covering known taken needs s) : Covering known taken needs s' := by
  cases move with
  | quiet same => exact covering.of_same same.directAttempts same.permits
  | withdraw identity =>
    exact covering.of_same (removeWaiter_directAttempts _ _) (removeWaiter_permits _ _)
  | forget identity =>
    refine ⟨fun id found => covering.direct id fun absent => found ?_, covering.permits,
      covering.covers⟩
    unfold MemoryScheduler.forget
    rw [Table.find?_filter, absent]
    rfl
  | prune | disown | adopt | regain | weigh | wait => exact covering.of_same rfl rfl
  | grant reservation new waits found room =>
    have drawn : reservation.attemptId ∈ taken := fits.drawn _ new
    refine covering.put (Or.inr drawn : (known reservation.permit.attemptId ∧ _) ∨ _)
      (grant_permits s reservation)
      fun id found => ?_
    rw [grant_directAttempts, Table.find?_put] at found
    split at found
    · rename_i same
      exact Or.inr (same ▸ drawn)
    · exact Or.inl found
  | progress attemptId state unknownAt held live =>
    exact covering.modify rfl (fun _ => rfl) (fun _ => rfl) fun id found absent =>
      found (Table.find?_modify_eq_none absent fun _ => rfl)
  | conclude attemptId state idleVerified aside ended unproven =>
    -- only direct permits are given back here, and no attempt that needs a permit has one
    have free : ¬ needs attemptId := by
      intro need
      rcases aside with found | direct
      · exact fits.apart _ need (covering.direct _ found)
      · obtain ⟨permit, found⟩ := Option.ne_none_iff_exists'.mp (covering.covers _ need)
        rcases covering.permits _ permit found with ⟨-, durable⟩ | member
        · rw [direct permit found] at durable
          cases durable
        · exact fits.apart _ need member
    have edited : Covering known taken needs (s.editDirect attemptId fun p =>
        { p with state := state p.state, idleVerified := idleVerified p.idleVerified }) :=
      covering.modify rfl (fun _ => rfl) (fun _ => rfl) fun id found absent =>
        found (Table.find?_modify_eq_none absent fun _ => rfl)
    exact edited.release free rfl fun _ found => found
  | observe attemptId state =>
    exact covering.modify rfl (fun _ => rfl) (fun _ => rfl) fun _ found => found
  | drop attemptId isOver => exact covering.release (fits.gone _ isOver) rfl fun _ found => found
  | grantDurable call allowed asked fits' named room =>
    exact covering.put (Or.inl ⟨fits.asked _ asked, rfl⟩ : (known call.permit.attemptId ∧ _) ∨ _)
      (grantDurable_permits s call) fun id found => Or.inl (grantDurable_directAttempts s call ▸ found)

theorem Path.covering (path : Path scope s s') (fits : scope.Fits known taken needs)
    (covering : Covering known taken needs s) : Covering known taken needs s' := by
  induction path with
  | refl => exact covering
  | tail _ move ih => exact move.covering fits ih

end Moves

/-! ### The invariant -/

namespace Deployment

/-- The attempt needs a permit: its final heartbeat was answered, and it holds compute. -/
def Needs (σ : Deployment) (id : String) : Prop := id ∈ σ.covered ∧ σ.db.Holds id

/-- The permit of the attempt can be given back: the attempt is over, or no tick will send
it any more. -/
def Spent (σ : Deployment) (id : String) : Prop :=
  σ.db.Over id ∨ (σ.db.Knows id ∧ id ∉ σ.covered ∧ ∀ executor tick,
    σ.ticks executor = some tick → tick.attemptId = id → tick.phase.early = false)

/-- What comes to the runtime API from outside. -/
def scope (σ : Deployment) : Scope where
  drawn id := id ∈ σ.taken
  gone id := ¬ σ.Needs id
  asked := σ.db.Knows
  returned id := id ∈ σ.releases

end Deployment

/-- What a tick relies on. -/
structure Tick.Sound (σ : Deployment) (tick : Tick) : Prop where
  known : σ.db.Knows tick.attemptId
  marked : tick.phase = .marked → σ.db.Left tick.attemptId
  confirmed : tick.phase.confirmed = true → tick.attemptId ∈ σ.covered
  finished : tick.phase = .finished → σ.db.Over tick.attemptId

/-- What a runtime API relies on, and what it provides once it has started. -/
structure Api.Sound (σ : Deployment) (api : Api) : Prop where
  calls : api.process.CallsKnow σ.scope
  covering : Covering σ.db.Knows σ.taken (fun id => api.started = true ∧ σ.Needs id)
    api.process.scheduler
  durable : ∀ reading ∈ api.reading, ∀ item ∈ reading.durable, σ.db.Knows item.attemptId
  legacy : ∀ reading ∈ api.reading, ∀ item ∈ reading.legacy, item.attemptId ∈ σ.taken
  hydrated : ∀ reading ∈ api.reading, api.started = false → ∀ id, σ.Needs id →
    ∃ item ∈ reading.durable, item.attemptId = id
  reconciling : ∀ active, api.process.maintenance = .reconciling active →
    ∀ id ∈ active, σ.db.Knows id ∨ id ∈ σ.taken
  live : ∀ held ∈ api.live, ∃ active, api.process.maintenance = .reconciling active ∧
    ∀ id ∈ active, held.reverse.lookup id = none → σ.db.Over id ∨ id ∈ σ.taken

namespace Deployment

/-- The invariant. -/
structure Sound (σ : Deployment) : Prop where
  valid : σ.db.book.Valid
  apart : Apart σ.db σ.taken
  covered : ∀ id ∈ σ.covered, σ.db.Left id
  ticks : ∀ executor tick, σ.ticks executor = some tick → tick.Sound σ
  distinct : ∀ executor other tick tick', σ.ticks executor = some tick →
    σ.ticks other = some tick' → tick.attemptId = tick'.attemptId → executor = other
  released : ∀ id ∈ σ.releases, σ.Spent id
  api : ∀ api, σ.api = some api → api.Sound σ

/-- Nothing is forgotten, and no attempt needs a permit that did not need one before. -/
structure Grows (σ σ' : Deployment) : Prop where
  knows : ∀ id, σ.db.Knows id → σ'.db.Knows id
  isOver : ∀ id, σ.db.Over id → σ'.db.Over id
  taken : ∀ id ∈ σ.taken, id ∈ σ'.taken
  releases : ∀ id ∈ σ.releases, id ∈ σ'.releases
  needs : ∀ id, σ'.Needs id → σ.Needs id

variable {sha256 : String → String} {σ σ' : Deployment} {id : String}

theorem Spent.not_needs (spent : σ.Spent id) : ¬ σ.Needs id := by
  rintro ⟨covered, held⟩
  rcases spent with isOver | ⟨-, uncovered, -⟩
  · exact isOver.not_holds held
  · exact uncovered covered

theorem Sound.needs_known (sound : σ.Sound) (need : σ.Needs id) : σ.db.Knows id :=
  (sound.covered id need.1).knows

theorem Sound.needs_apart (sound : σ.Sound) (need : σ.Needs id) : id ∉ σ.taken := fun member =>
  sound.apart id member (sound.needs_known need)

end Deployment

/-- The calls in flight stay in scope. -/
theorem Process.CallsKnow.grow {p : Process} {σ σ' : Deployment}
    (calls : p.CallsKnow σ.scope) (grows : σ.Grows σ') : p.CallsKnow σ'.scope := by
  intro id on found
  have knows := calls id on found
  cases on with
  | identifying call => exact grows.knows _ knows
  | waiting wait => exact ⟨grows.knows _ knows.1, knows.2⟩
  | validating wait pool => exact ⟨⟨grows.knows _ knows.1.1, knows.1.2⟩, knows.2⟩
  | releasing attemptId => exact grows.releases _ knows

/-- A runtime API that does nothing stays as it should be. -/
theorem Api.Sound.grow {σ σ' : Deployment} {api : Api} (sound : api.Sound σ)
    (grows : σ.Grows σ') : api.Sound σ' where
  calls := sound.calls.grow grows
  covering := sound.covering.mono grows.knows grows.taken fun id need =>
    ⟨need.1, grows.needs id need.2⟩
  durable reading here item member := grows.knows _ (sound.durable reading here item member)
  legacy reading here item member := grows.taken _ (sound.legacy reading here item member)
  hydrated reading here starting id need :=
    sound.hydrated reading here starting id (grows.needs id need)
  reconciling active here id member :=
    (sound.reconciling active here id member).imp (grows.knows id) (grows.taken id)
  live held here := by
    obtain ⟨active, waiting, gone⟩ := sound.live held here
    exact ⟨active, waiting, fun id member absent =>
      (gone id member absent).imp (grows.isOver id) (grows.taken id)⟩

/-- A runtime API that boots has no permits, and need not have any. -/
theorem Api.Sound.fresh {σ : Deployment} (settings : Settings) (generation : String) :
    Api.Sound σ { process := { scheduler := { settings, bootGeneration := generation } } } where
  calls _ _ found := by cases found
  covering :=
    { direct := fun _ found => absurd rfl found
      permits := fun _ _ found => by cases found
      covers := fun _ need => by cases need.1 }
  durable _ here := by cases here
  legacy _ here := by cases here
  hydrated _ here := by cases here
  reconciling _ here := by cases here
  live _ here := by cases here

/-- A tick that does nothing stays as it should be. -/
theorem Tick.Sound.grow {σ σ' : Deployment} {tick : Tick} (sound : tick.Sound σ)
    (grows : σ.Grows σ') (left : ∀ id, σ.db.Left id → σ'.db.Left id)
    (covered : ∀ id ∈ σ.covered, id ∈ σ'.covered) : tick.Sound σ' where
  known := grows.knows _ sound.known
  marked here := left _ (sound.marked here)
  confirmed here := covered _ (sound.confirmed here)
  finished here := grows.isOver _ (sound.finished here)

/-! ### Turns of the runtime API -/

section Maintenance

variable {clock : Clock} {s : MemoryScheduler} {active : List String}

theorem settleNext_next (pending : List (String × Finset String)) (s : MemoryScheduler) :
    (settleNext clock pending s).next ≠ .reconciling active := by
  induction pending generalizing s with
  | nil => exact nofun
  | cons item rest ih =>
    unfold settleNext
    split
    · exact ih s
    · split
      · exact nofun
      · exact ih _

theorem probeNext_next (pools : List String) (s : MemoryScheduler)
    (here : (probeNext clock pools s).next = .reconciling active) :
    active = (probeNext clock pools s).scheduler.reconcilable := by
  induction pools generalizing s with
  | nil =>
    unfold probeNext reconcileBegin at here ⊢
    split at here
    · exact absurd here (settleNext_next _ _)
    · rename_i some
      rw [if_neg some]
      exact (Maintenance.reconciling.inj here).symm
  | cons poolId rest ih =>
    unfold probeNext at here ⊢
    split at here
    · cases here
    · rename_i other
      rw [if_neg other]
      exact ih s here

/-- The loop asks the ledger about all permits that it decides about. -/
theorem maintain_next {on : Maintenance} {notice : Notice}
    (here : (maintain clock s on notice).next = .reconciling active) :
    on = .reconciling active ∨ active = (maintain clock s on notice).scheduler.reconcilable := by
  unfold maintain at here ⊢
  split at here
  · cases here
  · exact Or.inr (probeNext_next _ _ here)
  · exact Or.inr (probeNext_next _ _ here)
  · split at here
    · exact absurd here (settleNext_next _ _)
    · cases here
  · unfold settleProved at here
    dsimp only at here
    split at here
    · exact absurd here (settleNext_next _ _)
    · split at here
      · exact absurd here (settleNext_next _ _)
      · cases here
  · exact absurd here (settleNext_next _ _)
  · cases here
  · cases here
  · exact Or.inl here

end Maintenance

/-- A permit that the ledger decides about is not a direct one. -/
theorem Covering.reconcilable {known needs : String → Prop} {taken : List String}
    {s : MemoryScheduler} (covering : Covering known taken needs s) :
    ∀ id ∈ s.reconcilable, known id ∨ id ∈ taken := by
  intro id member
  obtain ⟨permit, here, rfl⟩ := List.mem_map.mp member
  have found : s.permits.find? permit.attemptId = some permit :=
    Table.find?_of_mem (List.mem_of_mem_filter here)
  exact (covering.permits _ permit found).imp_left And.left

/-- What is in scope of the deployment fits its attempts. -/
theorem Deployment.Sound.fits {σ : Deployment} (sound : σ.Sound) (started : Prop) :
    σ.scope.Fits σ.db.Knows σ.taken fun id => started ∧ σ.Needs id where
  drawn _ member := member
  asked _ known := known
  gone _ free need := free need.2
  apart _ need := sound.needs_apart need.2

/-- A turn keeps a runtime API as it should be. -/
theorem Api.Sound.turn {σ : Deployment} (sound : σ.Sound) {api : Api} (here : api.Sound σ)
    {event : Event} (inScope : api.process.InScope σ.scope event) :
    Api.Sound σ { api with
      process := api.process.step event
      live := if event.maintains then none else api.live } := by
  obtain ⟨s, joined, path, calls⟩ :=
    Process.step_turns rfl rfl rfl (fun _ _ _ => trivial) here.calls inScope
  have entered : Covering σ.db.Knows σ.taken (fun id => api.started = true ∧ σ.Needs id) s ∧
      s.started = api.process.scheduler.started := by
    rcases joined with rfl | ⟨clock, uuid, call, request, poolId, ownerId, -, -, -, -, rfl⟩
    · exact ⟨here.covering, rfl⟩
    · exact ⟨here.covering.of_same rfl rfl, rfl⟩
  have covering := path.covering (sound.fits _) entered.1
  have started : (api.process.step event).scheduler.started = api.process.scheduler.started :=
    path.follows.started.trans entered.2
  -- the loop waits for the ledger as before, or asks about the permits there are now
  have loop : event.maintains = false →
      (api.process.step event).maintenance = api.process.maintenance := fun caller =>
    Process.step_maintenance fun clock notice same => by
      rw [same] at caller
      cases caller
  refine ⟨calls, ?_, here.durable, here.legacy, fun reading found starting => ?_,
    fun active waiting id member => ?_, fun held found => ?_⟩
  · refine covering.mono (fun _ known => known) (fun _ member => member) fun id need => ?_
    exact ⟨started.symm.trans need.1, need.2⟩
  · refine here.hydrated reading found ?_
    exact started.symm.trans starting
  · by_cases caller : event.maintains = false
    · rw [loop caller] at waiting
      exact here.reconciling active waiting id member
    · cases event with
      | maintain clock notice =>
        rcases maintain_next waiting with before | now
        · exact here.reconciling active before id member
        · refine covering.reconcilable id ?_
          rw [now] at member
          exact member
      | _ => exact absurd rfl caller
  · dsimp only at found
    split at found
    · cases found
    · rename_i caller
      rw [Bool.not_eq_true] at caller
      obtain ⟨active, waiting, gone⟩ := here.live held found
      exact ⟨active, (loop caller).trans waiting, gone⟩

/-- An attempt that the ledger does not report as live is over. -/
theorem over_of_not_live {d : Db} {active : List String} {id : String} (known : d.Knows id)
    (asked : id ∈ active) (absent : (liveOf d active).reverse.lookup id = none) : d.Over id := by
  obtain ⟨a, found⟩ := Option.ne_none_iff_exists'.mp known
  have named : a.attemptId = id := Table.key_of_find? found
  have unlisted : ∀ state, (id, state) ∉ liveOf d active := by
    intro state member
    have other := List.lookup_eq_none_iff.mp absent (id, state) (List.mem_reverse.mpr member)
    simp at other
  have live : ¬ (a.computeHeld || a.state = .reserved) = true := by
    intro live
    refine unlisted (PermitState.ofAttempt a.state) (List.mem_append_left _ ?_)
    refine List.mem_map.mpr ⟨a, List.mem_filter.mpr ⟨Table.mem_of_find? found, ?_⟩, ?_⟩
    · rw [live, named, decide_eq_true asked]
      rfl
    · rw [named]
  simp only [Bool.or_eq_true, decide_eq_true_eq, not_or, Bool.not_eq_true] at live
  exact ⟨a, found, live.2, live.1⟩

/-- Every attempt that was sent and holds compute is hydrated. -/
theorem mem_hydrated {d : Db} {id : String} (valid : d.book.Valid) (held : d.Holds id) :
    ∃ item ∈ hydrated d, item.attemptId = id := by
  obtain ⟨a, found, compute⟩ := held
  have named : a.attemptId = id := Table.key_of_find? found
  have member : a ∈ d.attempts.rows := Table.mem_of_find? found
  have sent : (a.state = .sendIntent || a.state = .active || a.state = .unknown) = true := by
    rcases ((valid.consistent a member).compute compute).2 with state | state | state <;>
      simp [state]
  -- the references of the ledger make the join succeed
  obtain ⟨task, task_found, -, -⟩ := valid.linked.attempt a member
  obtain ⟨op, op_found, rfl⟩ := Option.map_eq_some_iff.mp task_found
  obtain ⟨running, -, -⟩ := valid.linked.task _ _ task_found
  obtain ⟨root, root_found⟩ : ∃ root, d.roots.find? op.rootId = some root := by
    refine Option.ne_none_iff_exists'.mp fun absent => running ?_
    exact Option.map_eq_none_iff.mpr absent
  have joined : d.join a = some ⟨a, op, root⟩ := by
    unfold Ledger.Db.join
    rw [op_found, Option.bind_some, root_found]
    rfl
  refine ⟨.ofRow a root, List.mem_filterMap.mpr ⟨a, List.mem_filter.mpr ⟨member, ?_⟩, ?_⟩, named⟩
  · rw [compute, sent]
    rfl
  · rw [joined]
    rfl

theorem hydrated_known {d : Db} {item : HydratedAttempt} (member : item ∈ hydrated d) :
    d.Knows item.attemptId := by
  obtain ⟨a, here, made⟩ := List.mem_filterMap.mp member
  obtain ⟨joined, -, rfl⟩ := Option.map_eq_some_iff.mp made
  have found : d.attempts.find? a.attemptId = some a :=
    Table.find?_of_mem (List.mem_of_mem_filter here)
  exact fun absent => Option.some_ne_none a (found.symm.trans absent)

/-- Permits are added one by one. -/
theorem Covering.putAll {known needs : String → Prop} {taken : List String} {s : MemoryScheduler}
    (covering : Covering known taken needs s) (permits : List Permit)
    (fits : ∀ permit ∈ permits,
      (known permit.attemptId ∧ permit.kind = .durable) ∨ permit.attemptId ∈ taken) :
    Covering known taken (fun id => needs id ∨ ∃ permit ∈ permits, permit.attemptId = id)
      { s with permits := permits.foldl Table.put s.permits } := by
  induction permits generalizing s needs with
  | nil =>
    refine covering.mono (fun _ known => known) (fun _ member => member) fun id need => ?_
    exact need.resolve_right fun ⟨_, member, _⟩ => by cases member
  | cons permit rest ih =>
    have added : Covering known taken (fun id => needs id ∨ permit.attemptId = id)
        { s with permits := s.permits.put permit } := by
      have put : Covering known taken needs { s with permits := s.permits.put permit } :=
        covering.put (fits permit List.mem_cons_self) rfl fun _ found => Or.inl found
      refine ⟨put.direct, put.permits, fun id need => need.elim (put.covers id) fun same => ?_⟩
      have same : Keyed.key permit = id := same
      rw [Table.find?_put, if_pos same]
      exact Option.some_ne_none _
    refine (ih added fun other member => fits other (List.mem_cons_of_mem _ member)).mono
      (fun _ known => known) (fun _ member => member) fun id need => ?_
    rcases need with need | ⟨other, member, same⟩
    · exact Or.inl (Or.inl need)
    · rcases List.mem_cons.mp member with rfl | later
      · exact Or.inl (Or.inr same)
      · exact Or.inr ⟨other, later, same⟩

theorem open_same (s : MemoryScheduler) (clock : Clock) :
    (s.open clock).permits = s.permits ∧ (s.open clock).directAttempts = s.directAttempts ∧
      (s.open clock).started = true := by
  have scheduled : ∀ (pools : List Pool) (s : MemoryScheduler),
      (pools.foldl (fun s pool => s.schedule clock pool.spec.poolId) s).permits = s.permits ∧
        (pools.foldl (fun s pool => s.schedule clock pool.spec.poolId) s).directAttempts =
          s.directAttempts := by
    intro pools
    induction pools with
    | nil => exact fun _ => ⟨rfl, rfl⟩
    | cons pool rest ih =>
      intro s
      have same : (s.schedule clock pool.spec.poolId).permits = s.permits ∧
          (s.schedule clock pool.spec.poolId).directAttempts = s.directAttempts := by
        unfold MemoryScheduler.schedule
        split <;> exact ⟨rfl, rfl⟩
      exact ⟨(ih _).1.trans same.1, (ih _).2.trans same.2⟩
  exact ⟨(scheduled _ s).1, (scheduled _ s).2, rfl⟩

/-! ### Steps -/

namespace Deployment

variable {sha256 : String → String} {σ σ' : Deployment}

/-- A method of the store commits. -/
theorem Sound.request (sound : σ.Sound) (request : Request)
    (apart : Apart (request.after sha256 σ.db) σ.taken) :
    Sound { σ with db := request.after sha256 σ.db } := by
  have grows : σ.Grows { σ with db := request.after sha256 σ.db } :=
    ⟨fun _ known => request.knows_stays known, fun _ isOver => request.over_stays isOver,
      fun _ member => member, fun _ member => member, fun id need =>
        ⟨need.1, request.held_before (sound.covered id need.1) need.2⟩⟩
  refine ⟨(request.refines sound.valid).valid sound.valid, apart,
    fun id member => request.left_stays (sound.covered id member), fun executor tick here => ?_,
    sound.distinct, fun id member => ?_, fun api here => (sound.api api here).grow grows⟩
  · exact (sound.ticks executor tick here).grow grows (fun _ left => request.left_stays left)
      fun _ member => member
  · rcases sound.released id member with isOver | ⟨known, uncovered, settled⟩
    · exact Or.inl (request.over_stays isOver)
    · exact Or.inr ⟨request.knows_stays known, uncovered, settled⟩

/-- A tick goes on with its attempt. It is no nearer to a send than before. -/
theorem Sound.setTick (sound : σ.Sound) {executor : ℕ} {tick : Tick} {phase : Phase}
    (found : σ.ticks executor = some tick) (early : phase.early = true → tick.phase.early = true)
    (fits : Tick.Sound σ { tick with phase }) :
    (σ.setTick executor (some { tick with phase })).Sound := by
  have grows : σ.Grows (σ.setTick executor (some { tick with phase })) :=
    ⟨fun _ known => known, fun _ isOver => isOver, fun _ member => member, fun _ member => member,
      fun _ need => need⟩
  -- every tick has the attempt that it had
  have before : ∀ other now, (σ.setTick executor (some { tick with phase })).ticks other = some now →
      ∃ old, σ.ticks other = some old ∧ now.attemptId = old.attemptId ∧
        (now.phase.early = true → old.phase.early = true) ∧
          (now = old ∨ now = { tick with phase }) := by
    intro other now here
    rw [ticks_setTick] at here
    split at here
    · rename_i same
      cases here
      exact ⟨tick, same ▸ found, rfl, early, Or.inr rfl⟩
    · exact ⟨now, here, rfl, id, Or.inl rfl⟩
  refine ⟨sound.valid, sound.apart, sound.covered, fun other now here => ?_, ?_, fun id member => ?_,
    fun api here => (sound.api api here).grow grows⟩
  · obtain ⟨old, was, -, -, rfl | rfl⟩ := before other now here
    · exact (sound.ticks other now was).grow grows (fun _ left => left) fun _ member => member
    · exact fits.grow grows (fun _ left => left) fun _ member => member
  · intro first second now now' here here' same
    obtain ⟨old, was, named, -⟩ := before first now here
    obtain ⟨old', was', named', -⟩ := before second now' here'
    exact sound.distinct first second old old' was was' (named.symm.trans (same.trans named'))
  · refine (sound.released id member).imp (fun isOver => isOver) fun spent =>
      ⟨spent.1, spent.2.1, fun other now here named => ?_⟩
    obtain ⟨old, was, same, nearer, -⟩ := before other now here
    have settled := spent.2.2 other old was (same.symm.trans named)
    exact Bool.eq_false_iff.mpr fun now => Bool.false_ne_true (settled.symm.trans (nearer now))

/-- A tick ends. -/
theorem Sound.endTick (sound : σ.Sound) (executor : ℕ) : (σ.setTick executor none).Sound := by
  have grows : σ.Grows (σ.setTick executor none) :=
    ⟨fun _ known => known, fun _ isOver => isOver, fun _ member => member, fun _ member => member,
      fun _ need => need⟩
  have before : ∀ other now, (σ.setTick executor none).ticks other = some now →
      σ.ticks other = some now := by
    intro other now here
    rw [ticks_setTick] at here
    split at here
    · cases here
    · exact here
  refine ⟨sound.valid, sound.apart, sound.covered, fun other now here => ?_,
    fun first second now now' here here' => sound.distinct first second now now'
      (before first now here) (before second now' here'), fun id member => ?_,
    fun api here => (sound.api api here).grow grows⟩
  · exact (sound.ticks other now (before other now here)).grow grows (fun _ left => left)
      fun _ member => member
  · exact (sound.released id member).imp (fun isOver => isOver) fun spent =>
      ⟨spent.1, spent.2.1, fun other now here => spent.2.2 other now (before other now here)⟩

/-- An executor decides to give back a permit that is spent. -/
theorem Sound.release (sound : σ.Sound) {id : String} (spent : σ.Spent id) :
    Sound { σ with releases := id :: σ.releases } := by
  have grows : σ.Grows { σ with releases := id :: σ.releases } :=
    ⟨fun _ known => known, fun _ isOver => isOver, fun _ member => member,
      fun _ member => List.mem_cons_of_mem _ member, fun _ need => need⟩
  refine ⟨sound.valid, sound.apart, sound.covered, fun executor tick here => ?_, sound.distinct,
    fun other member => ?_, fun api here => (sound.api api here).grow grows⟩
  · exact (sound.ticks executor tick here).grow grows (fun _ left => left) fun _ member => member
  · rcases List.mem_cons.mp member with rfl | member
    · exact spent
    · exact sound.released other member

/-- The runtime API changes, or another one takes its place. -/
theorem Sound.withApi (sound : σ.Sound) {api : Option Api}
    (fits : ∀ now, api = some now → now.Sound σ) : Sound { σ with api } := by
  have grows : σ.Grows { σ with api } :=
    ⟨fun _ known => known, fun _ isOver => isOver, fun _ member => member, fun _ member => member,
      fun _ need => need⟩
  refine ⟨sound.valid, sound.apart, sound.covered, fun executor tick here => ?_, sound.distinct,
    sound.released, fun now here => (fits now here).grow grows⟩
  exact (sound.ticks executor tick here).grow grows (fun _ left => left) fun _ member => member

/-- Direct attempts get identifiers of their own. -/
theorem Sound.take (sound : σ.Sound) {taken : List String} (apart : Apart σ.db taken)
    (more : ∀ id ∈ σ.taken, id ∈ taken) : Sound { σ with taken } := by
  have grows : σ.Grows { σ with taken } :=
    ⟨fun _ known => known, fun _ isOver => isOver, more, fun _ member => member, fun _ need => need⟩
  refine ⟨sound.valid, apart, sound.covered, fun executor tick here => ?_, sound.distinct,
    sound.released, fun now here => (sound.api now here).grow grows⟩
  exact (sound.ticks executor tick here).grow grows (fun _ left => left) fun _ member => member

theorem after_of_perform {d d' : Db} {request : Request} {reply : Reply}
    (ran : request.perform sha256 d = .ok (reply, d')) : request.after sha256 d = d' := by
  unfold Ledger.Request.after
  rw [ran]

/-- A method of the store moves a tick on. -/
theorem Sound.perform (sound : σ.Sound) {executor : ℕ} {now next : Phase}
    {request : Reservation → Request} (early : next.early = true → now.early = true)
    (confirmed : next.confirmed = true → now.confirmed = true)
    (marked : ∀ reservation reply db, next = .marked →
      (request reservation).perform sha256 σ.db = .ok (reply, db) → db.Left reservation.attemptId)
    (finished : ∀ reservation reply db, next = .finished →
      (request reservation).perform sha256 σ.db = .ok (reply, db) → db.Over reservation.attemptId) :
    (σ.perform sha256 executor now next request).Sound := by
  unfold Deployment.perform
  split
  · rename_i tick found
    split
    · rename_i reply db ran
      split
      · rename_i guard
        have same : (request tick.reservation).after sha256 σ.db = db := after_of_perform ran
        have committed : Sound { σ with db } :=
          same ▸ sound.request (request tick.reservation) (same ▸ guard.2)
        have here := committed.ticks executor tick found
        refine committed.setTick found (fun soon => ?_) ⟨here.known, fun phase =>
          marked tick.reservation reply db phase ran, fun phase => ?_, fun phase =>
          finished tick.reservation reply db phase ran⟩
        · rw [guard.1]
          exact early soon
        · refine here.confirmed ?_
          rw [guard.1]
          exact confirmed phase
      · exact sound
    · exact sound
  · exact sound

theorem Sound.advance (sound : σ.Sound) {executor : ℕ} {now next : Phase}
    (early : next.early = true → now.early = true)
    (confirmed : next.confirmed = true → now.confirmed = true) (marked : next ≠ .marked)
    (finished : next ≠ .finished) : (σ.advance executor now next).Sound := by
  unfold Deployment.advance
  split
  · rename_i tick found
    split
    · rename_i phase
      have here := sound.ticks executor tick found
      refine sound.setTick found (fun soon => ?_) ⟨here.known, fun same => absurd same marked,
        fun same => here.confirmed ?_, fun same => absurd same finished⟩
      · rw [phase]
        exact early soon
      · rw [phase]
        exact confirmed same
    · exact sound
  · exact sound

/-- The runtime API answers the final heartbeat only if it has the permit. -/
theorem permit_of_answers {reservation : Reservation} (answers : σ.answers reservation = true) :
    ∃ api permit, σ.api = some api ∧ api.started = true ∧
      api.permits.find? reservation.attemptId = some permit := by
  unfold Deployment.answers at answers
  split at answers
  · rename_i api alive
    rw [Bool.and_eq_true] at answers
    obtain ⟨started, ok⟩ := answers
    cases found : api.process.scheduler.permits.find? reservation.attemptId with
    | some permit => exact ⟨api, permit, alive, started, found⟩
    | none =>
      have refused : (durableHeartbeat reservation.attemptId reservation.ownerId).outcome
          api.process.scheduler = .error (.conflict "durable permit not owned") := by
        have read : EStateM.get api.process.scheduler = EStateM.Result.ok (ε := SchedulerError)
            api.process.scheduler api.process.scheduler := rfl
        simp only [durableHeartbeat, Turn.outcome, bind, EStateM.bind, get, getThe,
          MonadStateOf.get, read, found]
        rfl
      rw [refused] at ok
      cases ok
  · cases answers

/-- The final heartbeat is answered: from now on the attempt needs its permit. -/
theorem Sound.heartbeat (sound : σ.Sound) {executor : ℕ} {tick : Tick}
    (found : σ.ticks executor = some tick) (marked : tick.phase = .marked)
    (answers : σ.answers tick.reservation = true) :
    Sound { σ with covered := tick.attemptId :: σ.covered } := by
  have here := sound.ticks executor tick found
  have needs : ∀ id, Needs { σ with covered := tick.attemptId :: σ.covered } id →
      id = tick.attemptId ∨ σ.Needs id := fun id need =>
    (List.mem_cons.mp need.1).imp_right fun member => ⟨member, need.2⟩
  refine ⟨sound.valid, sound.apart, fun id member => ?_, fun other now at_ => ?_, sound.distinct,
    fun id member => ?_, fun api alive => ?_⟩
  · rcases List.mem_cons.mp member with rfl | member
    · exact here.marked marked
    · exact sound.covered id member
  · have old := sound.ticks other now at_
    exact ⟨old.known, old.marked, fun phase => List.mem_cons_of_mem _ (old.confirmed phase),
      old.finished⟩
  · refine (sound.released id member).imp_right fun ⟨known, uncovered, settled⟩ => ?_
    refine ⟨known, fun member => ?_, settled⟩
    rcases List.mem_cons.mp member with rfl | member
    · -- a tick that still sends its attempt has not given back the permit
      have late := settled executor tick found rfl
      rw [marked] at late
      cases late
    · exact uncovered member
  · obtain ⟨answering, permit, alive', started, held⟩ := permit_of_answers answers
    obtain rfl : answering = api := Option.some.inj (alive'.symm.trans alive)
    have old := sound.api answering alive
    refine ⟨old.calls, ⟨old.covering.direct, old.covering.permits, fun id need => ?_⟩, old.durable,
      old.legacy, fun reading _ starting => ?_, old.reconciling, old.live⟩
    · rcases needs id need.2 with rfl | before
      · exact fun absent => Option.some_ne_none permit (held.symm.trans absent)
      · exact old.covering.covers id ⟨need.1, before⟩
    · rw [started] at starting
      cases starting

/-- An executor gets a new attempt. -/
theorem Sound.reserve (sound : σ.Sound) {executor : ℕ} {reservation : Reservation}
    (known : σ.db.Knows reservation.attemptId)
    (others : ∀ other tick, σ.ticks other = some tick → tick.attemptId ≠ reservation.attemptId)
    (unreleased : reservation.attemptId ∉ σ.releases) :
    (σ.setTick executor (some ⟨reservation, .acquiring⟩)).Sound := by
  have grows : σ.Grows (σ.setTick executor (some ⟨reservation, .acquiring⟩)) :=
    ⟨fun _ known => known, fun _ isOver => isOver, fun _ member => member, fun _ member => member,
      fun _ need => need⟩
  have cases_of : ∀ other now,
      (σ.setTick executor (some ⟨reservation, .acquiring⟩)).ticks other = some now →
        (other = executor ∧ now = ⟨reservation, .acquiring⟩) ∨ σ.ticks other = some now := by
    intro other now here
    rw [ticks_setTick] at here
    split at here
    · rename_i same
      exact Or.inl ⟨same, (Option.some.inj here).symm⟩
    · exact Or.inr here
  refine ⟨sound.valid, sound.apart, sound.covered, fun other now here => ?_, ?_, fun id member => ?_,
    fun api here => (sound.api api here).grow grows⟩
  · rcases cases_of other now here with ⟨-, rfl⟩ | old
    · exact ⟨known, nofun, nofun, nofun⟩
    · exact (sound.ticks other now old).grow grows (fun _ left => left) fun _ member => member
  · intro first second now now' here here' same
    rcases cases_of first now here with ⟨rfl, rfl⟩ | old
    · rcases cases_of second now' here' with ⟨rfl, -⟩ | old'
      · rfl
      · exact absurd same.symm (others second now' old')
    · rcases cases_of second now' here' with ⟨rfl, rfl⟩ | old'
      · exact absurd same (others first now old)
      · exact sound.distinct first second now now' old old' same
  · refine (sound.released id member).imp_right fun ⟨known, uncovered, settled⟩ =>
      ⟨known, uncovered, fun other now here named => ?_⟩
    rcases cases_of other now here with ⟨-, rfl⟩ | old
    · have named : reservation.attemptId = id := named
      exact absurd (named ▸ member) unreleased
    · exact settled other now old named

/-- Every step of a tick keeps the invariant. -/
theorem Sound.tickStep (sound : σ.Sound) (executor : ℕ) (event : TickEvent) :
    (σ.tickStep sha256 executor event).Sound := by
  cases event with
  | reserveNext env poolId ownerId =>
    simp only [Deployment.tickStep]
    split
    · rename_i reservation db free ran
      split
      · rename_i apart
        have same : (Request.call env (.reserveNext poolId ownerId)).after sha256 σ.db = db :=
          after_of_perform ran
        have committed : Sound { σ with db } := same ▸ sound.request _ (same ▸ apart)
        obtain ⟨new, known⟩ := Ledger.reserveNext_reserves ran
        refine committed.reserve known (fun other tick here named => new ?_) fun member => ?_
        · exact named ▸ (sound.ticks other tick here).known
        · rcases sound.released _ member with isOver | spent
          · exact new isOver.left.knows
          · exact new spent.1
      · exact sound
    · exact sound
  | acquired =>
    change (σ.advance executor .acquiring .ready).Sound
    exact sound.advance (fun _ => rfl) nofun nofun nofun
  | markSend env =>
    change (σ.perform sha256 executor .ready .marked fun reservation =>
      .call env (.markSend reservation)).Sound
    refine sound.perform (fun _ => rfl) nofun (fun reservation reply db _ ran => ?_)
      fun _ _ _ other => by cases other
    obtain ⟨a, found, sent, -⟩ := Ledger.sent_of_markSend ran
    exact ⟨a, found, fun reserved => by rw [sent] at reserved; cases reserved⟩
  | heartbeat =>
    simp only [Deployment.tickStep]
    split
    · rename_i tick found
      split
      · rename_i guard
        have covered := sound.heartbeat found guard.1 guard.2
        have here := covered.ticks executor tick found
        exact covered.setTick found nofun ⟨here.known, nofun, fun _ => List.mem_cons_self, nofun⟩
      · exact sound
    · exact sound
  | execute =>
    change (σ.advance executor .beaten .executing).Sound
    exact sound.advance nofun (fun _ => rfl) nofun nofun
  | executed =>
    change (σ.advance executor .executing .finishing).Sound
    exact sound.advance nofun (fun _ => rfl) nofun nofun
  | computeFinished env =>
    change (σ.perform sha256 executor .finishing .finished fun reservation =>
      .call env (.computeFinished reservation)).Sound
    exact sound.perform nofun (fun _ => rfl) (fun _ _ _ other => by cases other)
      fun reservation reply db _ ran => Ledger.over_of_computeFinished sound.valid ran
  | release =>
    simp only [Deployment.tickStep]
    split
    · rename_i tick found
      split
      · rename_i finished
        exact sound.release (Or.inl ((sound.ticks executor tick found).finished finished))
      · exact sound
    · exact sound
  | raise =>
    simp only [Deployment.tickStep]
    split
    · rename_i tick found
      have here := sound.ticks executor tick found
      exact sound.setTick found nofun ⟨here.known, nofun, nofun, nofun⟩
    · exact sound
  | check =>
    simp only [Deployment.tickStep]
    split
    · rename_i tick found
      have here := sound.ticks executor tick found
      split
      · rename_i late
        split
        · exact sound.endTick executor
        · rename_i free
          refine Sound.endTick (sound.release ?_) executor
          by_cases covered : tick.attemptId ∈ σ.covered
          · exact Or.inl ((sound.covered _ covered).over_of_not_holds free)
          · refine Or.inr ⟨here.known, covered, fun other now at_ named => ?_⟩
            -- no other tick has this attempt
            obtain rfl := sound.distinct other executor now tick at_ found named
            obtain rfl : now = tick := Option.some.inj (at_.symm.trans found)
            rcases late with phase | phase <;> rw [phase] <;> rfl
      · exact sound
    · exact sound
  | leave => exact sound.endTick executor

/-- A turn of the runtime API brings nothing that is out of scope. -/
theorem Sound.inScope (sound : σ.Sound) {api : Api} (here : api.Sound σ) {event : Event}
    (allowed : σ.Allows event) (drawn : ∀ id ∈ event.draws, id ∈ σ.taken) :
    api.process.InScope σ.scope event := by
  cases event with
  | direct clock uuid call =>
    exact ⟨rfl, call.fits_of_free (drawn uuid List.mem_cons_self) (fun _ => trivial)
      fun _ => trivial⟩
  | acquire id call => exact allowed
  | release id attemptId ownerId => exact allowed
  | resume clock id answer =>
    intro on found
    have knows := here.calls id on found
    unfold Scope.Hears
    split
    · exact fun _ => (sound.released _ knows).not_needs
    · trivial
  | maintain clock notice =>
    refine ⟨rfl, ?_, Scope.readies rfl rfl notice, fun _ _ => trivial⟩
    unfold Scope.Heeds
    split
    · exact ⟨rfl, fun _ _ => trivial⟩
    · exact allowed.elim
    · trivial
  | interrupt | timer => trivial

/-- Every step keeps the invariant. -/
theorem step_sound (sound : σ.Sound) (event : DeploymentEvent) : (σ.step sha256 event).Sound := by
  have alive (f : Api → Deployment) (works : ∀ api, σ.api = some api → (f api).Sound) :
      (σ.withApi f).Sound := by
    unfold Deployment.withApi
    split
    · exact works _ ‹_›
    · exact sound
  cases event with
  | ledger request =>
    simp only [Deployment.step]
    split
    · exact sound.request request ‹_›
    · exact sound
  | boot settings generation =>
    simp only [Deployment.step]
    split
    · exact sound.withApi fun now here => Option.some.inj here ▸ .fresh settings generation
    · exact sound
  | crash => exact sound.withApi fun now here => by cases here
  | hydrate records classes =>
    refine alive _ fun api here => ?_
    dsimp only
    split
    · rename_i guard
      have more : ∀ id ∈ σ.taken, id ∈ (legacy σ.db classes).map LegacyAttempt.attemptId ++ σ.taken :=
        fun id member => List.mem_append_right _ member
      have taken := sound.take guard.2 more
      have old := taken.api api here
      refine taken.withApi fun now same => ?_
      cases same
      refine ⟨old.calls, old.covering, fun reading read item member => ?_,
        fun reading read item member => ?_, fun reading read _ id need => ?_, old.reconciling,
        old.live⟩
      · cases read
        exact hydrated_known member
      · cases read
        exact List.mem_append_left _ (List.mem_map_of_mem member)
      · cases read
        exact mem_hydrated sound.valid need.2
    · exact sound
  | «open» clock =>
    refine alive _ fun api here => ?_
    dsimp only
    split
    · rename_i reading read
      split
      · rename_i starting
        have old := sound.api api here
        refine sound.withApi fun now same => ?_
        cases same
        -- the pools change by moves, and then the permits that were read are added
        have path : Path σ.scope api.process.scheduler
            (api.process.scheduler.adopt clock reading.records [] []) :=
          adopt_path rfl rfl clock (fun _ _ => trivial) fun _ _ _ _ => trivial
        have adopted := (path.covering (sound.fits _) old.covering).putAll
          (reading.durable.map HydratedAttempt.permit ++ reading.legacy.map LegacyAttempt.permit)
          fun permit member => by
            rcases List.mem_append.mp member with member | member
            · obtain ⟨item, here, rfl⟩ := List.mem_map.mp member
              exact Or.inl ⟨old.durable reading read item here, rfl⟩
            · obtain ⟨item, here, rfl⟩ := List.mem_map.mp member
              exact Or.inr (old.legacy reading read item here)
        obtain ⟨permits, attempts, -⟩ := open_same (api.process.scheduler.adopt clock
          reading.records reading.durable reading.legacy) clock
        have opened := adopted.of_same attempts permits
        refine ⟨old.calls, opened.mono (fun _ known => known) (fun _ member => member) ?_, nofun,
          nofun, nofun, old.reconciling, old.live⟩
        intro id need
        obtain ⟨item, member, rfl⟩ := old.hydrated reading read starting id need.2
        exact Or.inr ⟨item.permit, List.mem_append_left _ (List.mem_map_of_mem member), rfl⟩
      · exact sound
    · exact sound
  | turn event =>
    refine alive _ fun api here => ?_
    split
    · rename_i guard
      have taken := sound.take guard.2.2 fun id member => List.mem_append_right _ member
      have old := taken.api api here
      refine taken.withApi fun now same => ?_
      cases same
      exact old.turn taken (taken.inScope old guard.2.1 fun id member =>
        List.mem_append_left _ member)
    · exact sound
  | readLive =>
    refine alive _ fun api here => ?_
    split
    · rename_i active waiting
      have old := sound.api api here
      refine sound.withApi fun now same => ?_
      cases same
      refine ⟨old.calls, old.covering, old.durable, old.legacy, old.hydrated, old.reconciling,
        fun held found => ⟨active, waiting, fun id member absent => ?_⟩⟩
      cases found
      exact (old.reconciling active waiting id member).imp_left fun known =>
        over_of_not_live known member absent
    · exact sound
  | answerLive clock =>
    refine alive _ fun api here => ?_
    split
    · rename_i held found
      have old := sound.api api here
      obtain ⟨active, waiting, gone⟩ := old.live held found
      have inScope : api.process.InScope σ.scope (.maintain clock (.live held)) := by
        refine ⟨rfl, ?_, rfl, fun _ _ => trivial⟩
        rw [waiting]
        intro id member
        refine ⟨trivial, fun absent need => ?_⟩
        rcases gone id member absent with isOver | member
        · exact isOver.not_holds need.2
        · exact sound.needs_apart need member
      refine sound.withApi fun now same => ?_
      cases same
      exact old.turn sound inScope
    · exact sound
  | tick executor event => exact sound.tickStep executor event

theorem initial_sound (authority : Ledger.Authority) : (initial authority).Sound where
  valid := Ledger.Db.empty_valid
  apart _ member := by cases member
  covered _ member := by cases member
  ticks _ _ here := by cases here
  distinct _ _ _ _ here := by cases here
  released _ member := by cases member
  api _ here := by cases here

/-- Every run keeps the invariant. -/
theorem after_sound (sound : σ.Sound) (events : List DeploymentEvent) :
    (σ.after sha256 events).Sound := by
  induction events generalizing σ with
  | nil => exact sound
  | cons event rest ih => exact ih (step_sound sound event)

/-! ### How a tick came to its engine -/

/-- The attempt is in `SEND_INTENT` and holds compute. -/
def Sent (d : Db) (id : String) : Prop :=
  ∃ a, d.attempts.find? id = some a ∧ a.state = .sendIntent ∧ a.computeHeld = true

/-- A tick has come to its phase by its last event. -/
structure Advanced (σ σ' : Deployment) (executor : ℕ) (event : TickEvent) (tick : Tick) : Prop where
  sent : tick.phase = .marked → Sent σ'.db tick.attemptId
  confirmed : tick.phase = .beaten → event = .heartbeat ∧
    σ.ticks executor = some { tick with phase := .marked } ∧ σ.answers tick.reservation = true
  entered : tick.phase = .executing → σ.ticks executor = some { tick with phase := .beaten }

theorem advance_tick {executor : ℕ} {now next : Phase} {tick : Tick}
    (here : (σ.advance executor now next).ticks executor = some tick) :
    σ.ticks executor = some tick ∨
      (tick.phase = next ∧ σ.ticks executor = some { tick with phase := now }) := by
  unfold Deployment.advance at here
  split at here
  · rename_i old found
    split at here
    · rename_i phase
      rw [ticks_setTick, if_pos rfl] at here
      cases here
      refine Or.inr ⟨rfl, ?_⟩
      rw [found, ← phase]
    · exact Or.inl here
  · exact Or.inl here

theorem perform_tick {executor : ℕ} {now next : Phase} {request : Reservation → Request}
    {tick : Tick} (here : (σ.perform sha256 executor now next request).ticks executor = some tick) :
    σ.ticks executor = some tick ∨ (tick.phase = next ∧ ∃ reply,
      (request tick.reservation).perform sha256 σ.db =
        .ok (reply, (σ.perform sha256 executor now next request).db)) := by
  unfold Deployment.perform at here ⊢
  split at here
  · rename_i old found
    split at here
    · rename_i reply db ran
      split at here
      · rename_i guard
        rw [ticks_setTick, if_pos rfl] at here
        cases here
        refine Or.inr ⟨rfl, reply, ?_⟩
        simp only [ran, if_pos guard]
        rfl
      · exact Or.inl here
    · exact Or.inl here
  · exact Or.inl here

theorem tickStep_tick {executor : ℕ} {event : TickEvent} {tick : Tick}
    (here : (σ.tickStep sha256 executor event).ticks executor = some tick) :
    σ.ticks executor = some tick ∨
      σ.Advanced (σ.tickStep sha256 executor event) executor event tick := by
  -- a phase that is none of the three
  have elsewhere (phase : tick.phase ≠ .marked ∧ tick.phase ≠ .beaten ∧ tick.phase ≠ .executing) :
      σ.Advanced (σ.tickStep sha256 executor event) executor event tick :=
    ⟨fun same => absurd same phase.1, fun same => absurd same phase.2.1,
      fun same => absurd same phase.2.2⟩
  cases event with
  | reserveNext env poolId ownerId =>
    simp only [Deployment.tickStep] at here
    split at here
    · split at here
      · rw [ticks_setTick, if_pos rfl] at here
        cases here
        exact Or.inr (elsewhere ⟨nofun, nofun, nofun⟩)
      · exact Or.inl here
    · exact Or.inl here
  | acquired =>
    refine (@advance_tick σ executor .acquiring .ready tick here).imp_right fun came => ?_
    exact elsewhere (by rw [came.1]; exact ⟨nofun, nofun, nofun⟩)
  | markSend env =>
    have here' : (σ.perform sha256 executor .ready .marked fun reservation =>
      .call env (.markSend reservation)).ticks executor = some tick := here
    refine (perform_tick here').imp_right fun ⟨phase, reply, ran⟩ => ⟨fun _ => ?_, ?_, ?_⟩
    · exact Ledger.sent_of_markSend ran
    · rw [phase]
      exact nofun
    · rw [phase]
      exact nofun
  | heartbeat =>
    simp only [Deployment.tickStep] at here
    split at here
    · rename_i old found
      split at here
      · rename_i guard
        rw [ticks_setTick, if_pos rfl] at here
        cases here
        refine Or.inr ⟨nofun, fun _ => ⟨rfl, ?_, guard.2⟩, nofun⟩
        rw [found, ← guard.1]
      · exact Or.inl here
    · exact Or.inl here
  | execute =>
    refine (@advance_tick σ executor .beaten .executing tick here).imp_right
      fun ⟨phase, was⟩ => ⟨?_, ?_, fun _ => was⟩
    · rw [phase]
      exact nofun
    · rw [phase]
      exact nofun
  | executed =>
    refine (@advance_tick σ executor .executing .finishing tick here).imp_right
      fun came => ?_
    exact elsewhere (by rw [came.1]; exact ⟨nofun, nofun, nofun⟩)
  | computeFinished env =>
    have here' : (σ.perform sha256 executor .finishing .finished fun reservation =>
      .call env (.computeFinished reservation)).ticks executor = some tick := here
    refine (perform_tick here').imp_right fun ⟨phase, _⟩ => ?_
    exact elsewhere (by rw [phase]; exact ⟨nofun, nofun, nofun⟩)
  | release =>
    simp only [Deployment.tickStep] at here
    split at here
    · split at here <;> exact Or.inl here
    · exact Or.inl here
  | raise =>
    simp only [Deployment.tickStep] at here
    split at here
    · rw [ticks_setTick, if_pos rfl] at here
      cases here
      exact Or.inr (elsewhere ⟨nofun, nofun, nofun⟩)
    · exact Or.inl here
  | check =>
    simp only [Deployment.tickStep] at here
    split at here
    · split at here
      · split at here <;> (rw [ticks_setTick, if_pos rfl] at here; cases here)
      · exact Or.inl here
    · exact Or.inl here
  | leave =>
    simp only [Deployment.tickStep, ticks_setTick, if_pos] at here
    cases here

/-- A tick goes on by itself only. -/
theorem tickStep_other {executor other : ℕ} (different : other ≠ executor) (event : TickEvent) :
    (σ.tickStep sha256 executor event).ticks other = σ.ticks other := by
  have set (σ : Deployment) (tick : Option Tick) :
      (σ.setTick executor tick).ticks other = σ.ticks other := by
    rw [ticks_setTick, if_neg different]
  have advanced (now next : Phase) : (σ.advance executor now next).ticks other = σ.ticks other := by
    unfold Deployment.advance
    split
    · split
      · exact set _ _
      · rfl
    · rfl
  have performed (now next : Phase) (request : Reservation → Request) :
      (σ.perform sha256 executor now next request).ticks other = σ.ticks other := by
    unfold Deployment.perform
    split
    · split
      · split
        · exact set _ _
        · rfl
      · rfl
    · rfl
  cases event with
  | acquired | execute | executed => exact advanced _ _
  | markSend env | computeFinished env => exact performed _ _ _
  | reserveNext | heartbeat =>
    simp only [Deployment.tickStep]
    split
    · split
      · exact set _ _
      · rfl
    · rfl
  | release =>
    simp only [Deployment.tickStep]
    split
    · split <;> rfl
    · rfl
  | raise =>
    simp only [Deployment.tickStep]
    split
    · exact set _ _
    · rfl
  | check =>
    simp only [Deployment.tickStep]
    split
    · split
      · split <;> exact set _ _
      · rfl
    · rfl
  | leave => exact set _ _

/-- A tick is where it was, or has advanced by an event of its own. -/
theorem step_tick {executor : ℕ} {event : DeploymentEvent} {tick : Tick}
    (here : (σ.step sha256 event).ticks executor = some tick) :
    σ.ticks executor = some tick ∨ ∃ own, event = .tick executor own ∧
      σ.Advanced (σ.step sha256 event) executor own tick := by
  have alone (f : Api → Deployment) (keeps : ∀ api, (f api).ticks = σ.ticks) :
      (σ.withApi f).ticks = σ.ticks := by
    unfold Deployment.withApi
    split
    · exact keeps _
    · rfl
  cases event with
  | tick other own =>
    by_cases same : executor = other
    · subst same
      exact (tickStep_tick here).imp_right fun advanced => ⟨own, rfl, advanced⟩
    · have here : (σ.tickStep sha256 other own).ticks executor = some tick := here
      rw [tickStep_other same] at here
      exact Or.inl here
  | ledger request =>
    simp only [Deployment.step] at here
    split at here <;> exact Or.inl here
  | boot settings generation =>
    simp only [Deployment.step] at here
    split at here <;> exact Or.inl here
  | crash => exact Or.inl here
  | hydrate records classes =>
    refine Or.inl ((congrFun (alone _ fun api => ?_) executor).symm.trans here)
    dsimp only
    split <;> rfl
  | «open» clock =>
    refine Or.inl ((congrFun (alone _ fun api => ?_) executor).symm.trans here)
    dsimp only
    split
    · split <;> rfl
    · rfl
  | turn event =>
    refine Or.inl ((congrFun (alone _ fun api => ?_) executor).symm.trans here)
    split <;> rfl
  | readLive =>
    refine Or.inl ((congrFun (alone _ fun api => ?_) executor).symm.trans here)
    split <;> rfl
  | answerLive clock =>
    refine Or.inl ((congrFun (alone _ fun api => ?_) executor).symm.trans here)
    split <;> rfl

section Runs

variable {authority : Ledger.Authority} {executor : ℕ} {tick : Tick}

/-- A tick that has marked its send did so in a state in which the attempt was sent. -/
theorem sent_of_marked {events : List DeploymentEvent}
    (here : ((initial authority).after sha256 events).ticks executor = some tick)
    (phase : tick.phase = .marked) :
    ∃ first rest, events = first ++ rest ∧
      Sent ((initial authority).after sha256 first).db tick.attemptId := by
  induction events using List.reverseRecOn with
  | nil => cases here
  | append_singleton before event ih =>
    have here' := here
    rw [after_append] at here'
    rcases step_tick here' with old | ⟨own, -, advanced⟩
    · obtain ⟨first, rest, rfl, sent⟩ := ih old
      exact ⟨first, rest ++ [event], List.append_assoc .., sent⟩
    · refine ⟨before ++ [event], [], (List.append_nil _).symm, ?_⟩
      rw [after_append]
      exact advanced.sent phase

/-- A tick whose final heartbeat was answered had marked its send before. -/
theorem answered_of_beaten {events : List DeploymentEvent}
    (here : ((initial authority).after sha256 events).ticks executor = some tick)
    (phase : tick.phase = .beaten) :
    ∃ first second rest, events = first ++ second ++ .tick executor .heartbeat :: rest ∧
      Sent ((initial authority).after sha256 first).db tick.attemptId ∧
      ((initial authority).after sha256 (first ++ second)).answers tick.reservation = true := by
  induction events using List.reverseRecOn with
  | nil => cases here
  | append_singleton before event ih =>
    have here' := here
    rw [after_append] at here'
    rcases step_tick here' with old | ⟨own, rfl, advanced⟩
    · obtain ⟨first, second, rest, rfl, facts⟩ := ih old
      exact ⟨first, second, rest ++ [event], by simp, facts⟩
    · obtain ⟨rfl, was, answers⟩ := advanced.confirmed phase
      obtain ⟨first, second, rfl, sent⟩ := sent_of_marked was rfl
      exact ⟨first, second, [], rfl, sent, answers⟩

/-- A tick that is in `driver.execute` has had its final heartbeat answered. -/
theorem answered_of_executing {events : List DeploymentEvent}
    (here : ((initial authority).after sha256 events).ticks executor = some tick)
    (phase : tick.phase = .executing) :
    ∃ first second rest, events = first ++ second ++ .tick executor .heartbeat :: rest ∧
      Sent ((initial authority).after sha256 first).db tick.attemptId ∧
      ((initial authority).after sha256 (first ++ second)).answers tick.reservation = true := by
  induction events using List.reverseRecOn with
  | nil => cases here
  | append_singleton before event ih =>
    have here' := here
    rw [after_append] at here'
    rcases step_tick here' with old | ⟨own, -, advanced⟩
    · obtain ⟨first, second, rest, rfl, facts⟩ := ih old
      exact ⟨first, second, rest ++ [event], by simp, facts⟩
    · obtain ⟨first, second, rest, rfl, facts⟩ :=
        answered_of_beaten (advanced.entered phase) rfl
      exact ⟨first, second, rest ++ [event], by simp, facts⟩

/-- An attempt whose final heartbeat was answered is never taken off the record. -/
theorem covered_tickStep {σ : Deployment} {executor : ℕ} {event : TickEvent} {id : String}
    (member : id ∈ σ.covered) : id ∈ (σ.tickStep sha256 executor event).covered := by
  have advanced (now next : Phase) : id ∈ (σ.advance executor now next).covered := by
    unfold Deployment.advance
    split
    · split <;> exact member
    · exact member
  have performed (now next : Phase) (request : Reservation → Request) :
      id ∈ (σ.perform sha256 executor now next request).covered := by
    unfold Deployment.perform
    split
    · split
      · split <;> exact member
      · exact member
    · exact member
  cases event with
  | acquired | execute | executed => exact advanced _ _
  | markSend env | computeFinished env => exact performed _ _ _
  | heartbeat =>
    simp only [Deployment.tickStep]
    split
    · split
      · exact List.mem_cons_of_mem _ member
      · exact member
    · exact member
  | reserveNext | release =>
    simp only [Deployment.tickStep]
    split
    · split <;> exact member
    · exact member
  | raise =>
    simp only [Deployment.tickStep]
    split <;> exact member
  | check =>
    simp only [Deployment.tickStep]
    split
    · split
      · split <;> exact member
      · exact member
    · exact member
  | leave => exact member

theorem covered_step {σ : Deployment} {event : DeploymentEvent} {id : String}
    (member : id ∈ σ.covered) : id ∈ (σ.step sha256 event).covered := by
  have alone (f : Api → Deployment) (keeps : ∀ api, (f api).covered = σ.covered) :
      id ∈ (σ.withApi f).covered := by
    unfold Deployment.withApi
    split
    · rw [keeps]
      exact member
    · exact member
  cases event with
  | tick executor event => exact covered_tickStep member
  | ledger request =>
    simp only [Deployment.step]
    split <;> exact member
  | boot settings generation =>
    simp only [Deployment.step]
    split <;> exact member
  | crash => exact member
  | hydrate records classes | «open» clock | turn event | readLive | answerLive clock =>
    -- what is left of a step is a choice between deployments with the same record
    refine alone _ fun api => ?_
    dsimp -failIfUnchanged only
    repeat' split
    all_goals rfl

theorem covered_after {σ : Deployment} {id : String} (events : List DeploymentEvent)
    (member : id ∈ σ.covered) : id ∈ (σ.after sha256 events).covered := by
  induction events generalizing σ with
  | nil => exact member
  | cons event rest ih => exact ih (covered_step member)

/-- When a tick enters `driver.execute`, its attempt was sent before, and the scheduler that
answered the final heartbeat had its permit. From then on every scheduler that has started
has it, as long as the attempt holds compute. -/
theorem durable_send_covered {events : List DeploymentEvent}
    (here : ((initial authority).after sha256 events).ticks executor = some tick)
    (phase : tick.phase = .executing) :
    (∃ first second rest, events = first ++ second ++ .tick executor .heartbeat :: rest ∧
      Sent ((initial authority).after sha256 first).db tick.attemptId ∧
      ∃ api permit, ((initial authority).after sha256 (first ++ second)).api = some api ∧
        api.started = true ∧ api.permits.find? tick.attemptId = some permit) ∧
    ∀ later api, ((initial authority).after sha256 (events ++ later)).api = some api →
      api.started = true →
      ((initial authority).after sha256 (events ++ later)).db.Holds tick.attemptId →
      api.permits.find? tick.attemptId ≠ none := by
  constructor
  · obtain ⟨first, second, rest, run, sent, answers⟩ := answered_of_executing here phase
    exact ⟨first, second, rest, run, sent, permit_of_answers answers⟩
  · intro later api alive started held
    -- the heartbeat is on record since then, and the invariant says what that means
    have sound := @after_sound sha256 _ (initial_sound authority)
    have confirmed := ((sound events).ticks executor tick here).confirmed (by rw [phase]; rfl)
    have covered := @covered_after sha256 _ _ later confirmed
    rw [← after_append] at covered
    exact ((sound (events ++ later)).api api alive).covering.covers _ ⟨started, covered, held⟩

end Runs

/-! ### A sample deployment -/

/-- The row of the attempt of the sample, as `durable` reads it. -/
def sampleAttempt : LedgerAttempt where
  poolId := "p"
  ownerId := "w"
  engineEpoch := "e"
  state := .reserved
  computeHeld := false
  createdAt := 1000000
  priority := Ledger.Sample.root.priority
  rootDeadline := 100000000
  operation := Ledger.Sample.operation
  operationCreatedAt := 1000000

/-- What the executor of the sample asks for. -/
def sampleCall : DurableCall :=
  ⟨"a", "p", "w", "e", Ledger.Sample.root.priority.workloadClass, 100000000⟩

/-- A runtime API starts, and an executor runs until its attempt is at the engine. -/
def sampleEvents : List DeploymentEvent :=
  [.ledger (.call (Ledger.Sample.env "") (.configurePool (Ledger.Sample.pool "e") 4)),
    .ledger (.call (Ledger.Sample.env "") (.createRoot Ledger.Sample.root)),
    .ledger (.call (Ledger.Sample.env "") (.submitOperation Ledger.Sample.operation)),
    .boot { lease := 30000000 } "boot",
    .hydrate [{ samplePool with
      spec := { samplePool.spec with modelProfile := "m", profileId := "f" } }] fun _ => none,
    .open ⟨0, 1000000⟩,
    .tick 0 (.reserveNext (Ledger.Sample.env "a") "p" "w"),
    .turn (.acquire 0 sampleCall),
    .turn (.resume ⟨1, 1000000⟩ 0 (.attempt (some sampleAttempt))),
    .tick 0 .acquired,
    .tick 0 (.markSend (Ledger.Sample.env "")),
    .tick 0 .heartbeat,
    .tick 0 .execute]

/-- The executor of the sample is at its engine. -/
theorem durable_send_covered_sample :
    ∃ tick, ((initial {}).after Ledger.Sample.sha256 sampleEvents).ticks 0 = some tick ∧
      ∀ later api, ((initial {}).after Ledger.Sample.sha256 (sampleEvents ++ later)).api = some api →
        api.started = true →
        ((initial {}).after Ledger.Sample.sha256 (sampleEvents ++ later)).db.Holds tick.attemptId →
        api.permits.find? tick.attemptId ≠ none := by
  have phase : (((initial {}).after Ledger.Sample.sha256 sampleEvents).ticks 0).map Tick.phase =
      some .executing := by
    decide +kernel
  obtain ⟨tick, here, executing⟩ := Option.map_eq_some_iff.mp phase
  exact ⟨tick, here, (durable_send_covered here executing).2⟩

end Deployment

end IntramindRuntime.Scheduling
