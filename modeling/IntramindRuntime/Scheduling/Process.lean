import IntramindRuntime.Scheduling.Maintenance

/-!
# The runtime API process

Direct calls, durable calls and the maintenance loop interleave at their awaits. A
process is the memory of the scheduler, the durable calls that are suspended, and
the point where the maintenance loop awaits; an event runs one turn.

## Main definitions

* `Process` — the scheduler and its tasks
* `Event`, `Process.step` — one turn of one of the tasks
* `Process.after` — any sequence of turns
-/

namespace IntramindRuntime.Scheduling

open Library

/-- The scheduler and its tasks. -/
structure Process where
  scheduler : MemoryScheduler
  /-- The durable calls in flight. -/
  calls : ℕ → Option Suspended := fun _ => none
  maintenance : Maintenance := .sleeping

/-- What happens next. -/
inductive Event
  | direct (clock : Clock) (uuid : String) (call : DirectCall)
  /-- An executor calls `durable`. -/
  | acquire (id : ℕ) (call : DurableCall)
  /-- An executor calls `durable_release`. -/
  | release (id : ℕ) (attemptId ownerId : String)
  /-- A suspended call gets an answer. -/
  | resume (clock : Clock) (id : ℕ) (answer : Answer)
  /-- A suspended call is cancelled, or what it awaits raises. -/
  | interrupt (id : ℕ)
  | maintain (clock : Clock) (notice : Notice)
  /-- A timer for a dirty pool fires. -/
  | timer (clock : Clock)

/-- What a call is suspended on after a turn, if it is not over. -/
def pending : Except SchedulerError Progress → Option Suspended
  | .ok (.suspended on) => some on
  | _ => none

namespace Process

variable (p : Process)

/-- A turn of a durable call leaves the scheduler changed and the call suspended or over. -/
def turned (id : ℕ) (code : Code Progress) : Process :=
  { p with
    scheduler := code.final p.scheduler
    calls := Function.update p.calls id (pending (code.outcome p.scheduler)) }

/-- One turn. A turn that no task can take changes nothing. -/
def step : Event → Process
  | .direct clock uuid call => { p with scheduler := (call.code clock uuid).final p.scheduler }
  | .acquire id call =>
    match p.calls id with
    | none => { p with calls := Function.update p.calls id (some (.identifying call)) }
    | some _ => p
  | .release id attemptId ownerId =>
    match p.calls id with
    | none => p.turned id (durableRelease attemptId ownerId)
    | some _ => p
  | .resume clock id answer =>
    match p.calls id with
    | some on => p.turned id (resume clock on answer)
    | none => p
  | .interrupt id =>
    match p.calls id with
    | some on => { p with
        scheduler := interrupted on p.scheduler
        calls := Function.update p.calls id none }
    | none => p
  | .maintain clock notice =>
    let turned := maintain clock p.scheduler p.maintenance notice
    { p with scheduler := turned.scheduler, maintenance := turned.next }
  | .timer clock => { p with scheduler := p.scheduler.expireDirty clock.monotonic }

/-- Every event of a sequence meets a condition, in the process it meets. -/
def Throughout (condition : Process → Event → Prop) : Process → List Event → Prop
  | _, [] => True
  | p, event :: events => condition p event ∧ Throughout condition (p.step event) events

instance decidableThroughout {condition : Process → Event → Prop}
    [∀ p event, Decidable (condition p event)] :
    ∀ (p : Process) (events : List Event), Decidable (p.Throughout condition events)
  | _, [] => inferInstanceAs (Decidable True)
  | p, event :: events =>
    have : Decidable (Throughout condition (p.step event) events) :=
      decidableThroughout (p.step event) events
    inferInstanceAs (Decidable (condition p event ∧ Throughout condition (p.step event) events))

/-- Any sequence of turns. -/
def after (p : Process) (events : List Event) : Process := events.foldl step p

@[simp] theorem after_nil : p.after [] = p := rfl

@[simp] theorem after_cons (event : Event) (events : List Event) :
    p.after (event :: events) = (p.step event).after events := rfl

end Process

/-! ## A sample process -/

/-- A pool for two inferences at a time. -/
def samplePool : Pool where
  spec :=
    { poolId := "p", groupId := "g", engineEpoch := "e", profileId := "profile",
      modelProfile := "model", modelRevision := "r1", hardCeiling := 1, target := 1,
      transportLimit := 2, backgroundTransportLimit := 1, work := .llm 1024 }
  epoch := "e"
  health := .healthy
  target := 1
  groupId := "g"
  groupHealth := .healthy
  groupCeiling := 1

/-- A foreground request for it. -/
def sampleRequest (requestId : String) : DirectRequest where
  requestId := requestId
  tenantId := "t"
  payloadDigest := "d"
  modelProfile := "model"
  capacityProfileId := "profile"
  requestBound := 10
  batchSize_le := DirectRequest.single_le
  deadline := 1000
  executionTimeout_bounds := DirectRequest.untimed

/-- A started scheduler that serves it. -/
def sampleScheduler : MemoryScheduler where
  settings := { lease := 30000000 }
  bootGeneration := "boot"
  started := true
  pools := Table.empty.put samplePool
  readyByPool := fun poolId => if poolId = "p" then some 0 else none

/-- Its process. -/
def sampleProcess : Process := { scheduler := sampleScheduler }

/-- Direct calls one after another, each with the identifier a new attempt would get. -/
def sampleCalls (calls : List (String × DirectCall)) : List Event :=
  calls.zipIdx.map fun ((uuid, call), i) => .direct ⟨i, i⟩ uuid call

/-- The reservation of an attempt of a sample request. -/
def sampleReservation (attemptId requestId : String) : DirectReservation :=
  ⟨attemptId, sampleRequest requestId, "p", "e", "proxy", 0⟩

end IntramindRuntime.Scheduling
