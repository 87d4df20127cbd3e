import IntramindRuntime.Contracts
import IntramindRuntime.Library.Json

/-!
# Task contexts

A workflow gets its identity and its lifetime from an envelope. It hands them on in a new
envelope, to itself when it continues as new, and to its children. A chain follows one
workflow through its rollovers, into a child, through the rollovers of that, and so on.

## Main definitions

* `Envelope`, `TaskContext`, `TaskContext.make` — what a run of a workflow is started with,
  and what it makes of it
* `TaskContext.key` — the identity of an operation
* `TaskContext.runChild`, `TaskContext.continueAsNew` — the envelopes that are handed on
* `WorkflowRun`, `WorkflowRun.follow` — chains

## Main results

* `WorkflowRun.follow_rollover`, `WorkflowRun.follow_child` — what one envelope hands on
* `WorkflowRun.chain_keeps` — what whole chains keep
-/

namespace IntramindRuntime.Workflow

open Library

/-! ### Envelopes -/

/-- A `datetime`: an instant, and the offset of its time zone unless it is naive. -/
structure Moment where
  instant : Time
  offset : Option Time := some 0
  deriving DecidableEq, Repr

/-- The moment has a time zone. -/
def Moment.aware (moment : Moment) : Bool := moment.offset.isSome

/-- `min` of two moments: the second one only if it is earlier. -/
def Moment.first (a b : Moment) : Moment := if b.instant < a.instant then b else a

/-- A moment and a number of seconds. -/
def Moment.plus (moment : Moment) (seconds : ℕ) : Moment :=
  { moment with instant := moment.instant + seconds * 1000000 }

/-- The finite bounds of a handler. -/
structure TaskPolicy where
  maxIterations : ℕ
  deadlineSeconds : ℕ := 86400
  childWindow : ℕ := 32
  maxRollovers : ℕ := 32
  iterates : 0 < maxIterations := by decide
  lasts : 0 < deadlineSeconds := by decide
  windowed : 1 ≤ childWindow ∧ childWindow ≤ 64 := by decide
  rolls : maxRollovers ≤ 1000 := by decide

/-- Events by their keys. -/
abbrev Events := String → Option Json

/-- The signal handler: a later event replaces an earlier one. -/
def Events.deliver (events : Events) (key : String) (value : Json) : Events :=
  Function.update events key (some value)

/-- Signals in the order of their arrival. -/
def Events.deliverAll (events : Events) (signals : List (String × Json)) : Events :=
  signals.foldl (fun events signal => events.deliver signal.1 signal.2) events

/-- `carried | early`. -/
def Events.union (carried early : Events) : Events := fun key => (early key).or (carried key)

/-- What a run of a workflow is started with. -/
structure Envelope where
  rootId : String
  tenantId : String
  configuration : Option Artifact := none
  childPath : List String := []
  deadline : Moment
  controlQueue : String
  startedAt : Option Moment := none
  rollovers : ℤ := 0
  pendingEvents : Events := fun _ => none
  input : Json

/-- What the workflow service says about a run. -/
structure RunInfo where
  startTime : Moment
  taskQueue : String

/-- The context of a run. Its bounds have been checked. -/
structure TaskContext where
  rootId : String
  tenantId : String
  configuration : Option Artifact
  path : List String
  deadline : Moment
  policy : TaskPolicy
  controlQueue : String
  taskQueue : String
  startedAt : Moment
  rollovers : ℕ
  activeCommands : ℕ := 0
  events : Events := fun _ => none
  shallow : path.length ≤ 64 ∧ ∀ part ∈ path, part ≠ ""
  aware : deadline.aware = true ∧ startedAt.aware = true
  within : deadline.instant ≤ (startedAt.plus policy.deadlineSeconds).instant
  bounded : rollovers ≤ policy.maxRollovers

theorem Moment.first_le_left (a b : Moment) : (a.first b).instant ≤ a.instant := by
  unfold first
  split
  · exact le_of_lt ‹_›
  · exact le_rfl

theorem Moment.first_le_right (a b : Moment) : (a.first b).instant ≤ b.instant := by
  unfold first
  split
  · exact le_rfl
  · exact not_lt.mp ‹_›

theorem Moment.first_of_le {a b : Moment} (sooner : a.instant ≤ b.instant) : a.first b = a :=
  if_neg (not_lt.mpr sooner)

theorem Moment.first_aware {a b : Moment} (left : a.aware = true) (right : b.aware = true) :
    (a.first b).aware = true := by
  unfold first
  split
  · exact right
  · exact left

namespace TaskContext

/-- The constructor of a context. -/
def make (envelope : Envelope) (policy : TaskPolicy) (info : RunInfo) :
    Except String TaskContext :=
  let startedAt := envelope.startedAt.getD info.startTime
  if shallow : envelope.childPath.length ≤ 64 ∧ ∀ part ∈ envelope.childPath, part ≠ "" then
    if deadlineAware : envelope.deadline.aware = true then
      if startAware : startedAt.aware = true then
        if counted : 0 ≤ envelope.rollovers ∧ envelope.rollovers ≤ policy.maxRollovers then
          .ok
            { rootId := envelope.rootId
              tenantId := envelope.tenantId
              configuration := envelope.configuration
              path := envelope.childPath
              deadline := envelope.deadline.first (startedAt.plus policy.deadlineSeconds)
              policy
              controlQueue := envelope.controlQueue
              taskQueue := info.taskQueue
              startedAt
              rollovers := envelope.rollovers.toNat
              shallow
              aware := ⟨Moment.first_aware deadlineAware startAware, startAware⟩
              within := Moment.first_le_right _ _
              bounded := Int.toNat_le.mpr counted.2 }
        else .error "invalid workflow rollover count"
      else .error "workflow start time must include timezone"
    else .error "workflow deadline must include timezone"
  else .error "child path must contain at most 64 nonempty identity components"

variable (sha256 : List Char → String) (ctx : TaskContext)

/-- The identity of an operation. -/
def key (key : String) : Except String String :=
  if key = "" ∨ 1024 < key.toList.length then .error "stable operation key required"
  else .ok (sha256
    (Json.dumps (.arr [.str ctx.rootId, .arr (ctx.path.map .str), .str key])))

/-- The time that is left. -/
def remaining (now : Time) : Except String Time :=
  if ctx.deadline.instant - now ≤ 0 then .error "workflow deadline exceeded"
  else .ok (ctx.deadline.instant - now)

/-- The command that starts a child. -/
structure ChildStart where
  taskType : String
  envelope : Envelope
  id : String
  taskQueue : String
  executionTimeout : Time

/-- Start a child. -/
def runChild (now : Time) (taskType taskQueue key : String) (inputs : Json) :
    Except String ChildStart :=
  if 64 ≤ ctx.path.length then .error "child workflow depth limit exceeded"
  else do
    let id ← ctx.key sha256 key
    let executionTimeout ← ctx.remaining now
    return {
      taskType
      envelope :=
        { rootId := ctx.rootId
          tenantId := ctx.tenantId
          childPath := ctx.path ++ [key]
          deadline := ctx.deadline
          controlQueue := ctx.controlQueue
          input := inputs
          configuration := ctx.configuration }
      id
      taskQueue
      executionTimeout }

/-- Roll the history over. How many bytes the text of an envelope has is left open. -/
def continueAsNew (manifestBytes : Envelope → ℕ) (now : Time) (checkpoint : Json) :
    Except String Envelope :=
  if ctx.activeCommands ≠ 0 then
    .error "cannot roll over while activities, children or waits are active"
  else if ctx.policy.maxRollovers ≤ ctx.rollovers then
    .error "workflow rollover budget exhausted"
  else do
    let _ ← ctx.remaining now
    let envelope : Envelope :=
      { rootId := ctx.rootId
        tenantId := ctx.tenantId
        childPath := ctx.path
        deadline := ctx.deadline
        startedAt := some ctx.startedAt
        controlQueue := ctx.controlQueue
        rollovers := ctx.rollovers + 1
        pendingEvents := ctx.events
        input := checkpoint
        configuration := ctx.configuration }
    if 64 * 1024 < manifestBytes envelope then
      .error "rollover manifest exceeds 64 KiB; persist large values as artifacts"
    else return envelope

/-- `run` of a durable task, up to its handler. Some signals were handled before. -/
def start (envelope : Envelope) (policy : TaskPolicy) (info : RunInfo)
    (early : List (String × Json)) : Except String TaskContext := do
  let ctx ← make envelope policy info
  return { ctx with
    events := envelope.pendingEvents.union (Events.deliverAll (fun _ => none) early) }

end TaskContext

/-! ### Chains -/

/-- A run of a workflow, and how often the workflow has rolled over so far. -/
structure WorkflowRun where
  context : TaskContext
  rolled : ℕ := 0

/-- The next step of a chain. -/
inductive Link
  | signal (key : String) (value : Json)
  /-- `wait_event` returns. -/
  | consume (key : String)
  /-- A command begins. -/
  | enter
  /-- A command ends. -/
  | leave
  /-- The workflow continues as new; some signals are handled before the new run begins. -/
  | rollover (now : Time) (checkpoint : Json) (info : RunInfo) (early : List (String × Json))
  /-- The chain goes on in a child. -/
  | child (now : Time) (taskType taskQueue key : String) (inputs : Json) (policy : TaskPolicy)
      (info : RunInfo) (early : List (String × Json))

namespace WorkflowRun

variable (sha256 : List Char → String) (manifestBytes : Envelope → ℕ) (run : WorkflowRun)

/-- One step of a chain. -/
def follow : Link → Except String WorkflowRun
  | .signal key value =>
    .ok { run with context := { run.context with events := run.context.events.deliver key value } }
  | .consume key =>
    .ok { run with
      context := { run.context with events := Function.update run.context.events key none } }
  | .enter =>
    .ok { run with
      context := { run.context with activeCommands := run.context.activeCommands + 1 } }
  | .leave =>
    .ok { run with
      context := { run.context with activeCommands := run.context.activeCommands - 1 } }
  | .rollover now checkpoint info early => do
    let envelope ← run.context.continueAsNew manifestBytes now checkpoint
    let context ← TaskContext.start envelope run.context.policy info early
    return { context, rolled := run.rolled + 1 }
  | .child now taskType taskQueue key inputs policy info early => do
    let child ← run.context.runChild sha256 now taskType taskQueue key inputs
    let context ← TaskContext.start child.envelope policy info early
    return { context }

/-- A chain. -/
def followAll (run : WorkflowRun) : List Link → Except String WorkflowRun
  | [] => .ok run
  | link :: rest => do
    let next ← run.follow sha256 manifestBytes link
    next.followAll rest

/-! ### What is handed on -/

/-- A computation that does not raise gets its values from computations that do not. -/
theorem ok_of_bind {ε α β : Type} {x : Except ε α} {f : α → Except ε β} {b : β}
    (ran : x >>= f = .ok b) : ∃ a, x = .ok a ∧ f a = .ok b := by
  cases x with
  | error e => cases ran
  | ok a => exact ⟨a, rfl, ran⟩

variable {sha256 manifestBytes run} {next : WorkflowRun}

/-- What the constructor takes from an envelope. -/
structure Reads (ctx : TaskContext) (envelope : Envelope) (policy : TaskPolicy)
    (info : RunInfo) : Prop where
  root : ctx.rootId = envelope.rootId ∧ ctx.tenantId = envelope.tenantId
  path : ctx.path = envelope.childPath
  configuration : ctx.configuration = envelope.configuration
  controlQueue : ctx.controlQueue = envelope.controlQueue
  sameBounds : ctx.policy = policy
  startedAt : ctx.startedAt = envelope.startedAt.getD info.startTime
  deadline : ctx.deadline = envelope.deadline.first (ctx.startedAt.plus policy.deadlineSeconds)
  rollovers : (ctx.rollovers : ℤ) = envelope.rollovers

theorem reads_of_start {envelope : Envelope} {policy : TaskPolicy} {info : RunInfo}
    {early : List (String × Json)} {ctx : TaskContext}
    (started : TaskContext.start envelope policy info early = .ok ctx) :
    Reads ctx envelope policy info ∧
      ctx.events = envelope.pendingEvents.union (Events.deliverAll (fun _ => none) early) := by
  obtain ⟨made, make, rest⟩ := ok_of_bind started
  cases rest
  unfold TaskContext.make at make
  simp only at make
  split at make
  · split at make
    · split at make
      · split at make
        · rename_i counted
          cases make
          exact ⟨⟨⟨rfl, rfl⟩, rfl, rfl, rfl, rfl, rfl, rfl, Int.toNat_of_nonneg counted.1⟩, rfl⟩
        · cases make
      · cases make
    · cases make
  · cases make

/-- What a rollover keeps of the old context. -/
structure Continues (old new : TaskContext) : Prop where
  root : new.rootId = old.rootId ∧ new.tenantId = old.tenantId
  path : new.path = old.path
  configuration : new.configuration = old.configuration
  controlQueue : new.controlQueue = old.controlQueue
  policy : new.policy = old.policy
  startedAt : new.startedAt = old.startedAt
  deadline : new.deadline = old.deadline
  rollovers : new.rollovers = old.rollovers + 1

/-- A rollover keeps the identity and the lifetime. Early events win over carried ones. -/
theorem follow_rollover {now : Time} {checkpoint : Json} {info : RunInfo}
    {early : List (String × Json)}
    (followed : run.follow sha256 manifestBytes (.rollover now checkpoint info early) = .ok next) :
    Continues run.context next.context ∧ next.rolled = run.rolled + 1 ∧
      next.context.events =
        run.context.events.union (Events.deliverAll (fun _ => none) early) := by
  obtain ⟨envelope, rolled, rest⟩ := ok_of_bind followed
  obtain ⟨context, started, rest⟩ := ok_of_bind rest
  cases rest
  unfold TaskContext.continueAsNew at rolled
  split at rolled
  · cases rolled
  split at rolled
  · cases rolled
  obtain ⟨left, -, rolled⟩ := ok_of_bind rolled
  simp only at rolled
  split at rolled
  · cases rolled
  cases rolled
  obtain ⟨reads, events⟩ := reads_of_start started
  -- the old deadline was within the policy already, so the minimum changes nothing
  have startedAt : context.startedAt = run.context.startedAt := reads.startedAt
  have deadline : context.deadline = run.context.deadline := by
    rw [reads.deadline, startedAt]
    exact Moment.first_of_le run.context.within
  exact ⟨⟨reads.root, reads.path, reads.configuration, reads.controlQueue, reads.sameBounds,
    startedAt, deadline, Int.ofNat_inj.mp reads.rollovers⟩, rfl, events⟩

theorem Continues.key {old new : TaskContext} (continues : Continues old new) (key : String) :
    new.key sha256 key = old.key sha256 key := by
  unfold TaskContext.key
  rw [continues.root.1, continues.path]

/-- A child gets the path of its parent and its key, and no more time. -/
theorem follow_child {now : Time} {taskType taskQueue key : String} {inputs : Json}
    {policy : TaskPolicy} {info : RunInfo} {early : List (String × Json)}
    (followed : run.follow sha256 manifestBytes
      (.child now taskType taskQueue key inputs policy info early) = .ok next) :
    next.context.path = run.context.path ++ [key] ∧
      next.context.rootId = run.context.rootId ∧ next.context.tenantId = run.context.tenantId ∧
      next.context.deadline.instant ≤ run.context.deadline.instant ∧ next.rolled = 0 := by
  obtain ⟨child, begun, rest⟩ := ok_of_bind followed
  obtain ⟨context, started, rest⟩ := ok_of_bind rest
  cases rest
  unfold TaskContext.runChild at begun
  split at begun
  · cases begun
  obtain ⟨id, -, begun⟩ := ok_of_bind begun
  obtain ⟨left, -, begun⟩ := ok_of_bind begun
  cases begun
  obtain ⟨reads, -⟩ := reads_of_start started
  refine ⟨reads.path, reads.root.1, reads.root.2, ?_, rfl⟩
  rw [reads.deadline]
  exact Moment.first_le_left _ _

/-- What holds in every run of a chain. -/
structure Within (root : Envelope) (run : WorkflowRun) : Prop where
  identity : run.context.rootId = root.rootId ∧ run.context.tenantId = root.tenantId
  deadline : run.context.deadline.instant ≤ root.deadline.instant
  rolled : run.rolled ≤ run.context.rollovers

theorem Within.follow {root : Envelope} (within : Within root run) {link : Link}
    (followed : run.follow sha256 manifestBytes link = .ok next) : Within root next := by
  cases link with
  | signal key value | consume key | enter | leave =>
    cases followed
    exact ⟨within.identity, within.deadline, within.rolled⟩
  | rollover now checkpoint info early =>
    obtain ⟨continues, rolled, -⟩ := follow_rollover followed
    refine ⟨⟨continues.root.1.trans within.identity.1, continues.root.2.trans within.identity.2⟩,
      ?_, ?_⟩
    · rw [continues.deadline]
      exact within.deadline
    · rw [rolled, continues.rollovers]
      exact Nat.succ_le_succ within.rolled
  | child now taskType taskQueue key inputs policy info early =>
    obtain ⟨-, rootId, tenantId, sooner, rolled⟩ := follow_child followed
    refine ⟨⟨rootId.trans within.identity.1, tenantId.trans within.identity.2⟩,
      sooner.trans within.deadline, ?_⟩
    rw [rolled]
    exact Nat.zero_le _

theorem Within.followAll {root : Envelope} (within : Within root run) {links : List Link}
    (followed : run.followAll sha256 manifestBytes links = .ok next) : Within root next := by
  induction links generalizing run with
  | nil =>
    cases followed
    exact within
  | cons link rest ih =>
    obtain ⟨middle, first, later⟩ := ok_of_bind followed
    exact ih (within.follow first) later

/-- The last value of a signal. -/
theorem deliverAll_eq (events : Events) (signals : List (String × Json)) (key : String) :
    events.deliverAll signals key = (signals.reverse.lookup key).or (events key) := by
  induction signals generalizing events with
  | nil => rfl
  | cons signal rest ih =>
    refine (ih _).trans ?_
    rw [List.reverse_cons, List.lookup_append, Option.or_assoc]
    congr 1
    change Function.update events signal.1 (some signal.2) key = _
    rcases eq_or_ne key signal.1 with rfl | different
    · rw [Function.update_self, List.lookup_cons, beq_self_eq_true]
      rfl
    · rw [Function.update_of_ne different, List.lookup_cons, beq_eq_false_iff_ne.mpr different]
      rfl

/-- A chain that starts with an accepted envelope keeps the identity and the lifetime of its
root. A rollover changes nothing but the events that were signalled early, and a child adds
its key to the path. -/
theorem chain_keeps {root : Envelope} {policy : TaskPolicy} {info : RunInfo}
    {early : List (String × Json)} {first : TaskContext} {links : List Link}
    (started : TaskContext.start root policy info early = .ok first)
    (chain : WorkflowRun.followAll sha256 manifestBytes ⟨first, 0⟩ links = .ok run) :
    run.context.rootId = root.rootId ∧ run.context.tenantId = root.tenantId ∧
    run.context.deadline.instant ≤ root.deadline.instant ∧
    run.rolled ≤ run.context.policy.maxRollovers ∧
    (∀ now checkpoint info early next,
      run.follow sha256 manifestBytes (.rollover now checkpoint info early) = .ok next →
      Continues run.context next.context ∧
      (∀ key, next.context.key sha256 key = run.context.key sha256 key) ∧
      ∀ key, next.context.events key = (early.reverse.lookup key).or (run.context.events key)) ∧
    ∀ now taskType taskQueue key inputs policy info early next,
      run.follow sha256 manifestBytes
        (.child now taskType taskQueue key inputs policy info early) = .ok next →
      next.context.path = run.context.path ++ [key] ∧
      next.context.deadline.instant ≤ run.context.deadline.instant := by
  have reads := (reads_of_start started).1
  have origin : Within root ⟨first, 0⟩ := by
    refine ⟨reads.root, ?_, Nat.zero_le _⟩
    change first.deadline.instant ≤ _
    rw [reads.deadline]
    exact Moment.first_le_left _ _
  have within := origin.followAll chain
  refine ⟨within.identity.1, within.identity.2, within.deadline,
    within.rolled.trans run.context.bounded, ?_, ?_⟩
  · intro now checkpoint info early next followed
    obtain ⟨continues, -, events⟩ := follow_rollover followed
    refine ⟨continues, continues.key, fun key => ?_⟩
    rw [events, Events.union, deliverAll_eq, Option.or_none]
  · intro now taskType taskQueue key inputs policy info early next followed
    obtain ⟨path, -, -, sooner, -⟩ := follow_child followed
    exact ⟨path, sooner⟩

/-- The envelope of a sample root, which may last an hour. -/
def sampleRoot : Envelope where
  rootId := "r"
  tenantId := "t"
  deadline := ⟨3600000000, some 0⟩
  controlQueue := "control"
  input := .obj []

/-- A workflow gets a signal, rolls over, and calls a child. -/
def sampleChain (policy : TaskPolicy) : List Link :=
  let info : RunInfo := ⟨⟨1000000, some 0⟩, "tasks"⟩
  [.signal "review" (.bool true), .rollover 1000000 (.obj []) info [("late", .null)],
    .child 2000000 "feature/v1" "tasks" "item" (.obj []) policy info []]

/-- The context in which the chain of the sample begins. -/
def sampleStart : Except String TaskContext :=
  TaskContext.start sampleRoot { maxIterations := 1 } ⟨⟨0, some 0⟩, "tasks"⟩ []

/-- The chain of the sample. -/
def sampleRun (first : TaskContext) : Except String WorkflowRun :=
  WorkflowRun.followAll (fun text => String.ofList text) (fun _ => 100) ⟨first, 0⟩
    (sampleChain { maxIterations := 1 })

theorem chain_keeps_sample : ∃ first run, sampleStart = .ok first ∧ sampleRun first = .ok run ∧
    run.context.deadline.instant ≤ 3600000000 := by
  have ends : (sampleStart >>= sampleRun).isOk = true := by decide +kernel
  cases ran : sampleStart >>= sampleRun with
  | error e =>
    rw [ran] at ends
    cases ends
  | ok run =>
    obtain ⟨first, started, chain⟩ := ok_of_bind ran
    exact ⟨first, run, started, chain, (chain_keeps started chain).2.2.1⟩

end WorkflowRun

end IntramindRuntime.Workflow
