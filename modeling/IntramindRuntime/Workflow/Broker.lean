import IntramindRuntime.Ledger.Events
import IntramindRuntime.Ledger.Results

/-!
# The broker

The workflow service runs the workflows, and their activities wait for operations of the ledger.
What it has to be told is in the outbox: a run is to be started or cancelled, an activity is to be
completed. Publishers claim the events and deliver them, beside each other and beside all other
requests. They may be slow, lose an answer or stop at any point, and so an event may be delivered
several times. But whatever the service is asked is so, no activity hears two stories, and an event
that is marked as delivered was told.

## Main definitions

* `Rpc`, `bindingReport` — what the service is asked, and what an activity is told
* `Delivery`, `Broker` — one delivery of an event, and all of them beside the ledger
* `Broker.step`, `Broker.run` — the steps of `_publish`, of the service and of other requests
* `Rpc.Holds` — what the service was asked is so
* `Faithful` — the invariant of the broker

## Main results

* `onward_of_request` — what the service was asked stays so
* `Faithful.step` — one step of the broker
* `broker_faithful` — what holds after any run of the broker
-/

namespace IntramindRuntime.Workflow

open Library Ledger

/-! ### What the service is asked -/

/-- A request to the workflow service. -/
inductive Rpc
  | startWorkflow (workflowId : String) (spec : RunSpec)
  | cancelWorkflow (workflowId : String)
  | complete (taskToken : String) (result : Option Artifact)
  | reportCancellation (taskToken : String)
  | fail (taskToken reason : String)
  deriving DecidableEq

namespace Rpc

/-- The activity that a request is about. -/
def taskToken : Rpc → Option String
  | startWorkflow .. | cancelWorkflow _ => none
  | complete taskToken _ | reportCancellation taskToken | fail taskToken _ => some taskToken

/-- How the operation ended that an activity waits for, as the activity is told. -/
def outcome : Rpc → Option (OperationState × Option Artifact)
  | startWorkflow .. | cancelWorkflow _ => none
  | complete _ result => some (.succeeded, result)
  | reportCancellation _ => some (.cancelled, none)
  | fail .. => some (.failed, none)

end Rpc

/-- What an activity is told about the operation that it waits for, once that has ended. -/
def report (taskToken : String) (op : OperationRow) : Option Rpc :=
  match op.state with
  | .succeeded => some (.complete taskToken op.result)
  | .cancelled => some (.reportCancellation taskToken)
  | .failed =>
    let reason := op.waitReason.getD ""
    some (.fail taskToken (if reason = "" then "operation_failed" else reason))
  | _ => none

/-- `binding`, and what `_deliver` makes of it. -/
def bindingReport (d : Db) (bindingId : String) : Option Rpc := do
  let binding ← d.bindings.find? bindingId
  let op ← d.operations.find? binding.operationId
  report binding.taskToken op

/-! ### Deliveries -/

/-- How far `_publish` has come with an event. -/
inductive Stage
  | claimed
  | asking (rpc : Rpc)
  | handled
  | raised
  | over
  deriving DecidableEq

/-- An event as it was claimed, in the hands of a publisher. -/
structure Delivery where
  event : OutboxRow
  ownerId : String
  stage : Stage := .claimed

/-- How a request to the service ends. -/
inductive Ending
  | done
  | notFound
  | alreadyStarted
  | failed
  deriving DecidableEq

/-- What happens to a delivery. What is committed may go unanswered. -/
inductive Act
  | deliver (env : Env) (answered : Bool)
  | answer (ending : Ending)
  | acknowledge (env : Env) (answered : Bool)
  | raises
  | defers (env : Env) (delay : Time)
  | drop

/-- One thing that happens. A request to the service may arrive long after it was made, even if
its publisher has given it up. -/
inductive Step
  | request (request : Request)
  | claim (env : Env) (ownerId : String) (limit : ℕ)
  | attend (i : ℕ) (act : Act)
  | arrive (rpc : Rpc)

/-- Only publishers claim, acknowledge and defer events. -/
def ofPublisher : Request → Bool
  | .call _ asked => asked.mails
  | .reconcileExpired .. => false

/-- The ledger, all deliveries, the requests that were made to the service, and those that have
arrived. `expired` lists the runs that publishers have ended because their deadline had
passed. -/
structure Broker where
  ledger : Db
  deliveries : List Delivery := []
  made : List Rpc := []
  service : List Rpc := []
  expired : List String := []

namespace Broker

/-- A delivery goes on to another stage. -/
def goOn (σ : Broker) (i : ℕ) (delivery : Delivery) (stage : Stage) : Broker :=
  { σ with deliveries := σ.deliveries.set i { delivery with stage } }

/-- A publisher asks the service. -/
def ask (σ : Broker) (i : ℕ) (delivery : Delivery) (rpc : Rpc) : Broker :=
  { σ.goOn i delivery (.asking rpc) with made := rpc :: σ.made }

variable (sha256 : String → String) (tenantOf : RunSpec → String)

/-- The run of an event ends because its deadline has passed. -/
def expire (σ : Broker) (i : ℕ) (delivery : Delivery) (spec : RunSpec) (env : Env)
    (answered : Bool) : Broker :=
  let rootId := delivery.event.aggregateId
  let finish := Request.call env
    (.finishRun rootId (tenantOf spec) .failed none (some "deadline_exceeded"))
  match finish.perform sha256 σ.ledger with
  | .ok (_, ledger) =>
    { σ.goOn i delivery (if answered then .handled else .raised) with
      ledger
      expired := rootId :: σ.expired }
  | .error _ => σ.goOn i delivery .raised

/-- `_deliver`, up to its request to the service. `tenantOf` reads the tenant in the input of
a run. -/
def deliver (σ : Broker) (i : ℕ) (delivery : Delivery) (env : Env) (answered : Bool) : Broker :=
  let event := delivery.event
  match event.kind, event.payload with
  | .startWorkflow, .intent spec =>
    match spec.deadline with
    | some (.accepted deadline) =>
      if deadline ≤ env.now then σ.expire sha256 tenantOf i delivery spec env answered
      else σ.ask i delivery (.startWorkflow event.aggregateId spec)
    | _ => σ.goOn i delivery .raised
  | .cancelWorkflow, _ => σ.ask i delivery (.cancelWorkflow event.aggregateId)
  | .completeActivity, .binding bindingId =>
    match bindingReport σ.ledger bindingId with
    | some rpc => σ.ask i delivery rpc
    | none => σ.goOn i delivery .raised
  | _, _ => σ.goOn i delivery .raised

/-- A request arrives at the service. -/
def hear (σ : Broker) (rpc : Rpc) : Broker := { σ with service := rpc :: σ.service }

/-- The service answers. That an activity does not wait any more is no error, and neither is
that a workflow has been started before. -/
def answer (σ : Broker) (i : ℕ) (delivery : Delivery) (rpc : Rpc) : Ending → Broker
  | .done => (σ.hear rpc).goOn i delivery .handled
  | .notFound =>
    (σ.hear rpc).goOn i delivery
      (if delivery.event.kind = .completeActivity then .handled else .raised)
  | .alreadyStarted =>
    (σ.hear rpc).goOn i delivery
      (if delivery.event.kind = .startWorkflow then .handled else .raised)
  | .failed => σ.goOn i delivery .raised

/-- A request that is part of a delivery. -/
def serve (σ : Broker) (request : Request) : Broker :=
  { σ with ledger := request.after sha256 σ.ledger }

/-- `_publish`, step by step. -/
def attend (σ : Broker) (i : ℕ) (delivery : Delivery) : Act → Broker
  | .deliver env answered =>
    match delivery.stage with
    | .claimed => σ.deliver sha256 tenantOf i delivery env answered
    | _ => σ
  | .answer ending =>
    match delivery.stage with
    | .asking rpc => σ.answer i delivery rpc ending
    | _ => σ
  | .acknowledge env answered =>
    match delivery.stage with
    | .handled =>
      (σ.goOn i delivery (if answered then .over else .raised)).serve sha256 (.call env
        (.delivered delivery.event.eventId delivery.ownerId delivery.event.deliveries))
    | _ => σ
  | .raises => if delivery.stage = .over then σ else σ.goOn i delivery .raised
  | .defers env delay =>
    match delivery.stage with
    | .raised =>
      (σ.goOn i delivery .over).serve sha256 (.call env
        (.deferEvent delivery.event.eventId delivery.ownerId delivery.event.deliveries delay))
    | _ => σ
  | .drop => σ.goOn i delivery .over

/-- One step. -/
def step (σ : Broker) : Step → Broker
  | .request request => if ofPublisher request then σ else σ.serve sha256 request
  | .claim env ownerId limit =>
    match (Request.call env (.claimEvents ownerId limit)).perform sha256 σ.ledger with
    | .ok (.events rows, ledger) =>
      { σ with ledger, deliveries := σ.deliveries ++ rows.map fun event => { event, ownerId } }
    | _ => σ
  | .attend i act =>
    match σ.deliveries[i]? with
    | some delivery => σ.attend sha256 tenantOf i delivery act
    | none => σ
  | .arrive rpc => if rpc ∈ σ.made then σ.hear rpc else σ

/-- A run. -/
def run (σ : Broker) (steps : List Step) : Broker := steps.foldl (step sha256 tenantOf) σ

end Broker

/-! ### What was asked stays so -/

section Onward

variable {sha256 : String → String} {authority : Authority} {d d' d'' : Db}

/-- The operation that an activity waits for. -/
def Awaits (sha256 : String → String) (d : Db) (taskToken : String) (op : OperationRow) : Prop :=
  ∃ binding, d.bindings.find? (sha256 taskToken) = some binding ∧
    binding.taskToken = taskToken ∧ d.operations.find? binding.operationId = some op

/-- What the service is asked is so. -/
def Rpc.Holds (sha256 : String → String) (d : Db) : Rpc → Prop
  | .startWorkflow workflowId spec => ∃ submission root,
      d.submissions.find? workflowId = some submission ∧ d.roots.find? workflowId = some root ∧
        spec = { submission.spec with deadline := some (.accepted root.spec.deadline) }
  | .cancelWorkflow workflowId => ∃ root,
      d.roots.find? workflowId = some root ∧ root.cancelRequested = true
  | .complete taskToken result => ∃ op,
      Awaits sha256 d taskToken op ∧ op.state = .succeeded ∧ op.result = result
  | .reportCancellation taskToken => ∃ op, Awaits sha256 d taskToken op ∧ op.state = .cancelled
  | .fail taskToken _ => ∃ op, Awaits sha256 d taskToken op ∧ op.state = .failed

/-- How the ledger goes on. -/
structure Onward (d d' : Db) : Prop where
  setting : settingKept.Keeps d d'
  ended : ∀ id op, d.operations.find? id = some op → op.state.terminal = true → ∃ op',
    d'.operations.find? id = some op' ∧ op'.state = op.state ∧
      (op.state = .succeeded → op'.result = op.result)
  closed : ∀ id root, d.roots.find? id = some root → root.state ≠ .running → ∃ root',
    d'.roots.find? id = some root' ∧ root'.state ≠ .running

theorem onward_of_request (request : Request) (valid : d.book.Valid) :
    Onward d (request.after sha256 d) where
  setting := request.keeps_of_code fun _ _ _ => keepsSetting _
  ended id op found terminal := by
    have path : Path (request.allows d) d.book (request.after sha256 d).book :=
      request.refines valid
    obtain ⟨task, found', same⟩ := path.keeps_terminal (Db.book_task_of_found found) terminal
    obtain ⟨op', here, rfl⟩ := Option.map_eq_some_iff.mp found'
    refine ⟨op', here, same, fun succeeded => ?_⟩
    obtain ⟨op'', there, -, result⟩ := (request.remembers valid).result id op found succeeded
    obtain rfl := Option.some.inj (here.symm.trans there)
    exact result
  closed _ _ := request.keeps_over valid

theorem Awaits.later (onward : Onward d d') {taskToken : String} {op : OperationRow}
    (awaits : Awaits sha256 d taskToken op) (terminal : op.state.terminal = true) : ∃ op',
      Awaits sha256 d' taskToken op' ∧ op'.state = op.state ∧
        (op.state = .succeeded → op'.result = op.result) := by
  obtain ⟨binding, bound, token, found⟩ := awaits
  obtain ⟨op', found', state, result⟩ := onward.ended _ op found terminal
  have bound' := RowGrowth.find?_of_immutable (T := trackedBindings)
    onward.setting.right.left bound
  exact ⟨op', ⟨binding, bound', token, found'⟩, state, result⟩

/-- What the service was asked stays so. -/
theorem Rpc.Holds.later (onward : Onward d d') {rpc : Rpc} (holds : rpc.Holds sha256 d) :
    rpc.Holds sha256 d' := by
  have root {id : String} {old : RootRow} (found : d.roots.find? id = some old) :=
    RowGrowth.follows_of_keeps (T := trackedRoots) onward.setting.right.right found
  cases rpc with
  | startWorkflow =>
    obtain ⟨submission, old, submitted, found, same⟩ := holds
    obtain ⟨new, found', spec, -⟩ := root found
    have submitted' :=
      RowGrowth.find?_of_immutable (T := trackedSubmissions) onward.setting.left submitted
    exact ⟨submission, new, submitted', found', spec ▸ same⟩
  | cancelWorkflow =>
    obtain ⟨old, found, cancelled⟩ := holds
    obtain ⟨new, found', -, still⟩ := root found
    exact ⟨new, found', still cancelled⟩
  | complete =>
    obtain ⟨op, awaits, succeeded, result⟩ := holds
    obtain ⟨op', awaits', state, same⟩ := awaits.later onward (by rw [succeeded]; rfl)
    exact ⟨op', awaits', state.trans succeeded, (same succeeded).trans result⟩
  | reportCancellation =>
    obtain ⟨op, awaits, cancelled⟩ := holds
    obtain ⟨op', awaits', state, -⟩ := awaits.later onward (by rw [cancelled]; rfl)
    exact ⟨op', awaits', state.trans cancelled⟩
  | fail =>
    obtain ⟨op, awaits, failed⟩ := holds
    obtain ⟨op', awaits', state, -⟩ := awaits.later onward (by rw [failed]; rfl)
    exact ⟨op', awaits', state.trans failed⟩

/-- An activity is told how the operation that it waits for ended. -/
theorem Rpc.Holds.outcome {rpc : Rpc} (holds : rpc.Holds sha256 d) {taskToken : String}
    (about : rpc.taskToken = some taskToken) : ∃ op, Awaits sha256 d taskToken op ∧
      op.state.terminal = true ∧
      rpc.outcome = some (op.state, if op.state = .succeeded then op.result else none) := by
  cases rpc with
  | startWorkflow | cancelWorkflow => cases about
  | complete | reportCancellation | fail =>
    cases about
    obtain ⟨op, awaits, ended⟩ := holds
    refine ⟨op, awaits, ?_⟩
    simp_all [Rpc.outcome, OperationState.terminal]

/-- An activity does not hear two stories. -/
theorem Rpc.Holds.agree {first second : Rpc} (holds : first.Holds sha256 d)
    (holds' : second.Holds sha256 d) {taskToken : String}
    (about : first.taskToken = some taskToken) (about' : second.taskToken = some taskToken) :
    first.outcome = second.outcome := by
  obtain ⟨op, ⟨binding, bound, -, found⟩, -, told⟩ := holds.outcome about
  obtain ⟨op', ⟨binding', bound', -, found'⟩, -, told'⟩ := holds'.outcome about'
  obtain rfl := Option.some.inj (bound.symm.trans bound')
  obtain rfl := Option.some.inj (found.symm.trans found')
  exact told.trans told'.symm

/-- The request is what an event asks for. -/
def Rpc.Addresses (d : Db) (rpc : Rpc) : EventId → Prop
  | .start rootId => ∃ spec, rpc = .startWorkflow rootId spec
  | .cancel rootId => rpc = .cancelWorkflow rootId
  | .complete bindingId => ∃ binding, d.bindings.find? bindingId = some binding ∧
      rpc.taskToken = some binding.taskToken

theorem Rpc.Addresses.later (onward : Onward d d') {rpc : Rpc} {id : EventId}
    (addresses : rpc.Addresses d id) : rpc.Addresses d' id := by
  cases id with
  | start | cancel => exact addresses
  | complete bindingId =>
    obtain ⟨binding, bound, about⟩ := addresses
    exact ⟨binding, RowGrowth.find?_of_immutable (T := trackedBindings)
      onward.setting.right.left bound, about⟩

theorem report_holds {taskToken : String} {op : OperationRow} {rpc : Rpc}
    (awaits : Awaits sha256 d taskToken op) (reports : report taskToken op = some rpc) :
    rpc.Holds sha256 d ∧ rpc.taskToken = some taskToken := by
  unfold report at reports
  split at reports
  · next state =>
    cases reports
    exact ⟨⟨op, awaits, state, rfl⟩, rfl⟩
  · next state =>
    cases reports
    exact ⟨⟨op, awaits, state⟩, rfl⟩
  · next state =>
    cases reports
    exact ⟨⟨op, awaits, state⟩, rfl⟩
  · cases reports

/-- What is told about a binding is so. -/
theorem bindingReport_holds (reached : Reachable sha256 authority d) {bindingId : String}
    {rpc : Rpc} (reports : bindingReport d bindingId = some rpc) :
    rpc.Holds sha256 d ∧ rpc.Addresses d (.complete bindingId) := by
  obtain ⟨binding, bound, reports⟩ := Option.bind_eq_some_iff.mp reports
  obtain ⟨op, found, reports⟩ := Option.bind_eq_some_iff.mp reports
  have named : bindingId = sha256 binding.taskToken := reached.binding_named bound
  obtain ⟨holds, about⟩ := report_holds ⟨binding, named ▸ bound, rfl, found⟩ reports
  exact ⟨holds, binding, bound, about⟩

end Onward

/-! ### The invariant -/

/-- An event was handled: the service was asked for what it is about, or its run was ended. -/
def Broker.Handled (σ : Broker) (id : EventId) : Prop :=
  (∃ rpc ∈ σ.service, rpc.Addresses σ.ledger id) ∨ ∃ rootId ∈ σ.expired, id = .start rootId

/-- All that the broker does is so. -/
structure Faithful (sha256 : String → String) (authority : Authority) (σ : Broker) : Prop where
  reached : Reachable sha256 authority σ.ledger
  made : ∀ rpc ∈ σ.made, rpc.Holds sha256 σ.ledger
  service : ∀ rpc ∈ σ.service, rpc ∈ σ.made
  expired : ∀ rootId ∈ σ.expired, ∃ root, σ.ledger.roots.find? rootId = some root ∧
    root.state ≠ .running
  posted : ∀ delivery ∈ σ.deliveries, ∃ event,
    σ.ledger.outbox.find? delivery.event.eventId = some event ∧
      event.letter = delivery.event.letter
  asking : ∀ delivery ∈ σ.deliveries, ∀ rpc, delivery.stage = .asking rpc →
    rpc ∈ σ.made ∧ rpc.Addresses σ.ledger delivery.event.eventId
  handled : ∀ delivery ∈ σ.deliveries, delivery.stage = .handled →
    σ.Handled delivery.event.eventId
  delivered : ∀ id event, σ.ledger.outbox.find? id = some event → event.deliveredAt ≠ none →
    σ.Handled id

namespace Faithful

variable {sha256 : String → String} {tenantOf : RunSpec → String} {authority : Authority}
  {σ : Broker} {delivery : Delivery} {i : ℕ}

/-- Nothing has happened yet. -/
theorem empty (sha256 : String → String) (authority : Authority) :
    Faithful sha256 authority { ledger := .empty authority } where
  reached := .empty
  made _ member := by cases member
  service _ member := by cases member
  expired _ member := by cases member
  posted _ member := by cases member
  asking _ member := by cases member
  handled _ member := by cases member
  delivered _ _ found := by cases found

/-- A request to the ledger. It may mark an event that was handled. -/
theorem serve (faithful : Faithful sha256 authority σ) (request : Request)
    (marks : ∀ id, request.marks = some id → σ.Handled id) :
    Faithful sha256 authority (σ.serve sha256 request) := by
  have onward : Onward σ.ledger (request.after sha256 σ.ledger) :=
    onward_of_request request faithful.reached.valid
  have postal : ((postal request.marks).on trackedOutbox).Keeps σ.ledger
      (request.after sha256 σ.ledger) := request.keeps_postal
  have later (id : EventId) (handled : σ.Handled id) : (σ.serve sha256 request).Handled id :=
    handled.imp_left fun ⟨rpc, member, addresses⟩ => ⟨rpc, member, addresses.later onward⟩
  exact
    { reached := .step faithful.reached request
      made := fun rpc member => (faithful.made rpc member).later onward
      service := faithful.service
      expired := fun rootId member => by
        obtain ⟨root, found, ended⟩ := faithful.expired rootId member
        exact onward.closed rootId root found ended
      posted := fun delivery member => by
        obtain ⟨event, found, same⟩ := faithful.posted delivery member
        obtain ⟨event', found', same', -⟩ :=
          RowGrowth.follows_of_keeps (T := trackedOutbox) postal found
        exact ⟨event', found', same'.trans same⟩
      asking := fun delivery member rpc asking => by
        obtain ⟨made, addresses⟩ := faithful.asking delivery member rpc asking
        exact ⟨made, addresses.later onward⟩
      handled := fun delivery member handled =>
        later _ (faithful.handled delivery member handled)
      delivered := fun id event found mark => by
        have named : event.eventId = id := Table.key_of_find? found
        refine later id ?_
        rcases RowGrowth.cases_of_keeps (T := trackedOutbox) postal found with
          ⟨old, before, letter, same | marked⟩ | ⟨-, none | marked⟩
        · exact faithful.delivered id old before (same ▸ mark)
        · have named' : old.eventId = id := Table.key_of_find? before
          exact marks id (named' ▸ marked)
        · exact absurd none mark
        · exact marks id (named ▸ marked) }

/-- A delivery goes on. -/
theorem goOn (faithful : Faithful sha256 authority σ) (member : delivery ∈ σ.deliveries)
    {stage : Stage} (asking : ∀ rpc, stage = .asking rpc →
      rpc ∈ σ.made ∧ rpc.Addresses σ.ledger delivery.event.eventId)
    (handled : stage = .handled → σ.Handled delivery.event.eventId) :
    Faithful sha256 authority (σ.goOn i delivery stage) := by
  have cases_ {other : Delivery} (member : other ∈ (σ.goOn i delivery stage).deliveries) :
      other ∈ σ.deliveries ∨ other = { delivery with stage } := List.mem_or_eq_of_mem_set member
  exact
    { reached := faithful.reached
      made := faithful.made
      service := faithful.service
      expired := faithful.expired
      posted := fun other here => by
        rcases cases_ here with old | rfl
        · exact faithful.posted other old
        · exact faithful.posted delivery member
      asking := fun other here rpc asks => by
        rcases cases_ here with old | rfl
        · exact faithful.asking other old rpc asks
        · exact asking rpc asks
      handled := fun other here done => by
        rcases cases_ here with old | rfl
        · exact faithful.handled other old done
        · exact handled done
      delivered := faithful.delivered }

/-- A delivery is given up. -/
theorem giveUp (faithful : Faithful sha256 authority σ) (member : delivery ∈ σ.deliveries)
    {stage : Stage} (up : stage = .raised ∨ stage = .over) :
    Faithful sha256 authority (σ.goOn i delivery stage) :=
  faithful.goOn member (fun rpc asks => by rcases up with rfl | rfl <;> cases asks)
    fun done => by rcases up with rfl | rfl <;> cases done

/-- A request to the service is made. -/
theorem make (faithful : Faithful sha256 authority σ) {rpc : Rpc}
    (holds : rpc.Holds sha256 σ.ledger) :
    Faithful sha256 authority { σ with made := rpc :: σ.made } where
  reached := faithful.reached
  made other member := by
    rcases List.mem_cons.mp member with rfl | old
    · exact holds
    · exact faithful.made other old
  service other member := List.mem_cons_of_mem _ (faithful.service other member)
  expired := faithful.expired
  posted := faithful.posted
  asking delivery member other asks :=
    (faithful.asking delivery member other asks).imp_left (List.mem_cons_of_mem _)
  handled := faithful.handled
  delivered := faithful.delivered

/-- A request arrives at the service. -/
theorem hear (faithful : Faithful sha256 authority σ) {rpc : Rpc} (made : rpc ∈ σ.made) :
    Faithful sha256 authority (σ.hear rpc) := by
  have later (id : EventId) (handled : σ.Handled id) : (σ.hear rpc).Handled id :=
    handled.imp_left fun ⟨other, member, addresses⟩ =>
      ⟨other, List.mem_cons_of_mem _ member, addresses⟩
  exact
    { reached := faithful.reached
      made := faithful.made
      service := fun other member => by
        rcases List.mem_cons.mp member with rfl | old
        · exact made
        · exact faithful.service other old
      expired := faithful.expired
      posted := faithful.posted
      asking := faithful.asking
      handled := fun delivery member done => later _ (faithful.handled delivery member done)
      delivered := fun id event found mark => later id (faithful.delivered id event found mark) }

theorem ask (faithful : Faithful sha256 authority σ) (member : delivery ∈ σ.deliveries)
    {rpc : Rpc} (holds : rpc.Holds sha256 σ.ledger)
    (addresses : rpc.Addresses σ.ledger delivery.event.eventId) :
    Faithful sha256 authority (σ.ask i delivery rpc) :=
  (faithful.make holds).goOn member (fun other asks => by
    cases asks
    exact ⟨List.mem_cons_self, addresses⟩) fun done => by cases done

/-- What an event in the hands of a publisher says is so. -/
theorem backs (faithful : Faithful sha256 authority σ) (member : delivery ∈ σ.deliveries) :
    σ.ledger.Backs delivery.event := by
  obtain ⟨event, found, same⟩ := faithful.posted delivery member
  exact (faithful.reached.truthful _ event found).later (RowChange.Keeps.refl _ _) same.symm

theorem expire (faithful : Faithful sha256 authority σ) (member : delivery ∈ σ.deliveries)
    (named : delivery.event.eventId = .start delivery.event.aggregateId) (spec : RunSpec)
    (env : Env) (answered : Bool) :
    Faithful sha256 authority (σ.expire sha256 tenantOf i delivery spec env answered) := by
  let rootId := delivery.event.aggregateId
  let finish := Request.call env
    (.finishRun rootId (tenantOf spec) .failed none (some "deadline_exceeded"))
  unfold Broker.expire
  dsimp only
  split
  · next reply ledger ran =>
    have after : finish.after sha256 σ.ledger = ledger := by
      unfold Request.after
      rw [ran]
    have ends : ((Call.finishRun rootId (tenantOf spec) .failed none
        (some "deadline_exceeded")).code sha256 env).Ensures σ.ledger fun _ d' =>
          ∃ root, d'.roots.find? rootId = some root ∧ root.state ≠ .running :=
      ensures_reply (finishRun_ends rootId (tenantOf spec) _)
    have ended := ends reply ledger ran
    have served : Faithful sha256 authority { σ with ledger } := by
      have served := faithful.serve finish fun _ none => by cases none
      rw [Broker.serve, after] at served
      exact served
    have noted : Faithful sha256 authority { σ with ledger, expired := rootId :: σ.expired } :=
      { served with
        expired := fun other member => by
          rcases List.mem_cons.mp member with rfl | old
          · exact ended
          · exact served.expired other old
        handled := fun other here done => (served.handled other here done).imp_right
          fun ⟨id, member, same⟩ => ⟨id, List.mem_cons_of_mem _ member, same⟩
        delivered := fun id event found mark => (served.delivered id event found mark).imp_right
          fun ⟨id, member, same⟩ => ⟨id, List.mem_cons_of_mem _ member, same⟩ }
    refine noted.goOn member (fun rpc asks => ?_) fun _ =>
      Or.inr ⟨rootId, List.mem_cons_self, named⟩
    cases answered <;> cases asks
  · exact faithful.giveUp member (Or.inl rfl)

/-- An event is delivered, up to a request to the service. -/
theorem deliver (faithful : Faithful sha256 authority σ) (member : delivery ∈ σ.deliveries)
    (env : Env) (answered : Bool) :
    Faithful sha256 authority (σ.deliver sha256 tenantOf i delivery env answered) := by
  have backed := faithful.backs member
  unfold Broker.deliver
  dsimp only
  split
  · next kind payload =>
    obtain ⟨named, submission, root, submitted, found, intent⟩ := backed.start kind
    cases payload.symm.trans intent
    dsimp only
    split
    · exact faithful.expire member named _ env answered
    · refine faithful.ask member ⟨submission, root, submitted, found, rfl⟩ ?_
      rw [named]
      exact ⟨_, rfl⟩
  · next kind =>
    obtain ⟨named, root, found, cancelled⟩ := backed.cancel kind
    refine faithful.ask member ⟨root, found, cancelled⟩ ?_
    rw [named]
    rfl
  · next kind payload =>
    split
    · next reports =>
      obtain ⟨holds, addresses⟩ := bindingReport_holds faithful.reached reports
      refine faithful.ask member holds ?_
      rw [backed.complete kind payload]
      exact addresses
    · exact faithful.giveUp member (Or.inl rfl)
  · exact faithful.giveUp member (Or.inl rfl)

/-- The service answers. -/
theorem answer (faithful : Faithful sha256 authority σ) (member : delivery ∈ σ.deliveries)
    {rpc : Rpc} (asking : delivery.stage = .asking rpc) (ending : Ending) :
    Faithful sha256 authority (σ.answer i delivery rpc ending) := by
  obtain ⟨made, addresses⟩ := faithful.asking delivery member rpc asking
  have heard := faithful.hear made
  have handled : Faithful sha256 authority ((σ.hear rpc).goOn i delivery .handled) :=
    heard.goOn member (fun other asks => by cases asks) fun _ =>
      Or.inl ⟨rpc, List.mem_cons_self, addresses⟩
  have settles (fine : Prop) [Decidable fine] : Faithful sha256 authority
      ((σ.hear rpc).goOn i delivery (if fine then .handled else .raised)) := by
    split
    · exact handled
    · exact heard.giveUp member (Or.inl rfl)
  cases ending with
  | done => exact handled
  | notFound | alreadyStarted => exact settles _
  | failed => exact faithful.giveUp member (Or.inl rfl)

/-- One step of a delivery. -/
theorem attend (faithful : Faithful sha256 authority σ) (member : delivery ∈ σ.deliveries)
    (act : Act) : Faithful sha256 authority (σ.attend sha256 tenantOf i delivery act) := by
  cases act with
  | deliver env answered =>
    unfold Broker.attend
    dsimp only
    split
    · exact faithful.deliver member env answered
    · exact faithful
  | answer ending =>
    unfold Broker.attend
    dsimp only
    split
    · next asking => exact faithful.answer member asking ending
    · exact faithful
  | acknowledge env answered =>
    unfold Broker.attend
    dsimp only
    split
    · next handled =>
      have gone : Faithful sha256 authority
          (σ.goOn i delivery (if answered then .over else .raised)) :=
        faithful.giveUp member (by cases answered <;> simp)
      refine gone.serve _ fun id marks => ?_
      cases marks
      exact faithful.handled delivery member handled
    · exact faithful
  | raises =>
    unfold Broker.attend
    dsimp only
    split
    · exact faithful
    · exact faithful.giveUp member (Or.inl rfl)
  | defers env delay =>
    unfold Broker.attend
    dsimp only
    split
    · exact (faithful.giveUp member (Or.inr rfl)).serve _ fun id marks => by cases marks
    · exact faithful
  | drop => exact faithful.giveUp member (Or.inr rfl)

/-- A publisher is handed events. -/
theorem claim (faithful : Faithful sha256 authority σ) (env : Env) (ownerId : String)
    (limit : ℕ) :
    Faithful sha256 authority (σ.step sha256 tenantOf (.claim env ownerId limit)) := by
  unfold Broker.step
  dsimp only
  split
  · next rows ledger ran =>
    let call := Request.call env (.claimEvents ownerId limit)
    have after : call.after sha256 σ.ledger = ledger := by
      unfold Request.after
      rw [ran]
    have served : Faithful sha256 authority { σ with ledger } := by
      have served := faithful.serve call fun _ none => by cases none
      rw [Broker.serve, after] at served
      exact served
    have postal : ((postal none).on trackedOutbox).Keeps σ.ledger ledger := after ▸ call.keeps_postal
    have hands : ((Call.claimEvents ownerId limit).code sha256 env).Ensures σ.ledger
        fun reply _ => ∀ rows, reply = .events rows → ∀ row ∈ rows, ∃ event,
          σ.ledger.outbox.find? row.eventId = some event ∧ row.letter = event.letter :=
      Tx.Ensures.bind ((claimEvents_hands ownerId limit).mono fun _ _ handed =>
        Tx.Ensures.ret fun _ same => by
          cases same
          exact handed)
    have handed := hands _ ledger ran rows rfl
    have cases_ {delivery : Delivery}
        (member : delivery ∈ σ.deliveries ++ rows.map fun event =>
          (⟨event, ownerId, .claimed⟩ : Delivery)) :
        delivery ∈ σ.deliveries ∨ delivery.event ∈ rows ∧ delivery.stage = .claimed := by
      refine (List.mem_append.mp member).imp_right fun handed => ?_
      obtain ⟨row, listed, rfl⟩ := List.mem_map.mp handed
      exact ⟨listed, rfl⟩
    exact
      { served with
        posted := fun delivery member => by
          rcases cases_ member with old | ⟨listed, -⟩
          · exact served.posted delivery old
          · obtain ⟨event, found, letter⟩ := handed _ listed
            obtain ⟨event', found', letter', -⟩ :=
              RowGrowth.follows_of_keeps (T := trackedOutbox) postal found
            exact ⟨event', found', letter'.trans letter.symm⟩
        asking := fun delivery member rpc asks => by
          rcases cases_ member with old | ⟨-, claimed⟩
          · exact served.asking delivery old rpc asks
          · cases claimed.symm.trans asks
        handled := fun delivery member done => by
          rcases cases_ member with old | ⟨-, claimed⟩
          · exact served.handled delivery old done
          · cases claimed.symm.trans done }
  · exact faithful

/-- One step. -/
theorem step (faithful : Faithful sha256 authority σ) (step : Step) :
    Faithful sha256 authority (σ.step sha256 tenantOf step) := by
  cases step with
  | request request =>
    unfold Broker.step
    dsimp only
    split
    · exact faithful
    · next other =>
      refine faithful.serve request fun id marks => ?_
      cases request with
      | call env asked =>
        cases asked with
        | delivered => exact absurd rfl other
        | _ => cases marks
      | reconcileExpired => cases marks
  | claim env ownerId limit => exact faithful.claim env ownerId limit
  | attend i act =>
    unfold Broker.step
    dsimp only
    split
    · next found => exact faithful.attend (List.mem_of_getElem? found) act
    · exact faithful
  | arrive rpc =>
    unfold Broker.step
    dsimp only
    split
    · next made => exact faithful.hear made
    · exact faithful

/-- All steps. -/
theorem run (faithful : Faithful sha256 authority σ) (steps : List Step) :
    Faithful sha256 authority (σ.run sha256 tenantOf steps) := by
  induction steps generalizing σ with
  | nil => exact faithful
  | cons first rest ih => exact ih (faithful.step first)

end Faithful

/-! ### The broker -/

section Main

variable (sha256 : String → String) (tenantOf : RunSpec → String) (authority : Authority)

/-- In every run, whatever the service is asked is so, and no activity hears two stories; an
event that is marked as delivered was told, unless it was to start a run that has ended; and for
every binding of an operation that has ended there is an event, and once that is marked the
activity was told how the operation ended. -/
theorem broker_faithful (steps : List Step) :
    let σ := Broker.run sha256 tenantOf { ledger := .empty authority } steps
    (∀ rpc ∈ σ.service, rpc.Holds sha256 σ.ledger) ∧
    (∀ first ∈ σ.service, ∀ second ∈ σ.service, ∀ taskToken,
      first.taskToken = some taskToken → second.taskToken = some taskToken →
        first.outcome = second.outcome) ∧
    (∀ id event, σ.ledger.outbox.find? id = some event → event.deliveredAt ≠ none →
      (∃ rpc ∈ σ.service, rpc.Addresses σ.ledger id) ∨
        ∃ rootId root, id = .start rootId ∧ σ.ledger.roots.find? rootId = some root ∧
          root.state ≠ .running) ∧
    (∀ bindingId binding op, σ.ledger.bindings.find? bindingId = some binding →
      σ.ledger.operations.find? binding.operationId = some op → op.state.terminal = true →
        ∃ event, σ.ledger.outbox.find? (.complete bindingId) = some event ∧
          (event.deliveredAt ≠ none → ∃ rpc ∈ σ.service, rpc.taskToken = some binding.taskToken ∧
            rpc.outcome = some (op.state, if op.state = .succeeded then op.result else none))) := by
  intro σ
  have faithful : Faithful sha256 authority σ := (Faithful.empty sha256 authority).run steps
  have holds (rpc : Rpc) (asked : rpc ∈ σ.service) : rpc.Holds sha256 σ.ledger :=
    faithful.made rpc (faithful.service rpc asked)
  refine ⟨holds, fun first asked second asked' taskToken about about' =>
    (holds first asked).agree (holds second asked') about about', fun id event found mark => ?_,
    fun bindingId binding op bound found terminal => ?_⟩
  · refine (faithful.delivered id event found mark).imp_right ?_
    rintro ⟨rootId, member, rfl⟩
    obtain ⟨root, here, ended⟩ := faithful.expired rootId member
    exact ⟨rootId, root, rfl, here, ended⟩
  · have listed : bindingId ∈ σ.ledger.bindingsOf binding.operationId :=
      Db.mem_bindingsOf.mpr ⟨binding, bound, rfl⟩
    obtain ⟨event, posted⟩ := Option.ne_none_iff_exists'.mp
      (faithful.reached.tells _ op found terminal bindingId listed)
    refine ⟨event, posted, fun mark => ?_⟩
    rcases faithful.delivered _ event posted mark with
      ⟨rpc, asked, binding', bound', about⟩ | ⟨rootId, -, never⟩
    · obtain rfl := Option.some.inj (bound.symm.trans bound')
      obtain ⟨op', ⟨_, waits, -, found'⟩, -, told⟩ := (holds rpc asked).outcome about
      have named : bindingId = sha256 binding.taskToken := faithful.reached.binding_named bound
      obtain rfl := Option.some.inj (bound.symm.trans (named ▸ waits))
      obtain rfl := Option.some.inj (found.symm.trans found')
      exact ⟨rpc, asked, about, told⟩
    · cases never

end Main

/-- The activity that waits is told the result, and its event is marked. -/
example :
    let answers : List Step := [.claim (Sample.env "") "p" 8,
      .attend 0 (.deliver (Sample.env "") true), .attend 0 (.answer .done),
      .attend 0 (.acknowledge (Sample.env "") true)]
    let σ := Broker.run Sample.sha256 RunSpec.input { ledger := .empty {} }
      (Sample.awaited.map .request ++ answers)
    σ.service = [.complete "k" (some Sample.artifact)] ∧
      (σ.ledger.outbox.find? (.complete "")).map OutboxRow.deliveredAt = some (some 1000000) := by
  decide +kernel

end IntramindRuntime.Workflow
