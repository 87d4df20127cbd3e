import IntramindRuntime.Ledger.Submissions
import IntramindRuntime.Library.JsonText

/-!
# The policy of a batch

The root of a run is put together in the API, and the root of a batch where the batch is
dispatched, from a copy of the definition that was stored with its first input. Both name the
budget in tokens, the priority and the queues. The budgets in other units, with which the
definition may allow speech and embeddings, are given to the root of a run only.

## Main definitions

* `Submission.root`, `Batch.root` — the roots that are submitted
* `SamePolicy` — two roots, and the events that start them, have one policy

## Main results

* `submit_eq`, `dispatch_eq` — the roots are those of the transactions
* `samePolicy_iff` — a batch has the policy of a run exactly if its definition has no budgets in
  other units
-/

namespace IntramindRuntime.Ledger

open Library

section Roots

variable (sha256 : String → String)

/-- The root of a run. -/
def Submission.root (request : Submission) (definition : TaskDefinition) (now : Time)
    (tenant : Tenant) : RootSpec where
  rootId := runId sha256 tenant request
  tenantId := tenant.id
  deadline := now + definition.deadlineSeconds * 1000000
  budgetLimit := definition.budgetLimit
  speechCharacters := definition.speechCharacters
  embeddingCharacters := definition.embeddingCharacters
  priority := definition.workload request.taskType

/-- The start of a run. -/
def Submission.run (request : Submission) (definition : TaskDefinition) (tenant : Tenant) :
    RunSpec :=
  runSpec request.taskType (runId sha256 tenant request) tenant.id definition request.input
    request.configuration

/-- The root of a batch. -/
def Batch.root (batch : Batch) : RootSpec where
  rootId := batch.batchId sha256
  tenantId := batch.first.tenant.id
  deadline := batch.deadline
  budgetLimit := batch.first.definition.budgetLimit
  priority := batch.first.definition.workload batch.first.taskType

/-- The start of a batch, with the artifact of its inputs. -/
def Batch.run (batch : Batch) (inputs : Artifact) : RunSpec :=
  runSpec batch.first.taskType (batch.batchId sha256) batch.first.tenant.id batch.first.definition
    inputs (some batch.first.configuration)

variable {sha256}

/-- A request that `/v1/runs` takes is submitted with its root. -/
theorem submit_eq {definitions : String → Option TaskDefinition} {stored : Artifact → Bool}
    {env : Env} {now : Time} {tenant : Tenant} {request : Submission}
    {transaction : Transaction String} {definition : TaskDefinition}
    (registered : definitions request.taskType = some definition)
    (taken : submit sha256 definitions stored env now tenant request = .ok transaction) :
    transaction = Store.submitRun env (request.root sha256 definition now tenant)
      request.submissionKey request.input.sha256 (request.run sha256 definition tenant) := by
  rw [submit, registered] at taken
  dsimp only at taken
  split_ifs at taken
  cases taken
  rfl

/-- A batch is submitted with its root. -/
theorem dispatch_eq (put : String → String → Artifact) (env : Env) (batch : Batch) :
    dispatch sha256 put env batch = Store.submitRun env (batch.root sha256)
      (batch.submissionKey sha256) (put batch.first.tenant.id (batch.payload sha256)).sha256
      (batch.run sha256 (put batch.first.tenant.id (batch.payload sha256))) :=
  rfl

end Roots

/-! ### Policies -/

/-- The control queue that the start of a run names. -/
def RunSpec.controlQueue? (run : RunSpec) : Option Json :=
  (Json.loads run.input.toList).bind (Json.get? "control_queue")

/-- Two roots and their starts have one policy: the same limits and priority, the same workflow
and queues, and a row of the one takes operations in the units that a row of the other takes. -/
structure SamePolicy (root root' : RootSpec) (run run' : RunSpec) : Prop where
  budgetLimit : root.budgetLimit = root'.budgetLimit
  resourceBudgets : root.resourceBudgets = root'.resourceBudgets
  priority : root.priority = root'.priority
  header : run.header = run'.header
  controlQueue : run.controlQueue? = run'.controlQueue?
  units : ∀ unit, Store.acceptsUnit (Store.rootRow root) unit =
    Store.acceptsUnit (Store.rootRow root') unit

theorem controlQueue?_runSpec (taskType rootId tenantId : String) (definition : TaskDefinition)
    (input : Artifact) (configuration : Option Artifact) :
    (runSpec taskType rootId tenantId definition input configuration).controlQueue? =
      some (.str definition.controlQueue) := by
  rw [RunSpec.controlQueue?, runSpec]
  dsimp only
  rw [jsonText, String.toList_ofList, Json.loads_encode, Option.bind_some, Json.get?_sortKeys]
  · rfl
  · simp
  · rfl

/-- There are no budgets but the one in tokens. -/
theorem resourceBudgets_eq_nil_iff {root : RootSpec} :
    root.resourceBudgets = [] ↔ root.speechCharacters = none ∧ root.embeddingCharacters = none := by
  rw [RootSpec.resourceBudgets, List.append_eq_nil_iff, Option.toList_eq_nil_iff,
    Option.toList_eq_nil_iff, Option.map_eq_none_iff, Option.map_eq_none_iff]

section Batches

variable (sha256 : String → String)

/-- A batch has the policy of a run of the same type and definition, exactly if the definition has
no budgets in other units. -/
theorem samePolicy_iff {definitions : String → Option TaskDefinition} {stored : Artifact → Bool}
    (put : String → String → Artifact) {env : Env} (env' : Env) {now : Time} {tenant : Tenant}
    {request : Submission} {batch : Batch} {transaction : Transaction String}
    (registered : definitions request.taskType = some batch.first.definition)
    (typed : request.taskType = batch.first.taskType)
    (taken : submit sha256 definitions stored env now tenant request = .ok transaction) :
    let inputs := put batch.first.tenant.id (batch.payload sha256)
    let root := request.root sha256 batch.first.definition now tenant
    let run := request.run sha256 batch.first.definition tenant
    transaction = Store.submitRun env root request.submissionKey request.input.sha256 run ∧
      dispatch sha256 put env' batch = Store.submitRun env' (batch.root sha256)
        (batch.submissionKey sha256) inputs.sha256 (batch.run sha256 inputs) ∧
      (SamePolicy (batch.root sha256) root (batch.run sha256 inputs) run ↔
        batch.first.definition.speechCharacters = none ∧
          batch.first.definition.embeddingCharacters = none) := by
  refine ⟨submit_eq registered taken, dispatch_eq put env' batch, ?_⟩
  constructor
  · intro same
    have none : (batch.root sha256).resourceBudgets = [] := rfl
    rw [same.resourceBudgets] at none
    exact resourceBudgets_eq_nil_iff.mp none
  · rintro ⟨speech, embedding⟩
    refine ⟨rfl, ?_, ?_, ?_, ?_, ?_⟩
    · symm
      exact resourceBudgets_eq_nil_iff.mpr ⟨speech, embedding⟩
    · simp only [Batch.root, Submission.root, typed]
    · simp only [Batch.run, Submission.run, runSpec, typed]
    · rw [Batch.run, Submission.run, controlQueue?_runSpec, controlQueue?_runSpec]
    · intro unit
      cases unit with
      | tokens => rfl
      | resource unit =>
        cases unit with
        | speechCharacters =>
          simp [Store.acceptsUnit, Store.rootRow, RootSpec.resourceBudget, Batch.root,
            Submission.root, speech]
        | embeddingCharacters =>
          simp [Store.acceptsUnit, Store.rootRow, RootSpec.resourceBudget, Batch.root,
            Submission.root, embedding]

end Batches

namespace Sample

/-- A task that may speak. -/
def speaking : TaskDefinition where
  taskQueue := "tasks"
  controlQueue := "control"
  deadlineSeconds := 3600
  budgetLimit := 1000
  speechCharacters := some 100

/-- A batch of the task with a definition. -/
def batchOf (definition : TaskDefinition) : Batch where
  first := { item with taskType := "summary", definition := definition }
  deadline := 3601000000
  createdAt := "1970-01-01T00:00:01+00:00"

/-- A request to `/v1/runs` for the task. -/
def request : Submission := (callerRun ⟨"t", tenant_sized⟩ "k" key_sized).request

theorem submit_request (definition : TaskDefinition) :
    ∃ transaction, submit digest (fun _ => some definition) (fun _ => true) (env "") 1000000
      ⟨"t", by decide⟩ request = .ok transaction := by
  have mine : (bytesOf "t").belongsTo digest "t" := by decide +kernel
  rw [submit]
  simp [mine, request, callerRun]

end Sample

/-- Without other budgets, the batch has the policy of the run. -/
theorem samePolicy_iff_sample :
    SamePolicy ((Sample.batchOf Sample.task).root Sample.digest)
      (Sample.request.root Sample.digest Sample.task 1000000 ⟨"t", by decide⟩)
      ((Sample.batchOf Sample.task).run Sample.digest (Sample.bytesOf "t"))
      (Sample.request.run Sample.digest Sample.task ⟨"t", by decide⟩) := by
  obtain ⟨transaction, taken⟩ := Sample.submit_request Sample.task
  exact (@samePolicy_iff Sample.digest _ _ (fun tenantId _ => Sample.bytesOf tenantId) _
    (Sample.env "") _ _ _ (Sample.batchOf Sample.task) _ rfl rfl taken).2.2.mpr ⟨rfl, rfl⟩

/-- A run of the task may speak, and a batch of it may not. -/
theorem samePolicy_fails :
    ¬ ∀ (definitions : String → Option TaskDefinition) (batch : Batch) (request : Submission)
      (inputs : Artifact) (transaction : Transaction String),
      definitions request.taskType = some batch.first.definition →
      request.taskType = batch.first.taskType →
      submit Sample.digest definitions (fun _ => true) (Sample.env "") 1000000 ⟨"t", by decide⟩
        request = .ok transaction →
      SamePolicy (batch.root Sample.digest)
        (request.root Sample.digest batch.first.definition 1000000 ⟨"t", by decide⟩)
        (batch.run Sample.digest inputs)
        (request.run Sample.digest batch.first.definition ⟨"t", by decide⟩) := by
  intro same
  obtain ⟨transaction, taken⟩ := Sample.submit_request Sample.speaking
  have budgets := (same (fun _ => some Sample.speaking) (Sample.batchOf Sample.speaking)
    Sample.request (Sample.bytesOf "t") transaction rfl rfl taken).resourceBudgets
  revert budgets
  decide +kernel

end IntramindRuntime.Ledger
