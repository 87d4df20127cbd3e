import IntramindRuntime.Ledger.Calls
import IntramindRuntime.Library.Json

/-!
# Runs and buffered batches

A run that is submitted to the API, and a batch of buffered inputs that the runtime submits
itself, end up in the same two tables: a root, and a submission under a tenant and a key.
Their identities are digests and keys that start with fixed words, and callers may use these
words too. Here the identities are told apart as far as they can be, and a batch of which the
callers stay clear is dispatched as if they were not there.

## Main definitions

* `Submission`, `submit` — a request to `/v1/runs`, and its transaction
* `BufferItem`, `Batch`, `dispatch` — a buffered input, a sealed batch, and its transaction
* `Separate` — runs and a batch share no identity, and the runs do not get in its way
* `Clear` — the runs stay clear of the words that the identities of the batch start with

## Main results

* `idText_eq_iff` — when two pairs of a tenant and a key have one text
* `conflicts_submitRun_iff` — when a submission is refused as a conflict
* `separate_iff` — runs and a batch are separate exactly if the runs are clear of it
-/

namespace IntramindRuntime.Ledger

open Library

/-! ### Requests -/

/-- A tenant that the API has verified. -/
structure Tenant where
  id : String
  sized : id ≠ "" ∧ id.toList.length ≤ 200 := by decide

/-- What the registry says about the tasks of one type. -/
structure TaskDefinition where
  taskQueue : String
  controlQueue : String
  deadlineSeconds : ℕ
  budgetLimit : ℕ+
  speechCharacters : Option ℕ+ := none
  embeddingCharacters : Option ℕ+ := none
  priority : Option Priority := none

/-- `workload_for_task`. -/
def TaskDefinition.workload (definition : TaskDefinition) (taskType : String) : Priority :=
  let base := String.ofList (taskType.toList.takeWhile (· ≠ '/'))
  definition.priority.getD <|
    if base ∈ ["summary", "mindmap", "rewrite", "draft", "enrich", "pptx", "exam", "teaching",
      "audio", "audio-overview", "translation", "directive-review", "directive_review"] then
      .userTask
    else if base ∈ ["conversation.compact", "conversation.title", "memory"] then .maintenance
    else .background

/-- A request to `/v1/runs`. -/
structure Submission where
  taskType : String
  submissionKey : String
  input : Artifact
  configuration : Option Artifact := none
  typed : taskType ≠ "" ∧ taskType.toList.length ≤ 120 := by decide
  keyed : submissionKey ≠ "" ∧ submissionKey.toList.length ≤ 200 := by decide

/-- A request to `/v1/buffers`, as it is stored. -/
structure BufferItem where
  tenant : Tenant
  taskType : String
  partitionKey : String
  submissionKey : String
  input : Artifact
  configuration : Artifact
  definition : TaskDefinition
  keyed : submissionKey ≠ "" ∧ submissionKey.toList.length ≤ 200 := by decide

/-- A sealed batch: the first of its inputs, which gives it its identity and its policy, and
what was stored with it. -/
structure Batch where
  first : BufferItem
  others : List BufferItem := []
  deadline : Time
  createdAt : String

/-- `model_dump` of an artifact. -/
def Artifact.json (artifact : Artifact) : Json :=
  .obj [("key", .str artifact.key), ("sha256", .str artifact.sha256), ("size", .int artifact.size),
    ("content_type", .str artifact.contentType)]

/-- The text of a JSON value. -/
def jsonText (value : Json) : String := String.ofList value.encode

/-- The specification of a run. -/
def runSpec (taskType rootId tenantId : String) (definition : TaskDefinition) (input : Artifact)
    (configuration : Option Artifact) : RunSpec where
  header := jsonText (.obj [("workflow_type", .str taskType),
    ("task_queue", .str definition.taskQueue)])
  input := jsonText (.obj [("root_id", .str rootId), ("tenant_id", .str tenantId),
    ("control_queue", .str definition.controlQueue), ("input", Artifact.json input)])
  configuration := configuration.map fun artifact => jsonText (Artifact.json artifact)

/-! ### Identities -/

/-- A tenant and a key with a NUL between them. -/
def idText (tenantId key : String) : String := tenantId ++ ("\x00" ++ key)

section Identities

variable (sha256 : String → String)

/-- The root of a run. -/
def runId (tenant : Tenant) (request : Submission) : String :=
  sha256 (idText tenant.id request.submissionKey)

/-- `item_id`. -/
def BufferItem.itemId (item : BufferItem) : String :=
  sha256 (idText "buffer" (idText item.tenant.id item.submissionKey))

/-- `batch_id`. -/
def Batch.batchId (batch : Batch) : String := sha256 (idText "batch" (batch.first.itemId sha256))

/-- The key under which a batch is submitted. -/
def Batch.submissionKey (batch : Batch) : String := "buffer:" ++ batch.batchId sha256

/-! ### Transactions -/

/-- Why `/v1/runs` refuses a request before the ledger sees it. -/
inductive Refusal
  | unregistered
  | notFound (what : String)
  | unverified

/-- `/v1/runs` at `now`: what is checked before, and the transaction. `stored` tells which
artifacts are there. -/
def submit (definitions : String → Option TaskDefinition) (stored : Artifact → Bool) (env : Env)
    (now : Time) (tenant : Tenant) (request : Submission) : Except Refusal (Transaction String) :=
  match definitions request.taskType with
  | none => .error .unregistered
  | some definition =>
    if ¬ request.input.belongsTo sha256 tenant.id then .error (.notFound "input")
    else if ¬ stored request.input then .error .unverified
    else if ¬ request.configuration.all fun artifact => artifact.belongsTo sha256 tenant.id then
      .error (.notFound "configuration")
    else if ¬ request.configuration.all stored then .error .unverified
    else
      let rootId := runId sha256 tenant request
      let root : RootSpec :=
        { rootId
          tenantId := tenant.id
          deadline := now + definition.deadlineSeconds * 1000000
          budgetLimit := definition.budgetLimit
          speechCharacters := definition.speechCharacters
          embeddingCharacters := definition.embeddingCharacters
          priority := definition.workload request.taskType }
      .ok (Store.submitRun env root request.submissionKey request.input.sha256
        (runSpec request.taskType rootId tenant.id definition request.input request.configuration))

/-- The text with the inputs of a batch. -/
def Batch.payload (batch : Batch) : String :=
  jsonText (.obj [("partition_key", .str batch.first.partitionKey),
    ("items", .arr ((batch.first :: batch.others).map fun item =>
      .obj [("item_id", .str (item.itemId sha256)), ("input", Artifact.json item.input)])),
    ("accepted_at", .str batch.createdAt)])

/-- `dispatch`, once the artifact store has put the inputs away. -/
def dispatch (put : String → String → Artifact) (env : Env) (batch : Batch) : Transaction String :=
  let tenantId := batch.first.tenant.id
  let definition := batch.first.definition
  let ref := put tenantId (batch.payload sha256)
  let root : RootSpec :=
    { rootId := batch.batchId sha256
      tenantId
      deadline := batch.deadline
      budgetLimit := definition.budgetLimit
      priority := definition.workload batch.first.taskType }
  Store.submitRun env root (batch.submissionKey sha256) ref.sha256
    (runSpec batch.first.taskType root.rootId tenantId definition ref
      (some batch.first.configuration))

end Identities

/-! ### Texts of identities -/

section Texts

/-- Two lists with a mark in them are the same if the marks are at the same place, or if
there are several marks. -/
theorem append_cons_eq_iff {α : Type*} {mark : α} {xs ys xs' ys' : List α} :
    xs ++ mark :: ys = xs' ++ mark :: ys' ↔ (xs = xs' ∧ ys = ys') ∨
      (∃ middle, xs' = xs ++ mark :: middle ∧ ys = middle ++ mark :: ys') ∨
      ∃ middle, xs = xs' ++ mark :: middle ∧ ys' = middle ++ mark :: ys := by
  rw [List.append_eq_append_iff]
  constructor
  · rintro (⟨between, rfl, same⟩ | ⟨between, rfl, same⟩)
    · cases between with
      | nil => exact Or.inl ⟨(List.append_nil xs).symm, (List.cons.inj same).2⟩
      | cons first middle =>
        obtain ⟨rfl, rest⟩ := List.cons.inj same
        exact Or.inr (Or.inl ⟨middle, rfl, rest⟩)
    · cases between with
      | nil => exact Or.inl ⟨List.append_nil xs', (List.cons.inj same).2.symm⟩
      | cons first middle =>
        obtain ⟨rfl, rest⟩ := List.cons.inj same
        exact Or.inr (Or.inr ⟨middle, rfl, rest⟩)
  · rintro (⟨rfl, rfl⟩ | ⟨middle, rfl, rfl⟩ | ⟨middle, rfl, rfl⟩)
    · exact Or.inl ⟨[], (List.append_nil xs).symm, rfl⟩
    · exact Or.inl ⟨mark :: middle, rfl, rfl⟩
    · exact Or.inr ⟨mark :: middle, rfl, rfl⟩

variable {a b c d : String}

@[simp] theorem idText_toList : (idText a b).toList = a.toList ++ '\x00' :: b.toList := by
  rw [idText, String.toList_append, String.toList_append]
  rfl

/-- Two pairs have one text if they are the same, or if the text has several NULs and the pairs
split it at different ones. -/
theorem idText_eq_iff : idText a b = idText c d ↔ (a = c ∧ b = d) ∨
    (∃ middle, c = idText a middle ∧ b = idText middle d) ∨
    ∃ middle, a = idText c middle ∧ d = idText middle b := by
  simp only [← String.toList_inj, idText_toList, append_cons_eq_iff]
  have texts {p : List Char → Prop} : (∃ middle, p middle) ↔ ∃ middle : String, p middle.toList :=
    ⟨fun ⟨middle, holds⟩ => ⟨String.ofList middle, by rwa [String.toList_ofList]⟩,
      fun ⟨middle, holds⟩ => ⟨middle.toList, holds⟩⟩
  rw [texts, texts]

/-- A text with a single NUL belongs to one pair. -/
theorem idText_inj (left : '\x00' ∉ a.toList) (right : '\x00' ∉ b.toList) :
    idText a b = idText c d ↔ a = c ∧ b = d := by
  rw [idText_eq_iff, or_iff_left]
  rintro (⟨middle, -, rfl⟩ | ⟨middle, rfl, -⟩)
  · exact right (by rw [idText_toList]; exact List.mem_append_right _ List.mem_cons_self)
  · exact left (by rw [idText_toList]; exact List.mem_append_right _ List.mem_cons_self)

end Texts

/-! ### Conflicts -/

/-- The transaction is refused as a conflict. -/
def Conflicts {α : Type} (p : Transaction α) (d : Db) : Prop :=
  ∃ message, p.run d = .error (.conflict message)

instance {α : Type} (p : Transaction α) (d : Db) : Decidable (Conflicts p d) :=
  match ran : p.run d with
  | .error (.conflict message) => .isTrue ⟨message, ran⟩
  | .ok _ | .error (.sendBudgetUnavailable _) | .error (.admissionDenied ..)
  | .error (.notFound _) | .error (.valueError _) | .error .integrity | .error .outOfRange =>
    .isFalse fun ⟨_, failed⟩ => by
      rw [ran] at failed
      cases failed

/-- The submission of a tenant under a key. -/
def Db.submission? (d : Db) (tenantId key : String) : Option SubmissionRow :=
  d.submissions.rows.find? fun row => row.tenantId = tenantId && row.submissionKey = key

section Conflicts

variable {env : Env} {root : RootSpec} {key inputDigest : String} {run : RunSpec} {d : Db}

/-- The error is no conflict. -/
def NoConflict (error : RuntimeError) : Prop := ∀ message, error ≠ .conflict message

theorem raises_accept {β : Type} (result : Except Violation β) :
    (Store.accept result).Raises NoConflict := by
  cases result with
  | ok => trivial
  | error => exact fun _ => nofun

theorem raises_require {condition : Bool} {error : RuntimeError} (other : NoConflict error) :
    (Store.require condition error).Raises NoConflict := by
  cases condition
  · exact other
  · trivial

theorem insertRoot_raises (limits : Authority) :
    (Store.insertRoot env root limits).Raises NoConflict := by
  have denied (message : String) (retryable : Bool) :
      NoConflict (.admissionDenied message retryable) := fun _ => nofun
  refine fun _ => (raises_require (denied _ _)).bind fun _ => ?_
  refine (raises_require (denied _ _)).bind fun _ inserted => ?_
  refine (raises_accept inserted).bind fun _ => Tx.Raises.forEach fun _ result => ?_
  exact raises_accept result

/-- What a submission does once its root is there. -/
def submitted (env : Env) (root : RootSpec) (key inputDigest : String) (run : RunSpec) :
    Transaction String := do
  Store.accept (← (OtherSql.insertSubmission
    { runId := root.rootId
      tenantId := root.tenantId
      submissionKey := key
      inputDigest := inputDigest
      spec := run }).run)
  Store.event env (.start root.rootId) .startWorkflow root.rootId
    (.intent { run with deadline := some (.accepted root.deadline) })
  return root.rootId

theorem submitted_raises : (submitted env root key inputDigest run).Raises NoConflict :=
  fun inserted => (raises_accept inserted).bind fun _ _ => trivial

/-- A transaction that first looks for a root, and finds it or inserts it. -/
theorem root_run (rest : Transaction String) :
    ((Store.root env root).bind fun _ => rest).run d =
      match d.roots.find? root.rootId with
      | some existing => ((Store.sameRoot root existing).bind fun _ => rest).run d
      | none => ((Store.insertRoot env root d.authority).bind fun _ => rest).run d := by
  have found : (Engine.exec (Sql.root (.forUpdate root.rootId)) (fun _ => false) d d).result =
      d.roots.find? root.rootId := Access.target_self.trans Access.find?_true
  have looked : ((Store.root env root).bind fun _ => rest).run d =
      ((match (Engine.exec (Sql.root (.forUpdate root.rootId)) (fun _ => false) d d).result with
      | some existing => Store.sameRoot root existing
      | none => .perform (.other .authorityForUpdate) fun limits =>
        .perform (.root (.forUpdate root.rootId)) fun
          | some existing => Store.sameRoot root existing
          | none => Store.insertRoot env root limits).bind fun _ => rest).run d := rfl
  rw [looked, found]
  cases absent : d.roots.find? root.rootId with
  | some existing => rfl
  | none =>
    rw [absent] at found
    have again : ((Tx.perform (Sql.other .authorityForUpdate) fun limits =>
        .perform (.root (.forUpdate root.rootId)) fun
          | some existing => Store.sameRoot root existing
          | none => Store.insertRoot env root limits : Transaction Unit).bind fun _ => rest).run d =
        ((match (Engine.exec (Sql.root (.forUpdate root.rootId)) (fun _ => false) d d).result with
        | some existing => Store.sameRoot root existing
        | none => Store.insertRoot env root d.authority).bind fun _ => rest).run d := rfl
    rw [again, found]

theorem conflicts_require {condition : Bool} {message : String} {rest : Transaction String}
    (other : rest.Raises NoConflict) :
    Conflicts ((Store.require condition (.conflict message)).bind fun _ => rest) d ↔
      condition = false := by
  cases condition
  · exact iff_of_true ⟨message, rfl⟩ rfl
  · refine iff_of_false ?_ (fun impossible => nomatch impossible)
    rintro ⟨message, failed⟩
    exact other.error_of_run failed message rfl

/-- A submission is refused as a conflict if the key was used for another request, or if it
was not used and the root is another one. -/
theorem conflicts_submitRun_iff :
    Conflicts (Store.submitRun env root key inputDigest run) d ↔
      match d.submission? root.tenantId key with
      | some old => ¬ (old.inputDigest = inputDigest ∧
          Store.submissionIdentity old.spec = Store.submissionIdentity run)
      | none => ∃ old, d.roots.find? root.rootId = some old ∧ old.spec ≠ root := by
  have looked : (Store.submitRun env root key inputDigest run).run d =
      (match d.submission? root.tenantId key with
      | some old => (Store.require (old.inputDigest = inputDigest &&
            Store.submissionIdentity old.spec = Store.submissionIdentity run)
            (.conflict "submission key/input conflict")).bind fun _ => .ret old.runId
      | none => (Store.root env root).bind fun _ => submitted env root key inputDigest run).run d :=
    rfl
  rw [Conflicts, looked]
  cases d.submission? root.tenantId key with
  | some old =>
    have ended : (Tx.ret old.runId : Transaction String).Raises NoConflict := trivial
    refine (conflicts_require ended).trans ?_
    rw [Bool.and_eq_false_iff, decide_eq_false_iff_not, decide_eq_false_iff_not]
    exact not_and_or.symm
  | none =>
    simp only [root_run]
    cases d.roots.find? root.rootId with
    | some existing =>
      refine (conflicts_require submitted_raises).trans ?_
      rw [decide_eq_false_iff_not]
      constructor
      · exact fun other => ⟨existing, rfl, other⟩
      · rintro ⟨_, ⟨⟩, other⟩
        exact other
    | none =>
      refine iff_of_false ?_ ?_
      · rintro ⟨message, failed⟩
        exact ((insertRoot_raises _).bind fun _ => submitted_raises).error_of_run failed
          message rfl
      · rintro ⟨_, absent, _⟩
        cases absent

end Conflicts

/-! ### What a submission leaves alone -/

section Frame

variable {env : Env} {root : RootSpec} {key inputDigest : String} {run : RunSpec} {d : Db}

/-- What decides whether a submission is refused as a conflict. -/
def Db.identity (d : Db) (rootId tenantId key : String) : Option RootRow × Option SubmissionRow :=
  (d.roots.find? rootId, d.submission? tenantId key)

/-- The statement changes nothing of it. -/
def Sql.Spares (rootId tenantId key : String) {β : Type} (statement : Sql β) : Prop :=
  ∀ d, (RowStore.applyAll (Engine.exec statement (fun _ => false) d d).writes d).identity
    rootId tenantId key = d.identity rootId tenantId key

variable {rootId tenantId otherKey : String}

theorem spares_of_read {β : Type} {statement : Sql β}
    (reads : ∀ d, (Engine.exec statement (fun _ => false) d d).writes = []) :
    statement.Spares rootId tenantId otherKey := fun d => by rw [reads, RowStore.applyAll_nil]

theorem spares_of_mayWrite {β : Type} {statement : Sql β}
    (roots : statement.mayWrite .roots = false)
    (submissions : statement.mayWrite .submissions = false) :
    statement.Spares rootId tenantId otherKey := by
  intro d
  have elsewhere : ∀ w ∈ (Engine.exec statement (fun _ => false) d d).writes,
      w.table ≠ .roots ∧ w.table ≠ .submissions := fun w member => by
    have may := Sql.mayWrite_of_mem member
    refine ⟨fun same => ?_, fun same => ?_⟩
    · rw [same, roots] at may
      cases may
    · rw [same, submissions] at may
      cases may
  generalize (Engine.exec statement (fun _ => false) d d).writes = writes at elsewhere
  induction writes generalizing d with
  | nil => rfl
  | cons w rest ih =>
    rw [RowStore.applyAll_cons, ih _ fun w member => elsewhere w (List.mem_cons_of_mem _ member)]
    obtain ⟨notRoot, notSubmission⟩ := elsewhere w List.mem_cons_self
    cases w with
    | root => exact absurd rfl notRoot
    | submission => exact absurd rfl notSubmission
    | _ => rfl

theorem spares_insertRoot {row : RootRow} (other : row.rootId ≠ rootId) :
    (Sql.root (.insert row)).Spares rootId tenantId otherKey := by
  intro d
  simp only [Engine.exec, RootSql.exec, Access.insert]
  split
  · rfl
  · exact Prod.ext (Table.find?_put_of_ne other) rfl

theorem spares_insertSubmission {row : SubmissionRow}
    (other : (row.tenantId, row.submissionKey) ≠ (tenantId, otherKey)) :
    (Sql.other (.insertSubmission row)).Spares rootId tenantId otherKey := by
  intro d
  simp only [Engine.exec, OtherSql.exec]
  split
  · rfl
  simp only [Access.insert]
  split
  · rfl
  · next fresh =>
    have absent : d.submissions.find? (Keyed.key row) = none :=
      Option.not_isSome_iff_eq_none.mp fresh
    refine Prod.ext rfl ?_
    change (d.submissions.put row).rows.find? _ = _
    have elsewhere : (decide (row.tenantId = tenantId) && decide (row.submissionKey = otherKey)) =
        false := by
      rw [Bool.and_eq_false_iff, decide_eq_false_iff_not, decide_eq_false_iff_not]
      exact not_and_or.mp fun same => other (Prod.ext same.1 same.2)
    rw [Table.rows_put_of_new absent, List.find?_append, List.find?_cons, elsewhere,
      List.find?_nil, Option.or_none]
    rfl

/-- A submission changes nothing of it for another root, tenant and key. -/
theorem submitRun_spares (rootApart : root.rootId ≠ rootId)
    (keyApart : (root.tenantId, key) ≠ (tenantId, otherKey)) :
    (Store.submitRun env root key inputDigest run).Ensures d fun _ d' =>
      d'.identity rootId tenantId otherKey = d.identity rootId tenantId otherKey := by
  have uses : (Store.submitRun env root key inputDigest run).Uses
      (Sql.Spares rootId tenantId otherKey) := ?_
  · exact Tx.Ensures.of_uses uses fun _ d spares => spares d
  have read {β : Type} {statement : Sql β}
      (reads : ∀ d, (Engine.exec statement (fun _ => false) d d).writes = []) :
      statement.Spares rootId tenantId otherKey := spares_of_read reads
  have accepted {β : Type} (result : Except Violation β) :
      (Store.accept result).Uses (Sql.Spares rootId tenantId otherKey) := by
    cases result <;> trivial
  have required (condition : Bool) (error : RuntimeError) :
      (Store.require condition error).Uses (Sql.Spares rootId tenantId otherKey) := by
    cases condition <;> trivial
  have sameRoot (existing : RootRow) :
      (Store.sameRoot root existing).Uses (Sql.Spares rootId tenantId otherKey) := required _ _
  have inserted (limits : Authority) :
      (Store.insertRoot env root limits).Uses (Sql.Spares rootId tenantId otherKey) := by
    refine ⟨read fun _ => rfl,
      fun _ => (required _ _).bind fun _ => (required _ _).bind fun _ => ?_⟩
    refine ⟨spares_insertRoot rootApart, fun result => (accepted result).bind fun _ => ?_⟩
    exact Tx.Uses.forEach fun _ => ⟨spares_of_mayWrite rfl rfl, fun result => accepted result⟩
  have later : (submitted env root key inputDigest run).Uses
      (Sql.Spares rootId tenantId otherKey) :=
    ⟨spares_insertSubmission keyApart, fun result => (accepted result).bind fun _ =>
      ⟨spares_of_mayWrite rfl rfl, fun _ => trivial⟩⟩
  refine ⟨read fun _ => rfl, fun _ => ⟨read fun _ => rfl, fun found => ?_⟩⟩
  cases found with
  | some old => exact (required _ _).bind fun _ => trivial
  | none =>
    change ((Store.root env root).bind fun _ => submitted env root key inputDigest run).Uses
      (Sql.Spares rootId tenantId otherKey)
    refine Tx.Uses.bind ?_ fun _ => later
    refine ⟨read fun _ => rfl, fun found => ?_⟩
    cases found with
    | some existing => exact sameRoot existing
    | none =>
      refine ⟨read fun _ => rfl, fun limits => ⟨read fun _ => rfl, fun found => ?_⟩⟩
      cases found with
      | some existing => exact sameRoot existing
      | none => exact inserted limits

end Frame

/-! ### Runs and a batch -/

/-- A run that a caller submits: the request, and the clocks of its transaction. -/
structure CallerRun where
  tenant : Tenant
  request : Submission
  env : Env
  now : Time

section Separate

variable (sha256 : String → String) (definitions : String → Option TaskDefinition)
  (stored : Artifact → Bool) (put : String → String → Artifact) (runs : List CallerRun)
  (batch : Batch)

/-- The ledger after a run was submitted, or refused. -/
def CallerRun.after (d : Db) (run : CallerRun) : Db :=
  match submit sha256 definitions stored run.env run.now run.tenant run.request with
  | .error _ => d
  | .ok p =>
    match p.run d with
    | .error _ => d
    | .ok (_, d') => d'

/-- The ledger after callers have submitted runs. -/
def afterRuns (d : Db) : Db := runs.foldl (CallerRun.after sha256 definitions stored) d

/-- Runs and a batch share no identity, nor do the runs with each other, and the runs do not
make the dispatch of the batch a conflict. -/
structure Separate : Prop where
  roots : ∀ run ∈ runs, runId sha256 run.tenant run.request ≠ batch.batchId sha256
  unique : ∀ run ∈ runs, ∀ run' ∈ runs,
    runId sha256 run.tenant run.request = runId sha256 run'.tenant run'.request →
    run.tenant.id = run'.tenant.id ∧ run.request.submissionKey = run'.request.submissionKey
  keys : ∀ run ∈ runs, (run.tenant.id, run.request.submissionKey) ≠
    (batch.first.tenant.id, batch.submissionKey sha256)
  dispatched : ∀ definitions stored put env d, ¬ Conflicts (dispatch sha256 put env batch) d →
    ¬ Conflicts (dispatch sha256 put env batch) (afterRuns sha256 definitions stored runs d)

/-- The runs stay clear of the words that the identities of the batch start with, and no two
of them split one text at different NULs. -/
structure Clear : Prop where
  tenants : ∀ run ∈ runs, run.tenant.id = "batch" →
    run.request.submissionKey ≠ batch.first.itemId sha256
  keys : ∀ run ∈ runs, run.tenant.id = batch.first.tenant.id →
    run.request.submissionKey ≠ "buffer:" ++ batch.batchId sha256
  nuls : ∀ run ∈ runs, ∀ run' ∈ runs, ∀ middle, run'.tenant.id = idText run.tenant.id middle →
    run.request.submissionKey ≠ idText middle run'.request.submissionKey

/-- The texts whose digests are compared. -/
def identityTexts : List String :=
  idText "batch" (batch.first.itemId sha256) ::
    runs.map fun run => idText run.tenant.id run.request.submissionKey

variable {sha256 definitions stored put runs batch} {d : Db} {env : Env}

/-- Whether the dispatch of a batch is a conflict depends on its own root and key. -/
theorem conflicts_dispatch_congr {d' : Db}
    (same : d'.identity (batch.batchId sha256) batch.first.tenant.id (batch.submissionKey sha256) =
      d.identity (batch.batchId sha256) batch.first.tenant.id (batch.submissionKey sha256)) :
    Conflicts (dispatch sha256 put env batch) d' ↔ Conflicts (dispatch sha256 put env batch) d := by
  have root := congrArg Prod.fst same
  have submission := congrArg Prod.snd same
  simp only [Db.identity] at root submission
  simp only [dispatch, conflicts_submitRun_iff, root, submission]

/-- What is submitted for a request that is not refused. -/
theorem submit_ok {tenant : Tenant} {request : Submission} {now : Time} {p : Transaction String}
    (accepted : submit sha256 definitions stored env now tenant request = .ok p) :
    ∃ root run, root.rootId = runId sha256 tenant request ∧ root.tenantId = tenant.id ∧
      p = Store.submitRun env root request.submissionKey request.input.sha256 run := by
  unfold submit at accepted
  split at accepted
  · cases accepted
  split at accepted
  · cases accepted
  split at accepted
  · cases accepted
  split at accepted
  · cases accepted
  split at accepted
  · cases accepted
  · cases accepted
    exact ⟨_, _, rfl, rfl, rfl⟩

/-- A run that stays clear of the batch changes nothing of its identity. -/
theorem CallerRun.after_identity {run : CallerRun}
    (rootApart : runId sha256 run.tenant run.request ≠ batch.batchId sha256)
    (keyApart : (run.tenant.id, run.request.submissionKey) ≠
      (batch.first.tenant.id, batch.submissionKey sha256)) :
    (CallerRun.after sha256 definitions stored d run).identity (batch.batchId sha256)
        batch.first.tenant.id (batch.submissionKey sha256) =
      d.identity (batch.batchId sha256) batch.first.tenant.id (batch.submissionKey sha256) := by
  unfold CallerRun.after
  split
  · rfl
  · next p accepted =>
    split
    · rfl
    · next value d' ran =>
      obtain ⟨root, spec, named, owned, rfl⟩ := submit_ok accepted
      rw [← named] at rootApart
      rw [← owned] at keyApart
      exact submitRun_spares rootApart keyApart value d' ran

/-- Runs that stay clear of a batch are separate from it. -/
theorem Clear.separate (digits : ∀ text, '\x00' ∉ (sha256 text).toList)
    (apart : ∀ x ∈ identityTexts sha256 runs batch, ∀ y ∈ identityTexts sha256 runs batch,
      sha256 x = sha256 y → x = y) (clear : Clear sha256 runs batch) :
    Separate sha256 runs batch := by
  have listed {run : CallerRun} (member : run ∈ runs) :
      idText run.tenant.id run.request.submissionKey ∈ identityTexts sha256 runs batch :=
    List.mem_cons_of_mem _ (List.mem_map_of_mem member)
  have roots : ∀ run ∈ runs, runId sha256 run.tenant run.request ≠ batch.batchId sha256 := by
    intro run member same
    have texts := apart _ List.mem_cons_self _ (listed member) same.symm
    obtain ⟨tenant, key⟩ := (idText_inj (by decide) (digits _)).mp texts
    exact clear.tenants run member tenant.symm key.symm
  have keys : ∀ run ∈ runs, (run.tenant.id, run.request.submissionKey) ≠
      (batch.first.tenant.id, batch.submissionKey sha256) := by
    intro run member same
    exact clear.keys run member (congrArg Prod.fst same) (congrArg Prod.snd same)
  refine ⟨roots, fun run member run' member' same => ?_, keys, ?_⟩
  · have texts := apart _ (listed member) _ (listed member') same
    rcases idText_eq_iff.mp texts with equal | ⟨middle, tenant, key⟩ | ⟨middle, tenant, key⟩
    · exact equal
    · exact (clear.nuls run member run' member' middle tenant key).elim
    · exact (clear.nuls run' member' run member middle tenant key).elim
  · intro definitions stored put env d free
    rw [conflicts_dispatch_congr]
    · exact free
    · -- by induction on the runs, from the first to the last
      clear apart listed clear free
      unfold afterRuns
      induction runs generalizing d with
      | nil => rfl
      | cons run rest ih =>
        rw [List.foldl_cons, ih (fun run member => roots run (List.mem_cons_of_mem _ member))
          fun run member => keys run (List.mem_cons_of_mem _ member)]
        exact CallerRun.after_identity (roots run List.mem_cons_self) (keys run List.mem_cons_self)

/-- **When runs and batches share no identity.** Runs of callers and a batch are separate
exactly if no run has the tenant `batch` and the first item of the batch as its key, none has
the tenant of the batch and its submission key, and no two are one text split at different
NULs. -/
theorem separate_iff (digits : ∀ text, '\x00' ∉ (sha256 text).toList)
    (apart : ∀ x ∈ identityTexts sha256 runs batch, ∀ y ∈ identityTexts sha256 runs batch,
      sha256 x = sha256 y → x = y) :
    Separate sha256 runs batch ↔ Clear sha256 runs batch := by
  refine ⟨fun separate => ⟨?_, ?_, ?_⟩, fun clear => clear.separate digits apart⟩
  · intro run member tenant key
    exact separate.roots run member (by rw [runId, tenant, key, Batch.batchId])
  · intro run member tenant key
    exact separate.keys run member (Prod.ext tenant key)
  · intro run member run' member' middle tenant key
    have text : idText run.tenant.id run.request.submissionKey =
        idText run'.tenant.id run'.request.submissionKey :=
      idText_eq_iff.mpr (Or.inr (Or.inl ⟨middle, tenant, key⟩))
    obtain ⟨same, -⟩ := separate.unique run member run' member' (congrArg sha256 text)
    -- a tenant is shorter than a text that starts with it
    have lengths := congrArg (fun text => text.toList.length) (same.trans tenant)
    simp only [idText_toList, List.length_append, List.length_cons] at lengths
    omega

end Separate

namespace Sample

/-- The digests of the tenants `t` and `batch`, of the item and the batch of the sample, and of
a run of the tenant `t`. -/
def digest (text : String) : String :=
  if text = "t" then "e3b98a4da31a127d4bde6e43033f66ba274cab0eb7eb1c70ec41402bf6273dd8"
  else if text = "batch" then "4bb24efc9641afc5ded1ca77eabb6e2fcf062d2112ccd61bd8bd6acd89180bae"
  else if text = idText "buffer" (idText "t" "k") then
    "9426a2131abc38acf046be46b5f9776813c42b8ddd2884ced7cd66806d60051d"
  else if text = idText "batch" "9426a2131abc38acf046be46b5f9776813c42b8ddd2884ced7cd66806d60051d"
    then "bf32c6fde177469c602577e03c619fb2eaf278c3b3c9f594fb39fae617b7b80d"
  else if text = idText "t" "k" then
    "f31e38a4251c28e34c5d3af84b76d6748b40feb27bbd18f3cd7e81dbb7e2c848"
  else ""

/-- A task of the sample may last an hour. -/
def task : TaskDefinition where
  taskQueue := "tasks"
  controlQueue := "control"
  deadlineSeconds := 3600
  budgetLimit := 1000

/-- Bytes of a tenant. -/
def bytesOf (tenantId : String) : Artifact where
  key := tenantPrefix digest tenantId ++ "x"
  sha256 := "a"
  size := 1

theorem tenant_sized : "t" ≠ "" ∧ "t".toList.length ≤ 200 := by decide

theorem key_sized : "k" ≠ "" ∧ "k".toList.length ≤ 200 := by decide

/-- The tenant `t` buffers an input under the key `k`. -/
def item : BufferItem where
  tenant := ⟨"t", tenant_sized⟩
  taskType := "memory"
  partitionKey := "p"
  submissionKey := "k"
  input := bytesOf "t"
  configuration := bytesOf "t"
  definition := task
  keyed := key_sized

/-- The input is sealed in a batch. -/
def batch : Batch where
  first := item
  deadline := 3601000000
  createdAt := "1970-01-01T00:00:01+00:00"

/-- A run of a tenant under a key. -/
def callerRun (tenant : Tenant) (key : String)
    (keyed : key ≠ "" ∧ key.toList.length ≤ 200 := by decide) : CallerRun where
  tenant := tenant
  request :=
    { taskType := "summary"
      submissionKey := key
      input := bytesOf tenant.id
      keyed := keyed }
  env := env ""
  now := 1000000

/-- A tenant with the name `batch` submits a run under the identity of the item. -/
def hijack : CallerRun :=
  callerRun ⟨"batch", by decide⟩ "9426a2131abc38acf046be46b5f9776813c42b8ddd2884ced7cd66806d60051d"
    (by decide)

theorem digest_digits (text : String) : '\x00' ∉ (digest text).toList := by
  unfold digest
  split_ifs <;> decide

end Sample

/-- A run of the tenant of the item, under the same key, is separate from the batch. -/
theorem separate_iff_sample :
    Separate Sample.digest [Sample.callerRun ⟨"t", by decide⟩ "k"] Sample.batch := by
  let runs := [Sample.callerRun ⟨"t", by decide⟩ "k"]
  have apart : ∀ x ∈ identityTexts Sample.digest runs Sample.batch,
      ∀ y ∈ identityTexts Sample.digest runs Sample.batch,
      Sample.digest x = Sample.digest y → x = y := by decide +kernel
  refine (separate_iff Sample.digest_digits apart).mpr ⟨?_, ?_, ?_⟩
  · decide +kernel
  · decide +kernel
  · intro run member run' member' middle tenant _
    obtain rfl := List.mem_singleton.mp member
    obtain rfl := List.mem_singleton.mp member'
    have lengths := congrArg (fun text => text.toList.length) tenant
    simp only [idText_toList, List.length_append, List.length_cons] at lengths
    omega

/-- A tenant with the name `batch` takes the root of the batch, which can not be dispatched
any more. -/
theorem separate_fails :
    ¬ ∀ (sha256 : String → String) (runs : List CallerRun) (batch : Batch),
      (∀ text, '\x00' ∉ (sha256 text).toList) →
      (∀ x ∈ identityTexts sha256 runs batch, ∀ y ∈ identityTexts sha256 runs batch,
        sha256 x = sha256 y → x = y) → Separate sha256 runs batch := by
  intro separates
  have apart : ∀ x ∈ identityTexts Sample.digest [Sample.hijack] Sample.batch,
      ∀ y ∈ identityTexts Sample.digest [Sample.hijack] Sample.batch,
      Sample.digest x = Sample.digest y → x = y := by decide +kernel
  have separate := separates Sample.digest [Sample.hijack] Sample.batch Sample.digest_digits apart
  let put : String → String → Artifact := fun tenantId _ => Sample.bytesOf tenantId
  let definitions : String → Option TaskDefinition := fun _ => some Sample.task
  refine separate.dispatched definitions (fun _ => true) put (Sample.env "") (Db.empty {}) ?_ ?_
  · decide +kernel
  · decide +kernel

end IntramindRuntime.Ledger
