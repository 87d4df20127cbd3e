import Mathlib.Data.Finset.Basic
import Mathlib.Data.PNat.Basic

/-!
# Wire contracts

The versioned records that callers, the ledger and the runtime API exchange. A
bound that a validator of the source enforces is carried by the type or by a
proof field, so a record that fails its own validation cannot be built. Times are
integer microseconds, the resolution of both the database and the host clock.

## Main definitions

* `OperationState`, `RootState`, `AttemptState` — the life cycles the ledger records
* `RootSpec`, `OperationSpec`, `PoolSpec` — what callers submit and operators configure
* `OperationSpec.budgetUnit`, `OperationSpec.budgetBound` — what an inference is charged
* `Reservation` — the fence that an executor presents with every owner-side call
* `RuntimeError` — the exceptions the ledger raises
-/

namespace IntramindRuntime

/-- A point in time, or a duration, in microseconds. -/
abbrev Time := ℤ

/-- The life cycle of an operation. -/
inductive OperationState
  | ready | executing | reconciling | retryWait | succeeded | failed | cancelled
  deriving DecidableEq, Repr

/-- `SUCCEEDED`, `FAILED` and `CANCELLED` are final. -/
def OperationState.terminal : OperationState → Bool
  | .succeeded | .failed | .cancelled => true
  | .ready | .executing | .reconciling | .retryWait => false

/-- `READY` and `RETRY_WAIT` operations wait for an executor. -/
def OperationState.waiting : OperationState → Bool
  | .ready | .retryWait => true
  | _ => false

/-- The final states without a result. -/
def OperationState.failing : OperationState → Bool
  | .failed | .cancelled => true
  | _ => false

theorem OperationState.terminal_of_failing {state : OperationState}
    (failed : state.failing = true) : state.terminal = true := by
  cases state <;> first | rfl | cases failed

theorem OperationState.ne_of_failing {state : OperationState} (failed : state.failing = true) :
    state ≠ .succeeded := by
  rintro rfl
  cases failed

theorem OperationState.not_terminal_of_waiting {state : OperationState}
    (waiting : state.waiting = true) : state.terminal = false := by
  cases state <;> first | rfl | cases waiting

/-- The life cycle of a root. -/
inductive RootState
  | running | succeeded | partially | failed | cancelled
  deriving DecidableEq, Repr

/-- The life cycle of a durable attempt. -/
inductive AttemptState
  | reserved | sendIntent | active | unknown | backendFinished
  | resultCommitted | failed | failedNotSent
  deriving DecidableEq, Repr

/-- `RESULT_COMMITTED`, `FAILED` and `FAILED_NOT_SENT` attempts have ended. -/
def AttemptState.ended : AttemptState → Bool
  | .resultCommitted | .failed | .failedNotSent => true
  | .reserved | .sendIntent | .active | .unknown | .backendFinished => false

/-- Sent, and not ended. -/
def AttemptState.sent : AttemptState → Bool
  | .sendIntent | .active | .unknown | .backendFinished => true
  | .reserved | .resultCommitted | .failed | .failedNotSent => false

/-- The life cycle of a direct attempt. -/
inductive DirectState
  | reserved | sendIntent | unknown | finished | failedNotSent | failed | failedRecoverable
  deriving DecidableEq, Repr

/-- The health of a pool or of a group. -/
inductive Health
  | healthy | degraded | unavailable
  deriving DecidableEq, Repr

/-- Root priorities; `interactive` is kept for histories of older workers. -/
inductive Priority
  | qa | userTask | background | maintenance | interactive
  deriving DecidableEq, Repr

/-- The workload classes the runtime API schedules by. -/
inductive WorkloadClass
  | qa | userTask | background | maintenance
  deriving DecidableEq, Repr

/-- The class under which work of a root runs. -/
def Priority.workloadClass : Priority → WorkloadClass
  | .qa => .qa
  | .userTask | .interactive => .userTask
  | .background => .background
  | .maintenance => .maintenance

/-- The budgets a root may hold beside its tokens. -/
inductive Resource
  | speechCharacters | embeddingCharacters
  deriving DecidableEq, Repr

/-- The name of a resource budget. -/
def Resource.name : Resource → String
  | .speechCharacters => "speech_characters"
  | .embeddingCharacters => "embedding_characters"

/-- What a budget counts. -/
inductive BudgetUnit
  | tokens
  | resource (unit : Resource)
  deriving DecidableEq, Repr

/-- The kind of inference an operation asks for, or a pool serves. -/
inductive Kind
  | llm | speech | embedding | rerank
  deriving DecidableEq, Repr

/-! ### Literals

The positive numbers that defaults and samples name. -/

instance neZero_1 : NeZero (1 : ℕ) := ⟨by decide⟩
instance neZero_10 : NeZero (10 : ℕ) := ⟨by decide⟩
instance neZero_64 : NeZero (64 : ℕ) := ⟨by decide⟩
instance neZero_100 : NeZero (100 : ℕ) := ⟨by decide⟩
instance neZero_256 : NeZero (256 : ℕ) := ⟨by decide⟩
instance neZero_1000 : NeZero (1000 : ℕ) := ⟨by decide⟩
instance neZero_1024 : NeZero (1024 : ℕ) := ⟨by decide⟩
instance neZero_10000 : NeZero (10000 : ℕ) := ⟨by decide⟩
instance neZero_30000 : NeZero (30000 : ℕ) := ⟨by decide⟩

/-! ### Records -/

/-- A reference to verified bytes in the object store. -/
structure Artifact where
  key : String
  sha256 : String
  size : ℕ
  contentType : String := "application/json"
  deriving DecidableEq, Repr

/-- What a tenant submits for a whole run. -/
structure RootSpec where
  rootId : String
  tenantId : String
  deadline : Time
  budgetLimit : ℕ+
  speechCharacters : Option ℕ+ := none
  embeddingCharacters : Option ℕ+ := none
  maxOperations : ℕ+ := 10000
  maxPending : ℕ+ := 64
  maxAttempts : ℕ+ := 30000
  priority : Priority := .background
  deriving DecidableEq

/-- The accepted limit of a resource budget, if the root has one. -/
def RootSpec.resourceBudget (spec : RootSpec) : Resource → Option ℕ+
  | .speechCharacters => spec.speechCharacters
  | .embeddingCharacters => spec.embeddingCharacters

/-- `resource_budgets.items()`. -/
def RootSpec.resourceBudgets (spec : RootSpec) : List (Resource × ℕ+) :=
  (spec.speechCharacters.map fun limit => (Resource.speechCharacters, limit)).toList ++
    (spec.embeddingCharacters.map fun limit => (Resource.embeddingCharacters, limit)).toList

/-- The part of an operation that depends on its kind. -/
inductive Work
  | llm (inputTokensBound : ℕ) (maxOutputTokens : ℕ+)
  | speech (charactersBound : ℕ+)
  | embedding (modelRevision : String) (charactersBound : ℕ) (textsCount : ℕ+)
  deriving DecidableEq

/-- One inference, as a workflow submits it. -/
structure OperationSpec where
  operationId : String
  rootId : String
  tenantId : String
  payload : Artifact
  modelProfile : String
  expectedCost : ℕ+
  maxAttempts : ℕ := 3
  maxAttempts_bounds : 1 ≤ maxAttempts ∧ maxAttempts ≤ 10 := by decide
  /-- `attempt_timeout_seconds`, in microseconds. -/
  attemptTimeout : Time := 1800000000
  attemptTimeout_bounds : 0 ≤ attemptTimeout ∧ attemptTimeout ≤ 86400000000 := by decide
  deadline : Option Time := none
  capacityProfileId : Option String := none
  requiredCapabilities : Finset String := ∅
  work : Work
  deriving DecidableEq

namespace OperationSpec

/-- The kind of inference. -/
def kind (spec : OperationSpec) : Kind :=
  match spec.work with
  | .llm .. => .llm
  | .speech .. => .speech
  | .embedding .. => .embedding

/-- The budget an inference is charged to. -/
def budgetUnit (spec : OperationSpec) : BudgetUnit :=
  match spec.work with
  | .llm .. => .tokens
  | .speech .. => .resource .speechCharacters
  | .embedding .. => .resource .embeddingCharacters

/-- The most an inference may use. An empty text still performs inference, so an
embedding reserves at least one unit. -/
def budgetBound (spec : OperationSpec) : ℤ :=
  match spec.work with
  | .llm inputTokensBound maxOutputTokens => inputTokensBound + (maxOutputTokens : ℕ)
  | .speech charactersBound => (charactersBound : ℕ)
  | .embedding _ charactersBound _ => max 1 charactersBound

theorem budgetBound_pos (spec : OperationSpec) : 0 < spec.budgetBound := by
  unfold budgetBound
  cases spec.work with
  | llm inputTokensBound maxOutputTokens => have := maxOutputTokens.pos; simp only; omega
  | speech charactersBound => have := charactersBound.pos; simp only; omega
  | embedding modelRevision charactersBound textsCount => simp only; omega

/-- The model revision an embedding is pinned to. -/
def modelRevision? (spec : OperationSpec) : Option String :=
  match spec.work with
  | .embedding modelRevision _ _ => some modelRevision
  | _ => none

/-- How many texts an embedding carries. -/
def textsCount (spec : OperationSpec) : ℕ :=
  match spec.work with
  | .embedding _ _ textsCount => textsCount
  | _ => 0

end OperationSpec

/-- The part of a pool that depends on its kind. -/
inductive PoolWork
  | llm (contextLimit : ℕ+)
  | speech (characterLimit : ℕ+)
  | embedding (characterLimit maxBatchSize : ℕ+)
  | rerank (characterLimit maxBatchSize : ℕ+)
  deriving DecidableEq

/-- A serving endpoint, as operators configure it. -/
structure PoolSpec where
  poolId : String
  groupId : String
  engineEpoch : String
  profileId : String
  modelProfile : String
  modelRevision : String
  hardCeiling : ℕ+
  target : ℕ
  target_le : target ≤ hardCeiling := by decide
  transportLimit : ℕ+ := 64
  backgroundTransportLimit : ℕ+ := 8
  background_le : backgroundTransportLimit ≤ transportLimit := by decide
  validUntil : Option Time := none
  capabilities : Finset String := ∅
  work : PoolWork
  deriving DecidableEq

namespace PoolSpec

/-- The kind of inference a pool serves. -/
def kind (spec : PoolSpec) : Kind :=
  match spec.work with
  | .llm .. => .llm
  | .speech .. => .speech
  | .embedding .. => .embedding
  | .rerank .. => .rerank

/-- The largest request a pool takes. -/
def requestLimit (spec : PoolSpec) : ℤ :=
  match spec.work with
  | .llm contextLimit => (contextLimit : ℕ)
  | .speech characterLimit => (characterLimit : ℕ)
  | .embedding characterLimit _ => (characterLimit : ℕ)
  | .rerank characterLimit _ => (characterLimit : ℕ)

/-- The largest batch a pool takes, or zero where batches do not apply. -/
def maxBatchSize (spec : PoolSpec) : ℕ :=
  match spec.work with
  | .embedding _ maxBatchSize | .rerank _ maxBatchSize => maxBatchSize
  | _ => 0

/-- The context limit recorded in the pool row. -/
def contextLimit (spec : PoolSpec) : ℕ :=
  match spec.work with
  | .llm contextLimit => contextLimit
  | _ => 0

end PoolSpec

/-- What an executor holds for one attempt. -/
structure Reservation where
  attemptId : String
  operation : OperationSpec
  poolId : String
  engineEpoch : String
  modelRevision : String
  ownerId : String
  leaseEpoch : ℕ
  sentAttempts : ℕ := 0
  attemptDeadline : Time
  workloadClass : WorkloadClass := .background
  deriving DecidableEq

/-- Why a reserved attempt may not be sent. -/
inductive SendRefusal
  | sendAttemptsExhausted | sendBudgetUnavailable
  deriving DecidableEq, Repr

/-- The exceptions the ledger raises. -/
inductive RuntimeError
  | conflict (message : String)
  | sendBudgetUnavailable (reason : SendRefusal)
  | admissionDenied (message : String) (retryable : Bool := false)
  | notFound (what : String)
  | valueError (message : String)
  /-- PostgreSQL refused a row: a unique key or a check constraint. -/
  | integrity
  /-- PostgreSQL computed a number that is out of the range of its type. -/
  | outOfRange
  deriving DecidableEq, Repr

/-- `f"tenants/{sha256(tenant)}/"`: the object keys of a tenant start with it. -/
def tenantPrefix (sha256 : String → String) (tenantId : String) : String :=
  "tenants/" ++ sha256 tenantId ++ "/"

/-- `key.startswith(tenant_prefix(tenant))`. -/
def Artifact.belongsTo (artifact : Artifact) (sha256 : String → String) (tenantId : String) :
    Bool :=
  (tenantPrefix sha256 tenantId).toList.isPrefixOf artifact.key.toList

end IntramindRuntime
