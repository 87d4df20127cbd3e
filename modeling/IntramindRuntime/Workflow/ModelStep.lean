import IntramindRuntime.Library.Json

/-!
# Model steps

A pure leaf makes model calls one after another. The workflow does not run it: an
activity runs the leaf against the answers recorded so far, and the first call without a
record suspends it by an exception. The workflow asks the model, appends a record, and
plans again, so that every turn runs the leaf from its start.

## Main definitions

* `Leaf` — a leaf as the tree of its calls
* `ModelPort`, `ModelPort.invoke` — the port through which it calls
* `planModelStep`, `planner` — one planning turn
* `modelLoop` — the loop of the workflow
* `Leaf.direct` — the leaf run against the model itself

## Main results

* `Leaf.run_suspends`, `Leaf.run_ends` — what a turn with some of the records does
* `modelLoop_replays` — the loop asks what the direct run asks, and ends as it ends
-/

namespace IntramindRuntime.Workflow

open Library

/-! ### Requests and records -/

/-- A hexadecimal SHA-256. -/
def IsDigest (text : String) : Prop :=
  text.toList.length = 64 ∧ ∀ c ∈ text.toList, c.isDigit ∨ ('a' ≤ c ∧ c ≤ 'f')

instance : DecidablePred IsDigest := fun text =>
  @instDecidableAnd _ _ (inferInstanceAs (Decidable (text.toList.length = 64)))
    (List.decidableBAll _ _)

/-- The digest of a request. -/
abbrev RequestDigest := { text : String // IsDigest text }

/-- A request that a port accepts: a JSON object, and a positive number of tokens. -/
structure ModelRequest where
  payload : Json
  maxOutputTokens : ℤ
  object : payload.isObj = true
  positive : 0 < maxOutputTokens

/-- The text of a request that is hashed. -/
def ModelRequest.serialized (request : ModelRequest) : List Char :=
  Json.encode (.arr [request.payload, .int request.maxOutputTokens])

/-- The digest of a request. -/
def ModelRequest.digest (sha256 : List Char → RequestDigest) (request : ModelRequest) :
    RequestDigest := sha256 request.serialized

/-- What a leaf sees of a call: a JSON value, or the message of a `RuntimeError`. -/
inductive Answer
  | result (value : Json)
  | error (message : String)

/-- Results are JSON objects, and the messages of terminal errors are not empty. -/
def Answer.Valid : Answer → Prop
  | .result value => value.isObj = true
  | .error message => message ≠ ""

/-- What comes of an inference. -/
abbrev Outcome := { answer : Answer // answer.Valid }

/-- A record as the workflow hands it to the planning activity. -/
structure RecordEntry where
  requestDigest : String
  result : Option Json := none
  error : Option String := none

/-- A record that has passed its checks. -/
structure ModelRecord where
  requestDigest : RequestDigest
  outcome : Outcome

/-- The checks of a record. -/
def ModelRecord.make (entry : RecordEntry) : Except String ModelRecord :=
  if digest : IsDigest entry.requestDigest then
    match entry.result, entry.error with
    | none, none | some _, some _ =>
      .error "a record must have exactly one result or terminal error"
    | none, some message =>
      if nonempty : message ≠ "" then .ok ⟨⟨_, digest⟩, ⟨.error message, nonempty⟩⟩
      else .error "a terminal model error must be a nonempty string"
    | some value, none =>
      if object : value.isObj = true then .ok ⟨⟨_, digest⟩, ⟨.result value, object⟩⟩
      else .error "a model result must be a JSON object"
  else .error "invalid model request digest"

/-- The record of a request, as the workflow appends it. -/
def RecordEntry.of (digest : RequestDigest) (outcome : Outcome) : RecordEntry :=
  match outcome.val with
  | .result value => { requestDigest := digest.val, result := some value }
  | .error message => { requestDigest := digest.val, error := some message }

/-- What the workflow appends passes the checks. -/
theorem ModelRecord.make_of (digest : RequestDigest) (outcome : Outcome) :
    ModelRecord.make (.of digest outcome) = .ok ⟨digest, outcome⟩ := by
  obtain ⟨text, valid⟩ := digest
  obtain ⟨answer, fits⟩ := outcome
  cases answer with
  | result value =>
    have object : value.isObj = true := fits
    simp only [RecordEntry.of, make, dif_pos valid, dif_pos object]
  | error message =>
    have nonempty : message ≠ "" := fits
    simp only [RecordEntry.of, make, dif_pos valid, dif_pos nonempty]

/-! ### The port -/

/-- A call that waits for its answer. -/
structure ModelCall where
  request : ModelRequest
  requestDigest : RequestDigest

/-- The port of one run of a leaf. A leaf runs in the task that has made its port. -/
structure ModelPort where
  records : List ModelRecord
  /-- How many records were used. -/
  ordinal : ℕ := 0
  pending : Option ModelCall := none
  violation : Option String := none
  closed : Bool := false

/-- What a call raises. -/
inductive Raised
  | runtimeError (message : String)
  /-- A `RuntimeError` too. -/
  | stepReplayError (message : String)
  /-- Another `RuntimeError`: the payload is nested deeper than it can be encoded. -/
  | recursionError
  /-- Not an `Exception`, so that leaves do not catch it. -/
  | awaitModelCall

/-- How a run of a leaf ends. -/
inductive Ended
  | returned (value : Json)
  /-- An exception of the leaf. -/
  | raised (message : String)
  | suspended

namespace ModelPort

variable (sha256 : List Char → RequestDigest) (port : ModelPort)

/-- Refuse a call, and all calls after it. -/
def reject (message : String) : Except Raised Json × ModelPort :=
  (.error (.stepReplayError message), { port with violation := some message })

/-- A call of the model. -/
def invoke (payload : Json) (maxOutputTokens : ℤ) : Except Raised Json × ModelPort :=
  match port.violation with
  | some message => (.error (.stepReplayError message), port)
  | none =>
    if port.closed then
      port.reject "model leaves must be sequential; use durable children for fan-out"
    else if port.pending.isSome then
      port.reject "leaf suppressed its suspension instead of awaiting a recorded response"
    else if positive : 0 < maxOutputTokens then
      if object : payload.isObj = true then
        let request : ModelRequest := ⟨payload, maxOutputTokens, object, positive⟩
        let digest := request.digest sha256
        match port.records[port.ordinal]? with
        | some record =>
          if record.requestDigest ≠ digest then
            port.reject ("model request changed at ordinal " ++ toString port.ordinal)
          else
            let port := { port with ordinal := port.ordinal + 1 }
            match record.outcome.val with
            | .error message => (.error (.runtimeError message), port)
            | .result value => (.ok value, port)
        | none => (.error .awaitModelCall, { port with pending := some ⟨request, digest⟩ })
      else port.reject "model payload must be a JSON object"
    else port.reject "max_output_tokens must be a positive integer"

end ModelPort

/-! ### Leaves -/

/-- A leaf: it ends, or makes a call and goes on by its answer. An exception that it
catches is an answer like any other. -/
inductive Leaf
  | returns (value : Json)
  | raises (message : String)
  | call (request : ModelRequest) (next : Answer → Leaf)

namespace Leaf

/-- Run a leaf with a port. -/
def run (sha256 : List Char → RequestDigest) : Leaf → ModelPort → Ended × ModelPort
  | .returns value, port => (.returned value, port)
  | .raises message, port => (.raised message, port)
  | .call request next, port =>
    match port.invoke sha256 request.payload request.maxOutputTokens with
    | (.ok value, port) => (next (.result value)).run sha256 port
    | (.error (.runtimeError message), port) | (.error (.stepReplayError message), port) =>
      (next (.error message)).run sha256 port
    | (.error .recursionError, port) =>
      (next (.error "maximum recursion depth exceeded")).run sha256 port
    | (.error .awaitModelCall, port) => (.suspended, port)

/-- The calls of a run against the model, and its value or the exception of the leaf. -/
structure DirectRun where
  calls : List ModelRequest
  ended : Except String Json

/-- Run a leaf against the model. -/
def direct (oracle : ModelRequest → Outcome) : Leaf → DirectRun
  | .returns value => ⟨[], .ok value⟩
  | .raises message => ⟨[], .error message⟩
  | .call request next =>
    let rest := (next (oracle request).val).direct oracle
    ⟨request :: rest.calls, rest.ended⟩

end Leaf

/-! ### Planning -/

/-- What a planning turn returns. -/
structure ModelStep where
  done : Bool
  result : Option Json := none
  call : Option ModelCall := none

/-- What a planning turn raises. -/
inductive PlanError
  /-- The leaf has raised. -/
  | leaf (message : String)
  | replay (message : String)
  | record (message : String)

/-- Run a leaf against records. Values are immutable here, so nothing is copied. -/
def planModelStep (sha256 : List Char → RequestDigest) (body : Leaf)
    (records : List ModelRecord) : Except PlanError ModelStep :=
  match body.run sha256 { records } with
  | (.suspended, port) =>
    match port.violation with
    | some message => .error (.replay message)
    | none => .ok { done := false, call := port.pending }
  | (.raised message, _) => .error (.leaf message)
  | (.returned value, port) =>
    match port.violation with
    | some message => .error (.replay message)
    | none =>
      if port.pending.isSome then .error (.replay "leaf suppressed its model suspension")
      else if port.ordinal ≠ records.length then
        .error (.replay "unused model records: leaf control flow changed")
      else .ok { done := true, result := some value }

/-- The checks of all records. -/
def makeRecords : List RecordEntry → Except String (List ModelRecord)
  | [] => .ok []
  | entry :: rest => do
    let record ← ModelRecord.make entry
    let records ← makeRecords rest
    return record :: records

/-- The planning activity. -/
def planner (sha256 : List Char → RequestDigest) (body : Leaf) (entries : List RecordEntry) :
    Except PlanError ModelStep :=
  match makeRecords entries with
  | .ok records => planModelStep sha256 body records
  | .error message => .error (.record message)

/-! ### The workflow -/

/-- How a model step ends. -/
inductive StepEnd
  | returned (value : Json)
  /-- The planning activity has failed. -/
  | failed (error : PlanError)
  /-- `model step call budget exhausted`. -/
  | exhausted
  /-- A planning turn has returned neither a result nor a call. -/
  | malformed

/-- The inferences of a model step, and its end. -/
structure StepRun where
  asked : List ModelRequest
  ended : StepEnd

/-- The loop of `model_step`, with as many calls left as the number says. -/
def modelLoop (plan : List RecordEntry → Except PlanError ModelStep)
    (oracle : ModelRequest → Outcome) : ℕ → List RecordEntry → StepRun
  | remaining, records =>
    match plan records with
    | .error error => ⟨[], .failed error⟩
    | .ok ⟨true, some value, _⟩ => ⟨[], .returned value⟩
    | .ok ⟨false, _, some call⟩ =>
      match remaining with
      | 0 => ⟨[], .exhausted⟩
      | remaining + 1 =>
        let rest := modelLoop plan oracle remaining
          (records ++ [.of call.requestDigest (oracle call.request)])
        ⟨call.request :: rest.asked, rest.ended⟩
    | .ok _ => ⟨[], .malformed⟩

/-! ### Replay -/

section Replay

variable {sha256 : List Char → RequestDigest} {oracle : ModelRequest → Outcome}

/-- The record of a call of the direct run. -/
def ModelRequest.record (sha256 : List Char → RequestDigest) (oracle : ModelRequest → Outcome)
    (request : ModelRequest) : ModelRecord := ⟨request.digest sha256, oracle request⟩

/-- A port that has used all records before the given ones, and has refused nothing. -/
def ModelPort.used (before rest : List ModelRecord) : ModelPort where
  records := before ++ rest
  ordinal := before.length

theorem ModelPort.invoke_used_nil (before : List ModelRecord) (request : ModelRequest) :
    (used before []).invoke sha256 request.payload request.maxOutputTokens =
      (.error .awaitModelCall,
        { used before [] with pending := some ⟨request, request.digest sha256⟩ }) := by
  have unrecorded : (before ++ [])[before.length]? = none := by simp
  simp only [invoke, used, dif_pos request.positive, dif_pos request.object, unrecorded]
  rfl

theorem ModelPort.invoke_used_cons (before rest : List ModelRecord) (request : ModelRequest) :
    (used before (request.record sha256 oracle :: rest)).invoke sha256 request.payload
        request.maxOutputTokens =
      (match (oracle request).val with
        | .error message => .error (.runtimeError message)
        | .result value => .ok value,
        used (before ++ [request.record sha256 oracle]) rest) := by
  have recorded : (before ++ request.record sha256 oracle :: rest)[before.length]? =
      some (request.record sha256 oracle) := by simp
  simp only [invoke, used, dif_pos request.positive, dif_pos request.object, recorded]
  simp only [Bool.false_eq_true, if_false, Option.isSome_none]
  have unchanged : (request.record sha256 oracle).requestDigest = request.digest sha256 := rfl
  rw [if_neg (not_not_intro unchanged)]
  simp only [ModelRequest.record, List.length_append, List.length_singleton, List.append_assoc,
    List.singleton_append]
  cases (oracle request).val <;> rfl

namespace Leaf

variable (leaf : Leaf)

/-- The records of the direct run. -/
def records (sha256 : List Char → RequestDigest) (oracle : ModelRequest → Outcome) :
    List ModelRecord := (leaf.direct oracle).calls.map (·.record sha256 oracle)

/-- A leaf whose first call is recorded goes on with the recorded answer. -/
theorem run_used_cons (before rest : List ModelRecord) (request : ModelRequest)
    (next : Answer → Leaf) :
    (call request next).run sha256 (.used before (request.record sha256 oracle :: rest)) =
      (next (oracle request).val).run sha256
        (.used (before ++ [request.record sha256 oracle]) rest) := by
  rw [run, ModelPort.invoke_used_cons]
  cases (oracle request).val <;> rfl

/-- With all records of the direct run, a leaf ends as it ends there. -/
theorem run_ends (before : List ModelRecord) :
    leaf.run sha256 (.used before (leaf.records sha256 oracle)) =
      (match (leaf.direct oracle).ended with
        | .ok value => .returned value
        | .error message => .raised message,
        .used (before ++ leaf.records sha256 oracle) []) := by
  -- the records used so far grow along the leaf
  induction leaf generalizing before with
  | returns value =>
    have none : (returns value).records sha256 oracle = [] := rfl
    rw [none, List.append_nil]
    rfl
  | raises message =>
    have none : (raises message).records sha256 oracle = [] := rfl
    rw [none, List.append_nil]
    rfl
  | call request next ih =>
    have first : (call request next).records sha256 oracle =
        request.record sha256 oracle :: (next (oracle request).val).records sha256 oracle := rfl
    rw [first, run_used_cons, ih, List.append_assoc]
    rfl

/-- With some of the records of the direct run, a leaf is suspended at the next call. -/
theorem run_suspends (before : List ModelRecord) {count : ℕ} {request : ModelRequest}
    (next : (leaf.direct oracle).calls[count]? = some request) :
    leaf.run sha256 (.used before ((leaf.records sha256 oracle).take count)) =
      (.suspended, { ModelPort.used (before ++ (leaf.records sha256 oracle).take count) [] with
        pending := some ⟨request, request.digest sha256⟩ }) := by
  induction leaf generalizing before count with
  | returns value => cases next
  | raises message => cases next
  | call first after ih =>
    have records : (call first after).records sha256 oracle =
        first.record sha256 oracle :: (after (oracle first).val).records sha256 oracle := rfl
    cases count with
    | zero =>
      obtain rfl : first = request := Option.some.inj next
      rw [List.take_zero, run, ModelPort.invoke_used_nil, List.append_nil]
    | succ count =>
      have later : ((after (oracle first).val).direct oracle).calls[count]? = some request := next
      rw [records, List.take_succ_cons, run_used_cons, ih _ _ later, List.append_assoc]
      rfl

end Leaf

/-- The entries of requests, as the workflow appends them. -/
def entriesOf (sha256 : List Char → RequestDigest) (oracle : ModelRequest → Outcome)
    (requests : List ModelRequest) : List RecordEntry :=
  requests.map fun request => .of (request.digest sha256) (oracle request)

theorem makeRecords_entriesOf (requests : List ModelRequest) :
    makeRecords (entriesOf sha256 oracle requests) =
      .ok (requests.map (·.record sha256 oracle)) := by
  induction requests with
  | nil => rfl
  | cons request rest ih =>
    have checked : makeRecords (entriesOf sha256 oracle (request :: rest)) = do
        let record ← ModelRecord.make (.of (request.digest sha256) (oracle request))
        let records ← makeRecords (entriesOf sha256 oracle rest)
        return record :: records := rfl
    rw [checked, ModelRecord.make_of, ih]
    rfl

variable (leaf : Leaf)

/-- A planning turn with some of the records of the direct run returns its next call. -/
theorem planner_next {count : ℕ} {request : ModelRequest}
    (next : (leaf.direct oracle).calls[count]? = some request) :
    planner sha256 leaf (entriesOf sha256 oracle ((leaf.direct oracle).calls.take count)) =
      .ok { done := false, call := some ⟨request, request.digest sha256⟩ } := by
  have records : (leaf.records sha256 oracle).take count =
      ((leaf.direct oracle).calls.take count).map (·.record sha256 oracle) :=
    (List.map_take ..).symm
  have run := @Leaf.run_suspends sha256 oracle leaf [] _ _ next
  rw [records] at run
  have fresh (records : List ModelRecord) : ({ records } : ModelPort) = .used [] records := rfl
  rw [planner, makeRecords_entriesOf]
  simp only [planModelStep]
  rw [fresh, run]
  rfl

/-- A planning turn with all records of the direct run ends as it ends. -/
theorem planner_last :
    planner sha256 leaf (entriesOf sha256 oracle (leaf.direct oracle).calls) =
      match (leaf.direct oracle).ended with
      | .ok value => .ok { done := true, result := some value }
      | .error message => .error (.leaf message) := by
  have run := @Leaf.run_ends sha256 oracle leaf []
  have fresh : ({ records := (leaf.direct oracle).calls.map (·.record sha256 oracle) } :
      ModelPort) = .used [] (leaf.records sha256 oracle) := rfl
  rw [planner, makeRecords_entriesOf]
  simp only [planModelStep]
  rw [fresh, run]
  cases (leaf.direct oracle).ended with
  | error message => rfl
  | ok value =>
    have all : (ModelPort.used ([] ++ leaf.records sha256 oracle) []).ordinal =
        ((leaf.direct oracle).calls.map (·.record sha256 oracle)).length := rfl
    have idle : ¬ (ModelPort.used ([] ++ leaf.records sha256 oracle) []).pending.isSome = true :=
      Bool.false_ne_true
    change (if _ then _ else _) = _
    rw [if_neg idle, if_neg (not_not_intro all)]

/-- How the loop ends when the direct run has ended. -/
def StepEnd.ofDirect : Except String Json → StepEnd
  | .ok value => .returned value
  | .error message => .failed (.leaf message)

/-- With the records of all calls, the loop ends at once. -/
theorem modelLoop_last (remaining : ℕ) :
    modelLoop (planner sha256 leaf) oracle remaining
        (entriesOf sha256 oracle (leaf.direct oracle).calls) =
      ⟨[], .ofDirect (leaf.direct oracle).ended⟩ := by
  rw [modelLoop, planner_last]
  cases (leaf.direct oracle).ended <;> rfl

/-- The loop from a planning turn on: it asks the rest of the calls, as far as it may. -/
theorem modelLoop_from (remaining count : ℕ)
    (within : count ≤ (leaf.direct oracle).calls.length) :
    modelLoop (planner sha256 leaf) oracle remaining
        (entriesOf sha256 oracle ((leaf.direct oracle).calls.take count)) =
      if (leaf.direct oracle).calls.length ≤ count + remaining then
        ⟨(leaf.direct oracle).calls.drop count, .ofDirect (leaf.direct oracle).ended⟩
      else ⟨((leaf.direct oracle).calls.drop count).take remaining, .exhausted⟩ := by
  rcases within.eq_or_lt with last | more
  · rw [last, List.take_length, modelLoop_last, List.drop_length, if_pos (by omega)]
  -- the next call is not recorded: the turn returns it
  have next := List.getElem?_eq_getElem more
  induction remaining generalizing count with
  | zero => rw [modelLoop, planner_next leaf next, if_neg (by omega), List.take_zero]
  | succ remaining ih =>
    have appended : entriesOf sha256 oracle ((leaf.direct oracle).calls.take count) ++
        [.of ((leaf.direct oracle).calls[count].digest sha256)
          (oracle (leaf.direct oracle).calls[count])] =
        entriesOf sha256 oracle ((leaf.direct oracle).calls.take (count + 1)) := by
      rw [List.take_add_one, next, entriesOf, entriesOf, List.map_append]
      rfl
    rw [modelLoop, planner_next leaf next, List.drop_eq_getElem_cons more]
    simp only [appended]
    rcases Nat.eq_or_lt_of_le more with last | further
    · -- that was the last call
      have last : count + 1 = (leaf.direct oracle).calls.length := last
      rw [last, List.take_length, modelLoop_last, List.drop_length, if_pos (by omega)]
    · rw [ih (count + 1) more further (List.getElem?_eq_getElem further)]
      have same : count + 1 + remaining = count + (remaining + 1) := by omega
      rw [same]
      split <;> rfl

/-- The loop of a model step replays the direct run of its leaf. If that makes no more calls
than the loop may, the loop asks for the same inferences in the same order and ends in the
same way. Otherwise it fails after as many inferences as it may ask for. -/
theorem modelLoop_replays (maxModelCalls : ℕ) :
    modelLoop (planner sha256 leaf) oracle maxModelCalls [] =
      if (leaf.direct oracle).calls.length ≤ maxModelCalls then
        ⟨(leaf.direct oracle).calls, .ofDirect (leaf.direct oracle).ended⟩
      else ⟨(leaf.direct oracle).calls.take maxModelCalls, .exhausted⟩ := by
  have run := @modelLoop_from sha256 oracle leaf maxModelCalls 0 (Nat.zero_le _)
  rw [List.take_zero, List.drop_zero, Nat.zero_add] at run
  exact run

end Replay

end IntramindRuntime.Workflow
