import IntramindRuntime.Contracts
import IntramindRuntime.Library.JsonPath
import IntramindRuntime.Library.Script
import IntramindRuntime.Library.Utf8

/-!
# The executor

A tick reserves an attempt, asks the runtime API for a permit, marks the attempt as sent, asks
for the permit again, and hands the payload to the engine. A result is stored until that
succeeds; whatever else happens ends in one more write to the ledger, which is moved to the
background if it fails four times. Every call may fail, and the tick may be cancelled wherever it
waits.

## Main definitions

* `Call`, `Answer`, `Error` — what an executor asks, and what comes back
* `acquire`, `heartbeatPermit`, `releasePermit` — the client of the runtime API
* `Ending`, `writeEnd`, `endAttempt` — the last write of an attempt
* `tick` — one turn of an executor
-/

namespace IntramindRuntime.Execution

open Library

/-- The seconds of the source, in microseconds. -/
def seconds (n : ℕ) : Time := n * 1000000

/-- What an engine has computed: an `EngineResult`, a `SpeechResult` or an `EmbeddingResult`. -/
inductive Result
  | engine (body : List (String × Json)) (inputTokens outputTokens : Option ℕ)
  | speech (body : List (String × Json)) (audio : List UInt8) (characters : ℕ+)
  | embedding (body : List (String × Json)) (characters : ℕ)

/-- `DriverFailure`. -/
structure DriverFailure where
  reason : String
  notSent : Bool := false
  finished : Bool := false
  retry : Bool := false
  deriving DecidableEq, Repr

/-- What a call may raise. -/
inductive Error
  | driver (failure : DriverFailure)
  | timeout
  /-- The `asyncio.timeout` around the call has passed: its `CancelledError`, or a
  `TimeoutError` that a callee makes of it. Where there is none, one more cancellation. -/
  | expired
  | cancelled
  | sendBudget (reason : SendRefusal)
  /-- Any other `RuntimeConflict`. -/
  | conflict
  /-- `httpx.TransportError`. -/
  | transport
  /-- The `OverflowError` of a delay that is too large for a float. -/
  | overflow
  | other
  deriving DecidableEq, Repr

/-- The error is caught by `except Exception`. -/
def Error.isException : Error → Bool
  | .expired | .cancelled => false
  | _ => true

/-- What leaves a settlement in the background: a cancellation, or the overflow of its delay. -/
def Error.escapes (e : Error) : Bool :=
  !e.isException || e = .overflow

/-- The error is a `RuntimeConflict`. -/
def Error.isConflict : Error → Bool
  | .sendBudget _ | .conflict => true
  | _ => false

/-- The body of a request for a permit. -/
structure PermitRequest where
  attemptId : String
  poolId : String
  ownerId : String
  engineEpoch : String
  workloadClass : WorkloadClass
  deadline : Time

/-- The body of the requests about a permit. -/
structure PermitIdentity where
  attemptId : String
  ownerId : String
  deriving DecidableEq

/-- An answer of the runtime API: its status, and the texts of the JSON object it carries. -/
structure Response where
  status : ℕ
  fields : Option (String → Option String)

/-- The last write of an attempt. -/
inductive Ending
  /-- What `settle` writes after a `DriverFailure`. -/
  | settle (failure : DriverFailure) (delay : Time)
  /-- The attempt was not sent, and may be tried again. -/
  | fail (reason : String)
  | unknown (reason : String)
  deriving DecidableEq

/-- What an executor asks other parties. -/
inductive Call
  | reserveNext (poolId ownerId : String)
  /-- `datetime.now(UTC)`. -/
  | now
  | acquirePermit (request : PermitRequest)
  | heartbeatPermit (identity : PermitIdentity)
  | releasePermit (identity : PermitIdentity)
  | sleep (duration : Time)
  | getArtifact (artifact : Artifact)
  | putArtifact (tenantId : String) (data : List UInt8) (contentType : String)
  | markSend (reservation : Reservation)
  | execute (reservation : Reservation) (payload : Json)
  | computeFinished (reservation : Reservation)
  | commitResult (reservation : Reservation) (artifact : Artifact) (usage : Option ℤ)
      (attachments : List Artifact)
  | unknown (reservation : Reservation) (reason : String)
  | fail (reservation : Reservation) (reason : String) (notSent retry : Bool) (delay : Time)
  | attemptComputeHeld (attemptId : String)
  /-- `random.uniform(0, most)`. -/
  | uniform (most : Time)
  /-- `asyncio.create_task` for the settlement that goes on in the background. -/
  | createTask (reservation : Reservation) (ending : Ending)
  /-- That settlement has ended, with an error if there is one, and is dropped from
  `_settlements`. -/
  | discard (reservation : Reservation) (ending : Ending) (error : Option Error)

/-- What a call returns. -/
@[reducible] def Answer : Call → Type
  | .reserveNext .. => Option Reservation
  | .now | .uniform _ => Time
  | .acquirePermit _ | .heartbeatPermit _ | .releasePermit _ => Response
  | .getArtifact _ => List UInt8
  | .putArtifact .. => Artifact
  | .execute .. => Result
  | .attemptComputeHeld _ => Bool
  | _ => Unit

/-- What comes back from a call: clocks, dice and task creation do not raise, sleep is only
cancelled, only a driver raises a `DriverFailure`, and no driver raises a `RuntimeConflict`. -/
def mayAnswer : (call : Call) → Except Error (Answer call) → Prop
  | .now, answer | .uniform _, answer | .createTask .., answer | .discard .., answer =>
    answer.isOk = true
  | .sleep _, answer => ∀ e, answer = .error e → e.isException = false
  | .execute .., answer => ∀ e, answer = .error e → e.isConflict = false
  | _, answer => ∀ failure, answer ≠ .error (.driver failure)

/-- The variables of a tick. -/
structure Locals where
  reservation : Option Reservation := none
  permitReady : Bool := false
  sendMarked : Bool := false
  terminationRecorded : Bool := false

/-- Code of the executor. -/
abbrev Code (α : Type) : Type :=
  Routine Call (fun call => Except Error (Answer call)) Locals Error α

/-- A task of the executor, somewhere in its code. -/
abbrev Running : Type :=
  Script Call (fun call => Except Error (Answer call)) (Except Error Bool × Locals)

/-- Ask, and wait for the answer. -/
abbrev ask (call : Call) : Code (Answer call) := Routine.call call

/-! ### The client of the runtime API -/

/-- The time that is left until the deadline of an attempt. -/
def remaining (reservation : Reservation) : Code Time := do
  let now : Time ← ask .now
  return reservation.attemptDeadline - now

/-- The permit that a reservation asks for. -/
def PermitRequest.of (reservation : Reservation) : PermitRequest where
  attemptId := reservation.attemptId
  poolId := reservation.poolId
  ownerId := reservation.ownerId
  engineEpoch := reservation.engineEpoch
  workloadClass := reservation.workloadClass
  deadline := reservation.attemptDeadline

/-- The permit of a reservation. -/
def PermitIdentity.of (reservation : Reservation) : PermitIdentity where
  attemptId := reservation.attemptId
  ownerId := reservation.ownerId

/-- `async with asyncio.timeout(…)`. -/
def withTimeout {α : Type} (block : Code α) : Code α :=
  tryCatch block fun e => throw (if e = .expired then .timeout else e)

/-- What an answer to `internal/permits/acquire` means: there is a permit, or another request is
to be made. -/
def granted (reservation : Reservation) (response : Response) : Code Bool :=
  if response.status = 200 then
    match response.fields with
    | none => throw .other
    | some get =>
      if get "attempt_id" ≠ some reservation.attemptId ∨ get "pool_id" ≠ some reservation.poolId ∨
          get "engine_epoch" ≠ some reservation.engineEpoch then throw .conflict
      else pure true
  else if response.status = 409 then throw .conflict
  else if response.status = 504 then throw .timeout
  else if response.status ∈ [401, 403, 422] then throw .conflict
  else pure false

/-- One request of `PermitClient.acquire`, with what it makes of an error. -/
def requestPermit (reservation : Reservation) (left : Time) : Code Bool :=
  tryCatch (do
    let response ← withTimeout (ask (.acquirePermit (.of reservation)))
    granted reservation response) fun e =>
  match e with
  | .transport => pure false
  | .timeout => if left ≤ seconds 1 then throw .timeout else pure false
  | e => throw e

/-- `PermitClient.acquire`. -/
def acquire (rounds : ℕ) (reservation : Reservation) : Code Unit :=
  Routine.loop (fun _ => do
    let left ← remaining reservation
    if left ≤ 0 then throw .timeout
    else
      if ← requestPermit reservation left then return .inr ()
      else
        let left ← remaining reservation
        ask (.sleep (min (seconds 1) (max 0 left)))
        return .inl ()) rounds ()

/-- `PermitClient.heartbeat`. -/
def heartbeatPermit (reservation : Reservation) : Code Unit := do
  let response ← ask (.heartbeatPermit (.of reservation))
  if response.status ≠ 200 then throw .conflict else pure ()

/-- `PermitClient.release`. -/
def releasePermit (reservation : Reservation) : Code Unit := do
  let response ← ask (.releasePermit (.of reservation))
  if response.status ≠ 200 then throw .conflict else pure ()

/-! ### The end of an attempt -/

/-- `SETTLE_TRIES`. -/
def settleTries : ℕ := 4

/-- The engine is known to be done. -/
def finishCompute (reservation : Reservation) (failure : DriverFailure) : Code Unit :=
  if failure.finished then ask (.computeFinished reservation) else pure ()

/-- The calls of a last write. -/
def write (reservation : Reservation) : Ending → Code Unit
  | .settle failure delay => do
    finishCompute reservation failure
    if failure.finished || failure.notSent then
      ask (.fail reservation failure.reason failure.notSent failure.retry delay)
    else ask (.unknown reservation failure.reason)
  | .fail reason => ask (.fail reservation reason true true 0)
  | .unknown reason => ask (.unknown reservation reason)

/-- `1.0 * 2 ** n` raises an `OverflowError` from here on. -/
def floatExponents : ℕ := 1024

/-- What `_write_end` makes of an error: a fenced write counts as done. -/
def writeFailed (tries : Option ℕ) (failures : ℕ) (e : Error) : Code (ℕ ⊕ Bool) :=
  if e.isConflict then return .inr true
  else if e.isException then
    if tries.any (· ≤ failures + 1) then return .inr false
    else if floatExponents ≤ failures then throw .overflow
    else do
      ask (.sleep (min (seconds 30) (seconds 1 * 2 ^ failures)))
      return .inl (failures + 1)
  else throw e

/-- `_write_end`: it is `false` only when the tries ran out. -/
def writeEnd (rounds : ℕ) (reservation : Reservation) (ending : Ending) (tries : Option ℕ) :
    Code Bool :=
  Routine.loop (fun failures => tryCatch (do
    write reservation ending
    return .inr true) (writeFailed tries failures)) rounds 0

/-- `_end_attempt`. -/
def endAttempt (rounds : ℕ) (reservation : Reservation) (ending : Ending) : Code Unit := do
  if ← writeEnd rounds reservation ending (some settleTries) then pure ()
  else ask (.createTask reservation ending)

/-- A settlement in the background, with its callback: however it ends, it is dropped. -/
def settlement (rounds : ℕ) (reservation : Reservation) (ending : Ending) : Code Bool := do
  let done ← tryCatch (writeEnd rounds reservation ending none) fun e => do
    ask (.discard reservation ending (some e))
    throw e
  ask (.discard reservation ending none)
  return done

/-! ### A tick -/

/-- What depends on the formats of other libraries: `json.loads` of bytes. -/
abbrev Loads : Type := List UInt8 → Option Json

/-- `artifact.model_dump(mode="json")`. -/
def dumpArtifact (artifact : Artifact) : Json :=
  .obj [("key", .str artifact.key), ("sha256", .str artifact.sha256), ("size", .int artifact.size),
    ("content_type", .str artifact.contentType)]

/-- `result.model_dump(mode="json")`, and the audio of a speech result. -/
def Result.document (result : Result) (audio : Option Artifact) : Json :=
  match result with
  | .engine body input output => .obj [("body", .obj body),
      ("input_tokens", input.elim .null fun n => .int n),
      ("output_tokens", output.elim .null fun n => .int n)]
  | .speech body _ characters => .obj [("body", .obj (audio.elim body fun artifact =>
      Json.setMember "audio" (dumpArtifact artifact) body)),
      ("characters", .int (characters : ℕ))]
  | .embedding body characters => .obj [("body", .obj body), ("characters", .int characters)]

/-- What a result is charged. -/
def Result.usage : Result → Option ℤ
  | .engine _ (some input) (some output) => some (input + output)
  | .engine .. => none
  | .speech _ _ characters => some (characters : ℕ)
  | .embedding _ characters => some (max 1 characters)

/-- The bytes that are stored for a result: `encode(document).encode()`. -/
def Result.data (result : Result) (audio : Option Artifact) : List UInt8 :=
  Utf8.encode (Json.encode (result.document audio))

/-- An attempt whose time is over before it is sent. -/
def deadlineExceeded : DriverFailure where
  reason := "attempt_deadline_exceeded"
  notSent := true
  retry := true

/-- Up to the permit. -/
def prepare (rounds : ℕ) (reservation : Reservation) : Code Unit := do
  let left ← remaining reservation
  if left ≤ 0 then throw (.driver deadlineExceeded)
  else
    tryCatch (do
      acquire rounds reservation
      modify fun l => { l with permitReady := true }) fun e =>
      throw (if e = .timeout then .driver deadlineExceeded else e)
    let left ← remaining reservation
    if left ≤ 0 then throw (.driver deadlineExceeded) else pure ()

/-- What follows is under the deadline of the attempt. -/
def send (loads : Loads) (reservation : Reservation) : Code Result := do
  let bytes ← ask (.getArtifact reservation.operation.payload)
  match loads bytes with
  | none => throw .other
  | some payload =>
    ask (.markSend reservation)
    heartbeatPermit reservation
    modify fun l => { l with sendMarked := true }
    ask (.execute reservation payload)

/-- What is made of a `TimeoutError` of `send`. -/
def sendFailed (e : Error) : Code Result := do
  let l ← get
  match e with
  | .expired => throw (.driver
      { reason := "attempt_deadline_exceeded", notSent := !l.sendMarked, retry := !l.sendMarked })
  | .timeout => throw (.driver
      { reason := "transport_timeout", notSent := !l.sendMarked, retry := !l.sendMarked })
  | e => throw e

/-- The release after a recorded termination. A permit that stays is reconciled. -/
def releaseFinished (reservation : Reservation) : Code Unit :=
  tryCatch (do
    releasePermit reservation
    modify fun l => { l with permitReady := false }) fun e =>
  if e.isException then pure () else throw e

/-- `compute_finished`, once. -/
def recordTermination (reservation : Reservation) : Code Unit := do
  let l ← get
  if l.terminationRecorded then pure ()
  else
    ask (.computeFinished reservation)
    modify fun l => { l with terminationRecorded := true }
    releaseFinished reservation

/-- The audio of a speech result becomes an artifact of its own. -/
def putAudio (reservation : Reservation) : Result → Code (Option Artifact)
  | .speech _ audio _ => do
    let artifact ← ask (.putArtifact reservation.operation.tenantId audio "audio/wav")
    return some artifact
  | _ => pure none

/-- One round of the loop that stores a result. -/
def persistOnce (reservation : Reservation) (result : Result) : Code Unit := do
  recordTermination reservation
  let audio ← putAudio reservation result
  let artifact ← ask (.putArtifact reservation.operation.tenantId (result.data audio)
    "application/json")
  ask (.commitResult reservation artifact result.usage audio.toList)

/-- A completed inference is never retried to repair persistence. -/
def persist (rounds : ℕ) (reservation : Reservation) (result : Result) : Code Unit :=
  Routine.loop (fun _ => tryCatch (do
    persistOnce reservation result
    return .inr ()) fun e =>
    if e.isConflict || !e.isException then throw e
    else do
      ask (.sleep (seconds 2))
      return .inl ()) rounds ()

/-- The `try` block of a tick. -/
def attempt (loads : Loads) (rounds : ℕ) (reservation : Reservation) : Code Unit := do
  prepare rounds reservation
  let result ← tryCatch (send loads reservation) sendFailed
  persist rounds reservation result

/-- `reason` of a `SendBudgetUnavailable`. -/
def refusalText : SendRefusal → String
  | .sendAttemptsExhausted => "send_attempts_exhausted"
  | .sendBudgetUnavailable => "send_budget_unavailable"

/-- How long a failed attempt is not tried again: not at all if no permit was ready in time. -/
def retryDelay (reservation : Reservation) (failure : DriverFailure) : Code Time := do
  let l ← get
  if failure.notSent && !l.permitReady && failure.reason = "attempt_deadline_exceeded" then pure 0
  else ask (.uniform (min (seconds 60) (seconds 1 * 2 ^ (reservation.sentAttempts + 1))))

/-- What is written when the tick is cancelled, if that is possible. -/
def shutdown (reservation : Reservation) : Code Unit := do
  let l ← get
  tryCatch (if l.sendMarked then ask (.unknown reservation "executor_shutdown")
    else ask (.fail reservation "shutdown_before_send" true true 0)) fun e =>
  if e.isException then pure () else throw e

/-- End an attempt that was not sent. -/
def unsent (rounds : ℕ) (reservation : Reservation) (reason : String) : Code Unit := do
  let l ← get
  if l.sendMarked then pure () else endAttempt rounds reservation (.fail reason)

/-- The handlers of the `try` block. -/
def handle (rounds : ℕ) (reservation : Reservation) : Error → Code Unit
  | .driver failure => do
    let delay ← retryDelay reservation failure
    endAttempt rounds reservation (.settle failure delay)
  | .cancelled => do
    shutdown reservation
    throw .cancelled
  | .expired => do
    shutdown reservation
    throw .expired
  | .sendBudget reason => unsent rounds reservation (refusalText reason)
  | .conflict => unsent rounds reservation "permit_fenced_before_send"
  | .timeout | .transport | .overflow | .other => do
    let l ← get
    if l.sendMarked then endAttempt rounds reservation (.unknown "executor_error_after_send")
    else endAttempt rounds reservation (.fail "payload_unavailable")

/-- The `finally` block, where the heartbeat task has ended: a permit stays while the ledger says
that compute is held. -/
def finish (reservation : Reservation) : Code Unit := do
  let l ← get
  if l.permitReady then
    tryCatch (do
      let held : Bool ← ask (.attemptComputeHeld reservation.attemptId)
      if held then pure () else releasePermit reservation) fun e =>
    if e.isException then pure () else throw e
  else pure ()

/-- `tick`. -/
def tick (loads : Loads) (rounds : ℕ) (poolId ownerId : String) : Code Bool := do
  match ← ask (.reserveNext poolId ownerId) with
  | none => return false
  | some reservation =>
    modify fun l => { l with reservation := some reservation }
    Routine.onExit (tryCatch (attempt loads rounds reservation) (handle rounds reservation))
      (finish reservation)
    return true

end IntramindRuntime.Execution
