import IntramindRuntime.Library.Framing
import IntramindRuntime.Proxy.EvidenceStream
import IntramindRuntime.Proxy.Frames
import IntramindRuntime.Scheduling.State

/-!
# One attempt

`_attempt` sends a request to an engine and passes the answer on. In the end the attempt is
settled: its compute has terminated, it was never sent, or it is unknown what became of it. Of a
stream of an llm engine, termination is proven by a line with the marker `[DONE]` only.

What the engine and the reader do is written down beforehand as an exchange: the parts of the body
as they come from the network, and what interrupts the attempt where it waits.

## Main definitions

* `Exchange` — what happens to an attempt
* `attempt` — what the attempt makes of it
* `IsDone` — a line with the marker

## Main results

* `receive_spec` — what the loop over the parts of a stream has found
* `attempt_terminated_iff` — a stream terminates the attempt exactly with a complete line that has
  the marker, wherever it is cut
-/

namespace IntramindRuntime.Proxy

open Library
open Scheduling (DirectReservation)

/-! ### What happens -/

/-- What interrupts an attempt, as far as it makes a difference. -/
inductive Interruption
  | deferred (reason : String)
  /-- The connection fails before anything is sent. -/
  | connection
  /-- A timeout, and whether the deadline of the request has passed. -/
  | timeout (late : Bool)
  | cancelled
  | failed
  deriving DecidableEq

/-- The beginning of an answer. -/
structure Head where
  status : ℕ
  header : String → Option String

/-- A part of a body, and the piece of it, if any, at which passing it on is interrupted. -/
structure Part where
  bytes : List UInt8
  interrupted : Option (ℕ × Interruption) := none

/-- What happens to an attempt, in the order in which it would notice. -/
structure Exchange where
  /-- At the deadline, at a check of the cutoff, or in `mark_send`. -/
  before : Option Interruption := none
  head : Except Interruption Head
  /-- While the frame is put that tells that the attempt has been sent. -/
  started : Option Interruption := none
  parts : List Part
  /-- Behind the parts. Without an interruption the body is complete. -/
  stop : Option Interruption := none
  /-- While the answer is put: the piece at which it is interrupted. -/
  answer : Option (ℕ × Interruption) := none
  /-- When the connection is left. -/
  exit : Option Interruption := none
  /-- The attempt is cancelled while it is settled. -/
  settling : Bool := false

/-- The bytes of a body that came. -/
def Exchange.received (exchange : Exchange) : List UInt8 := (exchange.parts.map Part.bytes).flatten

/-! ### The attempt -/

/-- The pool of an attempt, the bound of its answers, and the check of an answer by a profile. -/
structure Endpoint where
  kind : Kind
  modelRevision : String
  maxResponseBytes : ℕ
  /-- Whether `validate_response` accepts a body, unless there is no profile. -/
  profile : Option (List UInt8 → Bool)

/-- How an attempt is settled. -/
inductive Settlement
  | completedResponse
  | notSent
  | unknown (reason : String)
  deriving DecidableEq

/-- The variables of `_attempt`, what it has put on the channel, and the head of its answer. -/
structure Trial where
  sent : Bool := false
  terminated : Bool := false
  error : Option String := none
  channel : List (List UInt8) := []
  answered : Option (ℕ × List (String × String)) := none

/-- The variables of the loop over the parts. -/
structure Loop where
  size : ℕ := 0
  pending : List UInt8 := []
  buffered : List UInt8 := []
  trial : Trial

/-- The end of a line. -/
def newline : Separator UInt8 := ⟨[10], by simp⟩

/-- The statuses of an llm engine that terminate the attempt. -/
def terminalStatuses : List ℕ := [400, 401, 403, 404, 422]

/-- The pieces in which bytes are put on the channel. -/
def pieces (bytes : List UInt8) : List (List UInt8) :=
  (List.range ((bytes.length + (16 * 1024 - 1)) / (16 * 1024))).map fun i =>
    (bytes.drop (i * (16 * 1024))).take (16 * 1024)

/-- The name of a kind in a header. -/
def kindTitle : Kind → String
  | .llm => "Llm"
  | .speech => "Speech"
  | .embedding => "Embedding"
  | .rerank => "Rerank"

/-- A line with the marker. -/
def isDoneLine (line : List UInt8) : Bool :=
  (ascii "data:").isPrefixOf line && trim isSpaceByte (line.drop 5) = ascii "[DONE]"

/-- `_evidence` -/
def evidenceOf (reservation : DirectReservation) (computeState : String) : Evidence where
  attemptId := reservation.attemptId
  logicalRequestId := reservation.request.logicalRequestId
  generation := reservation.generation
  computeState := computeState

/-- Put pieces on the channel. -/
def Trial.put (trial : Trial) (pieces : List (List UInt8)) :
    Option (ℕ × Interruption) → Trial × Option Interruption
  | none => ({ trial with channel := trial.channel ++ pieces }, none)
  | some (n, interruption) =>
    if n < pieces.length then
      ({ trial with channel := trial.channel ++ pieces.take n }, some interruption)
    else ({ trial with channel := trial.channel ++ pieces }, none)

/-- The frame that tells that the attempt has been sent. -/
def startedFrame (reservation : DirectReservation) : List UInt8 :=
  Utf8.encode (namedText "intramind.control" (startedBody (evidenceOf reservation "sent")))

section Attempt

variable (endpoint : Endpoint) (reservation : DirectReservation) (streaming : Bool)

/-- The loop on a part. -/
def Loop.receive (status : ℕ) (loop : Loop) (part : Part) : Loop × Option Interruption :=
  let loop := { loop with size := loop.size + part.bytes.length }
  if endpoint.maxResponseBytes < loop.size then (loop, some .failed)
  else if streaming && status = 200 then
    let lines := frames newline (loop.pending ++ part.bytes)
    let loop := { loop with pending := lines.2 }
    if 1024 * 1024 < loop.pending.length then (loop, some .failed)
    else
      let trial :=
        { loop.trial with terminated := loop.trial.terminated || lines.1.any isDoneLine }
      let after := trial.put (pieces part.bytes) part.interrupted
      ({ loop with trial := after.1 }, after.2)
  else ({ loop with buffered := loop.buffered ++ part.bytes }, none)

/-- The loop on all parts. -/
def Loop.receiveAll (status : ℕ) : Loop → List Part → Loop × Option Interruption
  | loop, [] => (loop, none)
  | loop, part :: rest =>
    let after := loop.receive endpoint streaming status part
    match after.2 with
    | some interruption => (after.1, some interruption)
    | none => after.1.receiveAll status rest

/-- What `_attempt` does with a body. -/
def body (head : Head) (exchange : Exchange) (trial : Trial) :
    Trial × Except Interruption (String × Option String) :=
  let received := ({ trial := trial } : Loop).receiveAll endpoint streaming head.status
    exchange.parts
  match received.2.or exchange.stop with
  | some interruption => (received.1.trial, .error interruption)
  | none =>
    let trial := received.1.trial
    let buffered := received.1.buffered
    let trial :=
      if endpoint.kind = .llm && !streaming then
        { trial with terminated := head.status ∈ 200 :: terminalStatuses }
      else trial
    let contentType := (head.header "Content-Type").getD "application/json"
    let json := contentType.toList.takeWhile (· ≠ ';') = "application/json".toList
    if !trial.terminated then
      (trial, .ok ("unknown", some "direct backend termination unconfirmed"))
    else if head.status = 200 && endpoint.profile.any fun accepts => !json || !accepts buffered then
      (trial, .error .failed)
    else if streaming then
      if head.status ≠ 200 then
        let text := String.ofList ((Utf8.decode id buffered).map Prod.fst)
        let frame : ErrorFrame :=
          ⟨text, "upstream_error", none, some (evidenceOf reservation "terminated")⟩
        let after := trial.put [Utf8.encode (namedText "intramind.error" frame.body)]
          exchange.answer
        match after.2 with
        | some interruption => (after.1, .error interruption)
        | none => (after.1, .ok ("done", none))
      else (trial, .ok ("done", none))
    else
      let names := ["Retry-After", "X-Intramind-Model-Revision", "X-Intramind-Compute-State",
        "X-Intramind-" ++ kindTitle endpoint.kind ++ "-Contract"]
      let forwarded := names.filterMap fun name =>
        ((head.header name).filter fun value => value.length ≤ 512).map (name, ·)
      let trial :=
        { trial with
          answered := some (head.status, forwarded ++ [("Content-Type", contentType),
            ("X-Intramind-Attempt-ID", reservation.attemptId)]) }
      let after := trial.put (pieces buffered) exchange.answer
      match after.2 with
      | some interruption => (after.1, .error interruption)
      | none => (after.1, .ok ("done", none))

/-- The termination contract of a native endpoint is met. -/
def confirmed (head : Head) : Bool :=
  head.header ("X-Intramind-" ++ kindTitle endpoint.kind ++ "-Contract") = some "termination-v1" &&
    head.header "X-Intramind-Attempt-ID" = some reservation.attemptId &&
    head.header "X-Intramind-Compute-State" ∈ [some "terminated", some "not_started"]

/-- What `_attempt` does with an answer. -/
def respond (head : Head) (exchange : Exchange) (trial : Trial) :
    Trial × Except Interruption (String × Option String) :=
  let native : Bool := endpoint.kind ≠ .llm
  if native && !confirmed endpoint reservation head then (trial, .error .failed)
  else
    let trial := { trial with terminated := native }
    if native && head.status = 200 &&
        (head.header "X-Intramind-Compute-State" ≠ some "terminated" ||
          head.header "X-Intramind-Model-Revision" ≠ some endpoint.modelRevision) then
      (trial, .error .failed)
    else if !native && head.status = 503 then
      match exchange.stop with
      | some interruption => (trial, .error interruption)
      | none =>
        if (ascii "Loading model").isPrefixOf exchange.received then
          ({ trial with sent := false }, .ok ("not_sent", none))
        else
          let reason := "engine rejected request without termination proof"
          ({ trial with error := some reason }, .ok ("unknown", some reason))
    else if !native && head.status ∉ 200 :: terminalStatuses then
      (trial, .ok ("unknown", some "engine rejected request without termination proof"))
    else
      let tries : Bool := streaming && reservation.request.admissionMode = .try
      match if tries then exchange.started else none with
      | some interruption => (trial, .error interruption)
      | none =>
        let trial :=
          { trial with
            channel := trial.channel ++ if tries then [startedFrame reservation] else []
            terminated := trial.terminated || (!native && head.status ∈ terminalStatuses) }
        body endpoint reservation streaming head exchange trial

/-- `_attempt` within its `try`. -/
def trial (exchange : Exchange) : Trial × Except Interruption (String × Option String) :=
  match exchange.before, exchange.head with
  | some interruption, _ => ({}, .error interruption)
  | none, .error interruption => ({ sent := true }, .error interruption)
  | none, .ok head =>
    let after := respond endpoint reservation streaming head exchange { sent := true }
    match exchange.exit with
    | some interruption => (after.1, .error interruption)
    | none => after

/-- What becomes of an attempt: what it returns unless it is cancelled, how it is settled, and
the variables in the end. -/
structure Attempted where
  returned : Option (String × Option String)
  settlement : Settlement
  trial : Trial

/-- The handlers of `_attempt`. -/
def handle (trial : Trial) : Interruption → Trial × Option (String × Option String)
  | .deferred reason => (trial, some ("deferred", some reason))
  | .cancelled => (trial, none)
  | other =>
    let trial :=
      match other with
      | .connection =>
        { trial with sent := false, error := some "direct backend connection failed" }
      | .timeout late =>
        { trial with
          error := some (if late then "inference request deadline exceeded"
            else "direct backend attempt timed out") }
      | _ => { trial with error := some "direct inference interrupted" }
    (trial, some (if trial.terminated then "terminal_error" else
      if !trial.sent then "not_sent" else "unknown", trial.error))

/-- `_attempt` -/
def attempt (exchange : Exchange) : Attempted :=
  let tried := trial endpoint reservation streaming exchange
  let handled :=
    match tried.2 with
    | .ok result => (tried.1, some result)
    | .error interruption => handle tried.1 interruption
  let settlement : Settlement :=
    if handled.1.terminated || !handled.1.sent then
      if handled.1.terminated then .completedResponse else .notSent
    else .unknown (handled.1.error.getD "direct_response_unconfirmed")
  ⟨if exchange.settling then none else handled.2, settlement, handled.1⟩

end Attempt

/-! ### Lines and pieces -/

/-- A line with the marker: the name of the field, space, the marker, and space. -/
def IsDone (line : List UInt8) : Prop :=
  ∃ before after, (∀ b ∈ before, isSpaceByte b = true) ∧ (∀ b ∈ after, isSpaceByte b = true) ∧
    line = ascii "data:" ++ before ++ ascii "[DONE]" ++ after

theorem isDoneLine_iff {line : List UInt8} : isDoneLine line = true ↔ IsDone line := by
  rw [isDoneLine, Bool.and_eq_true, List.isPrefixOf_iff_prefix, decide_eq_true_eq]
  have five : (ascii "data:").length = 5 := by decide +kernel
  constructor
  · rintro ⟨⟨rest, rfl⟩, marker⟩
    rw [← five, List.drop_left] at marker
    obtain ⟨before, after, space, space', same⟩ := exists_of_trim marker
    exact ⟨before, after, space, space', by simp only [same, List.append_assoc]⟩
  · rintro ⟨before, after, space, space', rfl⟩
    simp only [List.append_assoc]
    refine ⟨List.prefix_append .., ?_⟩
    rw [← five, List.drop_left]
    exact trim_padded space (by decide +kernel) space'

/-- Slices of one length, one after another. -/
theorem flatten_slices (bytes : List UInt8) (length count : ℕ) :
    ((List.range count).map fun i => (bytes.drop (i * length)).take length).flatten =
      bytes.take (count * length) := by
  induction count with
  | zero => simp
  | succ count ih =>
    rw [List.range_succ, List.map_append, List.flatten_append, ih, List.map_singleton,
      List.flatten_singleton, Nat.succ_mul]
    exact List.take_add.symm

theorem flatten_pieces (bytes : List UInt8) : (pieces bytes).flatten = bytes := by
  rw [pieces, flatten_slices, List.take_of_length_le]
  omega

/-! ### The loop over a stream -/

section Stream

variable {endpoint : Endpoint} {reservation : DirectReservation}

/-- The loop has read a text: the unfinished line waits, the marker has been looked for in all
lines before it, and the text has been put on the channel. -/
structure Loop.Reads (loop : Loop) (start : Trial) (text : List UInt8) : Prop where
  size : loop.size = text.length
  pending : loop.pending = (frames newline text).2
  terminated : loop.trial.terminated =
    (start.terminated || (frames newline text).1.any isDoneLine)
  channel : loop.trial.channel.flatten = start.channel.flatten ++ text

/-- One part is read, and the loop goes on. -/
theorem receive_spec {loop : Loop} {start : Trial} {text : List UInt8}
    (reads : loop.Reads start text) {part : Part} (attached : part.interrupted = none)
    (bounded : (text ++ part.bytes).length ≤ endpoint.maxResponseBytes)
    (short : (frames newline (text ++ part.bytes)).2.length ≤ 1024 * 1024) :
    (loop.receive endpoint true 200 part).2 = none ∧
      (loop.receive endpoint true 200 part).1.Reads start (text ++ part.bytes) := by
  have more := frames_append newline text part.bytes
  rw [more] at short
  rw [Loop.receive]
  dsimp only
  rw [if_neg, if_pos (by simp), reads.pending, if_neg (not_lt.mpr short), attached]
  · refine ⟨rfl, ?_, ?_, ?_, ?_⟩
    · simp [reads.size]
    · rw [more]
    · simp only [more, Trial.put, reads.terminated, List.any_append, Bool.or_assoc]
    · simp only [Trial.put, List.flatten_append, flatten_pieces, reads.channel, List.append_assoc]
  · rw [reads.size, ← List.length_append]
    omega

theorem receiveAll_spec {loop : Loop} {start : Trial} {text : List UInt8}
    (reads : loop.Reads start text) {parts : List Part}
    (attached : ∀ part ∈ parts, part.interrupted = none)
    (bounded : (text ++ (parts.map Part.bytes).flatten).length ≤ endpoint.maxResponseBytes)
    (short : ∀ front, front <+: text ++ (parts.map Part.bytes).flatten →
      (frames newline front).2.length ≤ 1024 * 1024) :
    (loop.receiveAll endpoint true 200 parts).2 = none ∧
      (loop.receiveAll endpoint true 200 parts).1.Reads start
        (text ++ (parts.map Part.bytes).flatten) := by
  induction parts generalizing loop text with
  | nil =>
    rw [List.map_nil, List.flatten_nil, List.append_nil]
    exact ⟨rfl, reads⟩
  | cons part rest ih =>
    obtain ⟨here, later⟩ := List.forall_mem_cons.mp attached
    rw [List.map_cons, List.flatten_cons, ← List.append_assoc] at bounded short ⊢
    obtain ⟨goes, reads⟩ := receive_spec reads here
      (le_trans (by simp) bounded) (short _ (List.prefix_append ..))
    rw [Loop.receiveAll, goes]
    exact ih reads later bounded short

variable (reservation) in
/-- Behind the loop, a stream changes neither what is terminated nor what is on the channel. -/
theorem body_stream {head : Head} (ok : head.status = 200) (exchange : Exchange) (start : Trial) :
    (body endpoint reservation true head exchange start).1 =
      (({ trial := start } : Loop).receiveAll endpoint true 200 exchange.parts).1.trial := by
  rw [body, ok]
  dsimp only
  split
  · rfl
  · simp only [Bool.not_true, Bool.and_false, Bool.false_eq_true, if_false]
    split_ifs <;> first | rfl | contradiction

theorem respond_stream (llm : endpoint.kind = .llm) {head : Head} (ok : head.status = 200)
    {exchange : Exchange} (attached : exchange.started = none) (start : Trial) :
    respond endpoint reservation true head exchange start =
      body endpoint reservation true head exchange
        { start with
          terminated := false
          channel := start.channel ++ if reservation.request.admissionMode = .try then
            [startedFrame reservation] else [] } := by
  simp [respond, llm, ok, attached, terminalStatuses]

theorem handle_trial (trial : Trial) (interruption : Interruption) :
    (handle trial interruption).1.terminated = trial.terminated ∧
      (handle trial interruption).1.channel = trial.channel := by
  cases interruption <;> exact ⟨rfl, rfl⟩

variable (endpoint reservation) in
theorem attempt_trial (streaming : Bool) (exchange : Exchange) :
    (attempt endpoint reservation streaming exchange).trial.terminated =
        (trial endpoint reservation streaming exchange).1.terminated ∧
      (attempt endpoint reservation streaming exchange).trial.channel =
        (trial endpoint reservation streaming exchange).1.channel := by
  rw [attempt]
  dsimp only
  split
  · exact ⟨rfl, rfl⟩
  · exact handle_trial _ _

variable (endpoint reservation) in
/-- An attempt is settled as terminated exactly if it has been found to be. -/
theorem settlement_iff (streaming : Bool) (exchange : Exchange) :
    (attempt endpoint reservation streaming exchange).settlement = .completedResponse ↔
      (attempt endpoint reservation streaming exchange).trial.terminated = true := by
  rw [attempt]
  dsimp only
  split_ifs with isOver done
  · exact ⟨fun _ => done, fun _ => rfl⟩
  · simp [done]
  · simp only [Bool.or_eq_true, not_or] at isOver
    constructor
    · intro unknown
      exact nomatch unknown
    · intro terminated
      exact absurd terminated isOver.1

/-- What is on the channel before the body of a stream. -/
def opening (reservation : DirectReservation) : List UInt8 :=
  if reservation.request.admissionMode = .try then startedFrame reservation else []

/-- What the flags and the channel have of a stream of which the parts so far are passed on. -/
theorem attempt_reads (llm : endpoint.kind = .llm) {exchange : Exchange} {head : Head}
    (reached : exchange.before = none) (answers : exchange.head = .ok head)
    (ok : head.status = 200) (told : exchange.started = none)
    (attached : ∀ part ∈ exchange.parts, part.interrupted = none) {text : List UInt8}
    (comes : exchange.received <+: text) (bounded : text.length ≤ endpoint.maxResponseBytes)
    (lines : ∀ line ∈ (frames newline text).1, line.length ≤ 1024 * 1024)
    (rest : (frames newline text).2.length ≤ 1024 * 1024) :
    (attempt endpoint reservation true exchange).trial.terminated =
        (frames newline exchange.received).1.any isDoneLine ∧
      (attempt endpoint reservation true exchange).trial.channel.flatten =
        opening reservation ++ exchange.received := by
  have within : ∀ front, front <+: exchange.received →
      (frames newline front).2.length ≤ 1024 * 1024 := by
    intro front leads
    obtain ⟨behind, rfl⟩ := leads.trans comes
    rcases rest_length newline front behind with ⟨line, member, short⟩ | short
    · have := lines line member
      change _ < line.length + 1 at short
      omega
    · omega
  let start : Trial :=
    { sent := true
      channel := [] ++ if reservation.request.admissionMode = .try then
        [startedFrame reservation] else [] }
  have nothing : frames newline [] = ([], []) := frames_of_none rfl
  have begins : ({ trial := start } : Loop).Reads start [] := by
    refine ⟨rfl, ?_, ?_, ?_⟩
    · rw [nothing]
    · rw [nothing, List.any_nil, Bool.or_false]
    · rw [List.append_nil]
  obtain ⟨-, reads⟩ := @receiveAll_spec endpoint _ _ _ begins exchange.parts attached
    (comes.length_le.trans bounded) within
  have same : (trial endpoint reservation true exchange).1 =
      (({ trial := start } : Loop).receiveAll endpoint true 200 exchange.parts).1.trial := by
    rw [trial, reached, answers]
    dsimp only
    rw [respond_stream llm ok told, ← body_stream reservation ok]
    split <;> rfl
  obtain ⟨terminated, channel⟩ := attempt_trial endpoint reservation true exchange
  rw [List.nil_append] at reads
  constructor
  · rw [terminated, same, reads.terminated, Bool.false_or]
    rfl
  · rw [channel, same, reads.channel]
    congr 1
    rw [opening]
    split_ifs <;> simp [start, *]

/-- A stream of an llm engine that has answered with 200, of which the parts so far are passed on.
The attempt is settled as terminated exactly if a line with the marker is complete in what came,
however it is cut into parts, and whatever comes then. The channel has what came, and nothing
else but the frame that tells that the attempt has been sent. -/
theorem attempt_terminated_iff (llm : endpoint.kind = .llm) {exchange : Exchange} {head : Head}
    (reached : exchange.before = none) (answers : exchange.head = .ok head)
    (ok : head.status = 200) (told : exchange.started = none)
    (attached : ∀ part ∈ exchange.parts, part.interrupted = none) {text : List UInt8}
    (comes : exchange.received <+: text) (bounded : text.length ≤ endpoint.maxResponseBytes)
    (lines : ∀ line ∈ (frames newline text).1, line.length ≤ 1024 * 1024)
    (rest : (frames newline text).2.length ≤ 1024 * 1024) :
    ((attempt endpoint reservation true exchange).settlement = .completedResponse ↔
        ∃ line ∈ (frames newline exchange.received).1, IsDone line) ∧
      ((∃ line ∈ (frames newline exchange.received).1, IsDone line) →
        ∃ line ∈ (frames newline text).1, IsDone line) ∧
      (attempt endpoint reservation true exchange).trial.channel.flatten =
        opening reservation ++ exchange.received := by
  obtain ⟨terminated, channel⟩ := @attempt_reads endpoint reservation llm _ _ reached answers ok
    told attached _ comes bounded lines rest
  refine ⟨?_, ?_, channel⟩
  · rw [settlement_iff, terminated]
    simp only [List.any_eq_true, isDoneLine_iff]
  · rintro ⟨line, member, done⟩
    obtain ⟨behind, rfl⟩ := comes
    refine ⟨line, ?_, done⟩
    rw [frames_append]
    exact List.mem_append_left _ member

/-- An endpoint of an llm engine. -/
def llmEndpoint : Endpoint := ⟨.llm, "model-1", 1024, none⟩

/-- An attempt of a request that waits for capacity. -/
def waitingReservation : DirectReservation where
  attemptId := "a"
  request :=
    { requestId := "r", tenantId := "t", payloadDigest := "d", modelProfile := "m"
      capacityProfileId := "c", requestBound := 1, batchSize_le := Scheduling.DirectRequest.single_le
      deadline := 0, executionTimeout_bounds := Scheduling.DirectRequest.untimed }
  poolId := "p"
  engineEpoch := "e"
  ownerId := "o"

/-- The marker comes in two parts, and then the connection fails. -/
def cutMarker : Exchange where
  head := .ok ⟨200, fun _ => none⟩
  parts := [⟨ascii "data: [DO", none⟩, ⟨ascii "NE]\n\n", none⟩]
  stop := some .failed

theorem frames_cutMarker :
    frames newline cutMarker.received = ([ascii "data: [DONE]", []], []) := by
  have first : splitFirst newline.1 cutMarker.received = some (ascii "data: [DONE]", [10]) := by
    decide +kernel
  have second : splitFirst newline.1 [10] = some ([], []) := by decide
  have third : splitFirst newline.1 [] = none := rfl
  rw [frames_of_some first, frames_of_some second, frames_of_none third]

/-- The attempt is settled as terminated, and the channel has the marker. -/
theorem attempt_terminated_iff_cut :
    (attempt llmEndpoint waitingReservation true cutMarker).settlement = .completedResponse ∧
      (attempt llmEndpoint waitingReservation true cutMarker).trial.channel.flatten =
        ascii "data: [DONE]\n\n" := by
  obtain ⟨settled, -, channel⟩ := @attempt_terminated_iff llmEndpoint waitingReservation rfl
    cutMarker _ rfl rfl rfl rfl (by decide) _ List.prefix_rfl (by decide +kernel)
    (by rw [frames_cutMarker]; decide +kernel) (by rw [frames_cutMarker]; decide +kernel)
  refine ⟨settled.mpr ?_, channel.trans (by decide +kernel)⟩
  rw [frames_cutMarker]
  refine ⟨_, List.mem_cons_self .., isDoneLine_iff.mp ?_⟩
  decide +kernel

end Stream

end IntramindRuntime.Proxy
