import IntramindRuntime.Library.JsonLimits
import IntramindRuntime.Proxy.Settled

/-!
# Two readers of one answer

An embedding endpoint serves the proxy and the executors. Both send a request with an attempt id,
and both read from the answer whether its compute has terminated; but they have been written
separately. The driver of the executors raises a failure at the first thing that is wrong, and the
failure says how to settle; the proxy keeps a flag, which it sets from the head of the answer. The
driver takes every `ValueError` of the body for a failure of the endpoint; a body that is nested too
deep makes `json.loads` raise something else.

## Main definitions

* `execute` — `ServingEmbeddingDriver.execute`
* `DriverOutcome.settle` — what the executor does with the store, once the driver has ended
* `Exchange.Http` — an exchange in which nothing goes wrong but the transport
* `TooDeep` — a success with a body that `json.loads` cannot take

## Main results

* `attempt_frees_iff` — when the proxy releases the endpoint
* `execute_frees_iff` — when the executor releases it
* `readers_agree_iff` — when both do the same
-/

namespace IntramindRuntime.Proxy

open Library
open Scheduling (DirectReservation)

/-! ### The driver -/

/-- `DriverFailure`. The reason of a transport error, which is the name of its class, is left
out. -/
structure DriverFailure where
  reason : Option String := none
  notSent : Bool := false
  finished : Bool := false
  retry : Bool := false
  deriving DecidableEq

/-- What the driver needs of an embedding profile, and of `json.loads` for bytes: the check of an
answer reads the texts that were asked for. -/
structure EmbeddingProfile where
  modelRevision : String
  maxResponseBytes : ℕ
  loads : List UInt8 → Except Json.Failure Json
  validates : Json → Bool

/-- What the driver makes of an answer that it has read. -/
inductive Reading
  | result (body : Json)
  | failed (failure : DriverFailure)
  /-- A `RecursionError`. -/
  | tooDeep

/-- How the driver ends. -/
inductive DriverOutcome
  | result (body : Json)
  | failed (failure : DriverFailure)
  /-- Something else is raised, such as a timeout. -/
  | raised (interruption : Interruption)
  /-- A `RecursionError` is raised. -/
  | tooDeep

section Driver

variable (profile : EmbeddingProfile) (attemptId : String)

/-- The state of the compute, if the answer meets the contract. -/
def echoedState (head : Head) : Option String :=
  if head.header "X-Intramind-Embedding-Contract" = some "termination-v1" ∧
      head.header "X-Intramind-Attempt-ID" = some attemptId then
    head.header "X-Intramind-Compute-State"
  else none

/-- The loop over the pieces of a body: the body, or nothing if it is too long. -/
def collect (limit : ℕ) : List UInt8 → List Part → Option (List UInt8)
  | pieces, [] => some pieces
  | pieces, part :: rest =>
    if limit < (pieces ++ part.bytes).length then none
    else collect limit (pieces ++ part.bytes) rest

/-- The answer says that its body is JSON. -/
def isJson (head : Head) : Bool :=
  ((head.header "Content-Type").getD "").toList.takeWhile (· ≠ ';') = "application/json".toList

/-- What the driver makes of a whole body. -/
def checkBody (head : Head) (body : List UInt8) : Reading :=
  let invalid := { reason := some "embedding_invalid_vectors", finished := true }
  if !isJson head then .failed invalid
  else match profile.loads body with
    | .ok value => if profile.validates value then .result value else .failed invalid
    | .error .refused => .failed invalid
    -- no `ValueError`
    | .error .tooDeep => .tooDeep

/-- What the driver does with an answer, up to where it closes it. -/
def readAnswer (head : Head) (exchange : Exchange) : Except Interruption Reading :=
  let state := echoedState attemptId head
  if state ∉ [some "not_started", some "terminated"] then
    .ok (.failed { reason := some "embedding_response_unconfirmed" })
  else if head.status ≠ 200 then
    .ok (.failed
      { reason := some ("embedding_backend_" ++ toString head.status)
        notSent := state = some "not_started"
        finished := state = some "terminated"
        retry := state = some "not_started" && head.status = 429 })
  else if state ≠ some "terminated" then
    .ok (.failed { reason := some "embedding_success_without_termination" })
  else if head.header "X-Intramind-Model-Revision" ≠ some profile.modelRevision then
    .ok (.failed { reason := some "embedding_model_revision_changed", finished := true })
  else
    match collect profile.maxResponseBytes [] exchange.parts with
    | none =>
      .ok (.failed { reason := some "embedding_response_exceeds_profile", finished := true })
    | some body =>
      match exchange.stop with
      | some interruption => .error interruption
      | none => .ok (checkBody profile head body)

/-- The handlers of the driver. -/
def handleTransport (state : Option String) : Interruption → DriverOutcome
  | .connection => .failed { notSent := true, retry := true }
  | .failed => .failed { finished := state = some "terminated", retry := state = some "terminated" }
  | other => .raised other

/-- How the driver ends with what it has made of an answer. -/
def conclude (state : Option String) : Except Interruption Reading → DriverOutcome
  | .error interruption => handleTransport state interruption
  | .ok (.failed failure) => .failed failure
  | .ok (.result body) => .result body
  | .ok .tooDeep => .tooDeep

/-- `ServingEmbeddingDriver.execute`, once the payload has been accepted. -/
def execute (exchange : Exchange) : DriverOutcome :=
  match exchange.head with
  | .error interruption => handleTransport none interruption
  | .ok head =>
    conclude (echoedState attemptId head)
      (match exchange.exit with
      -- what is raised when the answer is closed takes the place of all else
      | some interruption => .error interruption
      | none => readAnswer profile attemptId head exchange)

/-- The answer is a success of the right model with a whole body of JSON that is nested too deep. -/
structure TooDeep (head : Head) (exchange : Exchange) : Prop where
  success : head.status = 200
  revision : head.header "X-Intramind-Model-Revision" = some profile.modelRevision
  body : ∃ body ∈ collect profile.maxResponseBytes [] exchange.parts,
    profile.loads body = .error .tooDeep
  whole : exchange.stop = none
  json : isJson head = true

end Driver

/-- What the executor does with the store. -/
inductive StoreCall
  | computeFinished
  | commitResult
  | fail (notSent retry : Bool)
  | unknown
  deriving DecidableEq

/-- `tick`, once the driver has ended. -/
def DriverOutcome.settle : DriverOutcome → List StoreCall
  | .result _ => [.computeFinished, .commitResult]
  | .failed failure =>
    (if failure.finished then [.computeFinished] else []) ++
      if failure.finished || failure.notSent then [.fail failure.notSent failure.retry]
      else [.unknown]
  | .raised _ | .tooDeep => [.unknown]

/-- The compute is recorded as finished, or as never begun. -/
def Frees (calls : List StoreCall) : Prop :=
  .computeFinished ∈ calls ∨ ∃ retry, .fail true retry ∈ calls

/-- The permit of a direct attempt is given back. -/
def Settlement.Frees : Settlement → Prop
  | .completedResponse | .notSent => True
  | .unknown _ => False

/-- An exchange in which nothing goes wrong but the transport: it connects or not, and later it
may fail anywhere. What the reader of the answer does is left open. -/
structure Exchange.Http (exchange : Exchange) : Prop where
  before : exchange.before = none
  head : ∀ interruption, exchange.head = .error interruption →
    interruption = .connection ∨ interruption = .failed
  stop : ∀ interruption ∈ exchange.stop, interruption = .failed
  exit : ∀ interruption ∈ exchange.exit, interruption = .failed

/-! ### The proxy -/

section Proxy

variable {endpoint : Endpoint} {reservation : DirectReservation} {streaming : Bool}

variable (endpoint) in
/-- What has terminated stays so. -/
theorem receive_terminated {status : ℕ} {loop : Loop} (part : Part)
    (terminated : loop.trial.terminated = true) :
    (loop.receive endpoint streaming status part).1.trial.terminated = true := by
  rw [Loop.receive]
  dsimp only
  split
  · exact terminated
  · split
    · split
      · exact terminated
      · rw [(put_flags _ _ _).1, terminated]
        rfl
    · exact terminated

variable (endpoint) in
theorem receiveAll_terminated {status : ℕ} {loop : Loop} (parts : List Part)
    (terminated : loop.trial.terminated = true) :
    (loop.receiveAll endpoint streaming status parts).1.trial.terminated = true := by
  induction parts generalizing loop with
  | nil => exact terminated
  | cons part rest ih =>
    have next := @receive_terminated endpoint streaming status loop part terminated
    rw [Loop.receiveAll]
    split
    · exact next
    · exact ih next

/-- Nothing in the body of the answer of a native endpoint takes the flag back. -/
theorem body_terminated (native : endpoint.kind ≠ .llm) (head : Head) (exchange : Exchange)
    {start : Trial} (terminated : start.terminated = true) :
    (body endpoint reservation streaming head exchange start).1.terminated = true := by
  have received := @receiveAll_terminated endpoint streaming head.status { trial := start }
    exchange.parts terminated
  rw [body]
  generalize ({ trial := start } : Loop).receiveAll endpoint streaming head.status exchange.parts =
    after at received ⊢
  obtain ⟨loop, stopped⟩ := after
  simp only [native, decide_false, Bool.false_and, Bool.false_eq_true, if_false]
  split
  · exact received
  · split
    · exact received
    split
    · exact received
    split
    · split
      · split
        · exact (put_flags _ _ _).1.trans received
        · exact (put_flags _ _ _).1.trans received
      · exact received
    · split
      · exact (put_flags _ _ _).1.trans received
      · exact (put_flags _ _ _).1.trans received

/-- A native endpoint has met its contract: whatever comes then, the attempt has terminated. -/
theorem respond_terminated (native : endpoint.kind ≠ .llm) {head : Head} (exchange : Exchange)
    (met : confirmed endpoint reservation head = true) (start : Trial) :
    (respond endpoint reservation streaming head exchange start).1.terminated = true := by
  rw [respond]
  simp only [native, met, ne_eq, not_false_eq_true, decide_true, Bool.not_true, Bool.true_and,
    Bool.and_false, Bool.false_and, Bool.false_eq_true, if_false, Bool.or_false]
  split
  · rfl
  · split
    · rfl
    · exact body_terminated native head exchange rfl

/-- A native endpoint is released exactly if the connection fails, or if it meets its contract. -/
theorem attempt_frees_iff (native : endpoint.kind ≠ .llm) {exchange : Exchange}
    (http : exchange.Http) :
    (attempt endpoint reservation streaming exchange).settlement.Frees ↔
      exchange.head = .error .connection ∨
        ∃ head, exchange.head = .ok head ∧ confirmed endpoint reservation head = true := by
  cases answers : exchange.head with
  | error interruption =>
    have same : trial endpoint reservation streaming exchange =
        ({ sent := true }, .error interruption) := by
      rw [trial, http.before, answers]
    rcases http.head interruption answers with rfl | rfl
    · rw [attempt, same]
      exact iff_of_true trivial (.inl rfl)
    · rw [attempt, same]
      refine iff_of_false id ?_
      rintro (other | ⟨head, other, -⟩)
      · cases other
      · cases other
  | ok head =>
    have read : (trial endpoint reservation streaming exchange).1 =
        (respond endpoint reservation streaming head exchange { sent := true }).1 := by
      rw [trial, http.before, answers]
      dsimp only
      split <;> rfl
    by_cases met : confirmed endpoint reservation head = true
    · have terminated := (attempt_trial endpoint reservation streaming exchange).1
      rw [read, respond_terminated native exchange met] at terminated
      rw [(settlement_iff endpoint reservation streaming exchange).mpr terminated]
      exact iff_of_true trivial (.inr ⟨head, rfl, met⟩)
    · have refused : respond endpoint reservation streaming head exchange { sent := true } =
          ({ sent := true }, .error .failed) := by
        rw [respond]
        simp [native, met]
      have same : trial endpoint reservation streaming exchange =
          ({ sent := true }, .error .failed) := by
        rw [trial, http.before, answers]
        dsimp only
        rw [refused]
        split
        · rename_i interruption closes
          rw [http.exit interruption closes]
        · rfl
      rw [attempt, same]
      refine iff_of_false id ?_
      rintro (other | ⟨other, is, met'⟩)
      · cases other
      · cases is
        exact met met'

end Proxy

/-! ### The executor -/

section Driver

variable {profile : EmbeddingProfile} {attemptId : String}

theorem frees_settle (failure : DriverFailure) :
    Frees (DriverOutcome.failed failure).settle ↔
      failure.finished = true ∨ failure.notSent = true := by
  obtain ⟨reason, notSent, finished, retry⟩ := failure
  cases notSent <;> cases finished <;> simp [Frees, DriverOutcome.settle]

/-- A failure of the transport frees the endpoint if it comes before the send, or when the compute
is known to have terminated. -/
theorem frees_handleTransport {state : Option String} {interruption : Interruption}
    (http : interruption = .failed) :
    Frees (handleTransport state interruption).settle ↔ state = some "terminated" := by
  rw [http]
  exact (frees_settle _).trans (by simp)

/-- A whole body frees the endpoint unless it is too deep. -/
theorem frees_checkBody {head : Head} {body : List UInt8} {state : Option String} :
    Frees (conclude state (.ok (checkBody profile head body))).settle ↔
      ¬ (isJson head = true ∧ profile.loads body = .error .tooDeep) := by
  have finished (reason : Option String) :
      Frees (DriverOutcome.failed { reason := reason, finished := true }).settle :=
    (frees_settle _).mpr (.inl rfl)
  rw [checkBody]
  cases isJson head with
  | false => exact iff_of_true (finished _) (by simp)
  | true =>
    cases profile.loads body with
    | ok value =>
      refine iff_of_true ?_ (by simp)
      simp only [Bool.not_true, Bool.false_eq_true, if_false]
      split
      · exact .inl List.mem_cons_self
      · exact finished _
    | error failure =>
      cases failure with
      | refused => exact iff_of_true (finished _) (by simp)
      | tooDeep =>
        refine iff_of_false ?_ (by simp)
        rintro (listed | ⟨retry, listed⟩) <;> simp [conclude, DriverOutcome.settle] at listed

/-- What the driver ends with if the answer can be closed. -/
theorem frees_readAnswer {head : Head} {exchange : Exchange} (http : exchange.Http) :
    Frees (conclude (echoedState attemptId head)
        (readAnswer profile attemptId head exchange)).settle ↔
      echoedState attemptId head = some "terminated" ∧ ¬ TooDeep profile head exchange ∨
        echoedState attemptId head = some "not_started" ∧ head.status ≠ 200 := by
  rw [readAnswer]
  generalize echoedState attemptId head = state
  split
  · rename_i unconfirmed
    refine (frees_settle _).trans (iff_of_false (by simp) ?_)
    rintro (⟨rfl, -⟩ | ⟨rfl, -⟩) <;> simp at unconfirmed
  rename_i confirmed
  split
  · rename_i refused
    have shallow : ¬ TooDeep profile head exchange := fun deep => refused deep.success
    refine (frees_settle _).trans ?_
    simp [refused, shallow]
  rename_i ok
  split
  · rename_i other
    refine (frees_settle _).trans (iff_of_false (by simp) ?_)
    rintro (⟨isOver, -⟩ | ⟨-, refused⟩)
    · exact other isOver
    · exact ok refused
  rename_i terminated
  have isOver : state = some "terminated" := not_not.mp terminated
  have only {p : Prop} : state = some "terminated" ∧ p ∨
      state = some "not_started" ∧ head.status ≠ 200 ↔ p := by
    simp [isOver]
  rw [only]
  -- from here on every failure says that the compute has terminated
  have finished (reason : Option String) :
      Frees (DriverOutcome.failed { reason := reason, finished := true }).settle :=
    (frees_settle _).mpr (.inl rfl)
  split
  · rename_i other
    exact iff_of_true (finished _) fun deep => other deep.revision
  rename_i revision
  split
  · rename_i long
    refine iff_of_true (finished _) fun deep => ?_
    obtain ⟨body, short, -⟩ := deep.body
    rw [long] at short
    cases short
  rename_i body short
  split
  · rename_i interruption stops
    -- the body breaks off, which a body that is too deep does not
    refine iff_of_true ((frees_handleTransport (http.stop interruption stops)).mpr isOver) ?_
    intro deep
    rw [deep.whole] at stops
    cases stops
  · rename_i whole
    refine frees_checkBody.trans (not_congr ?_)
    constructor
    · rintro ⟨json, deep⟩
      exact ⟨not_not.mp ok, not_not.mp revision, ⟨body, short, deep⟩, whole, json⟩
    · intro deep
      obtain ⟨body', short', tooDeep⟩ := deep.body
      obtain rfl := Option.some.inj (short.symm.trans short')
      exact ⟨deep.json, tooDeep⟩

/-- The answer of an embedding endpoint frees it exactly if it meets the contract; but the state
`not_started` does not free it together with the status 200, nor when the answer cannot be
closed, and the state `terminated` does not together with a body that is too deep. -/
theorem execute_frees_iff {exchange : Exchange} (http : exchange.Http) :
    Frees (execute profile attemptId exchange).settle ↔
      exchange.head = .error .connection ∨ ∃ head, exchange.head = .ok head ∧
        (echoedState attemptId head = some "terminated" ∧
            ¬ (exchange.exit = none ∧ TooDeep profile head exchange) ∨
          echoedState attemptId head = some "not_started" ∧ head.status ≠ 200 ∧
            exchange.exit = none) := by
  rw [execute]
  cases answers : exchange.head with
  | error interruption =>
    dsimp only
    rcases http.head interruption answers with rfl | rfl
    · exact iff_of_true (.inr ⟨true, List.mem_cons_self⟩) (.inl rfl)
    · refine (frees_handleTransport rfl).trans (iff_of_false nofun ?_)
      rintro (other | ⟨head, other, -⟩)
      · cases other
      · cases other
  | ok head =>
    have only {p : Head → Prop} : ((.ok head : Except Interruption Head) = .error .connection ∨
        ∃ head', (.ok head : Except Interruption Head) = .ok head' ∧ p head') ↔ p head := by
      constructor
      · rintro (other | ⟨_, same, holds⟩)
        · cases other
        · cases same
          exact holds
      · exact fun holds => .inr ⟨head, rfl, holds⟩
    rw [only]
    dsimp only
    cases closes : exchange.exit with
    | some interruption =>
      refine (frees_handleTransport (http.exit interruption closes)).trans ?_
      simp
    | none =>
      refine (frees_readAnswer http).trans ?_
      simp

end Driver

/-! ### The two readers -/

section Readers

variable {endpoint : Endpoint} {reservation : DirectReservation} {streaming : Bool}

theorem confirmed_iff (embedding : endpoint.kind = .embedding) {head : Head} :
    confirmed endpoint reservation head = true ↔
      echoedState reservation.attemptId head = some "terminated" ∨
        echoedState reservation.attemptId head = some "not_started" := by
  have named : "X-Intramind-" ++ kindTitle .embedding ++ "-Contract" =
      "X-Intramind-Embedding-Contract" := by decide
  rw [confirmed, embedding, named, echoedState]
  split
  · rename_i met
    simp [met]
  · rename_i unmet
    rw [Bool.and_eq_true, Bool.and_eq_true, decide_eq_true_eq, decide_eq_true_eq]
    exact iff_of_false (fun both => unmet both.1) (by simp)

/-- The proxy and the driver of the executors release an embedding endpoint for the same exchanges,
but for two kinds of answers: those that meet the contract with the state `not_started`, and that
either have the status 200 or cannot be closed; and successes with a body that is nested too deep.
The proxy releases the endpoint for these, the executor does not. -/
theorem readers_agree_iff (embedding : endpoint.kind = .embedding) (profile : EmbeddingProfile)
    {exchange : Exchange} (http : exchange.Http) :
    ((attempt endpoint reservation streaming exchange).settlement.Frees ↔
        Frees (execute profile reservation.attemptId exchange).settle) ↔
      ¬ ∃ head, exchange.head = .ok head ∧
        (echoedState reservation.attemptId head = some "not_started" ∧
            (head.status = 200 ∨ exchange.exit ≠ none) ∨
          echoedState reservation.attemptId head = some "terminated" ∧ exchange.exit = none ∧
            TooDeep profile head exchange) := by
  have native : endpoint.kind ≠ .llm := by simp [embedding]
  rw [attempt_frees_iff native http, execute_frees_iff http]
  cases answers : exchange.head with
  | error interruption => simp
  | ok head =>
    simp only [confirmed_iff embedding]
    have only {p : Head → Prop} : ((.ok head : Except Interruption Head) = .error .connection ∨
        ∃ head', (.ok head : Except Interruption Head) = .ok head' ∧ p head') ↔ p head := by
      simp
    have this {p : Head → Prop} :
        (∃ head', (.ok head : Except Interruption Head) = .ok head' ∧ p head') ↔ p head := by
      simp
    rw [only, only, this]
    generalize echoedState reservation.attemptId head = state
    -- the two states that the driver reads with a condition
    by_cases waits : state = some "not_started"
    · have working : state ≠ some "terminated" := by simp [waits]
      simp only [waits, or_true, true_iff, true_and, Option.some.injEq, ne_eq]
      simp
    · by_cases isOver : state = some "terminated"
      · simp [isOver]
      · simp [waits, isOver]

end Readers

/-- An endpoint for embeddings. -/
def embeddingEndpoint : Endpoint := ⟨.embedding, "model-1", 1024, some fun _ => true⟩

/-- Its profile, with a parser that takes two levels of arrays. -/
def embeddingProfile : EmbeddingProfile where
  modelRevision := "model-1"
  maxResponseBytes := 1024
  loads bytes := Json.loadsWithin ⟨some 4300, 2⟩ (bytes.map fun byte => Char.ofNat byte.toNat)
  validates _ := true

/-- An answer to the attempt `a` with the status 200, a state of the compute, and a body. -/
def embeddingAnswer (state : String) (body : List UInt8) : Exchange where
  head := .ok ⟨200, fun name =>
    if name = "X-Intramind-Embedding-Contract" then some "termination-v1"
    else if name = "X-Intramind-Attempt-ID" then some "a"
    else if name = "X-Intramind-Compute-State" then some state
    else if name = "X-Intramind-Model-Revision" then some "model-1"
    else if name = "Content-Type" then some "application/json"
    else none⟩
  parts := [⟨body, none⟩]

theorem embeddingAnswer_http (state : String) (body : List UInt8) :
    (embeddingAnswer state body).Http :=
  ⟨rfl, nofun, nofun, nofun⟩

/-- The compute has terminated, and the body is JSON. -/
theorem readers_agree_terminated :
    (attempt embeddingEndpoint waitingReservation false
        (embeddingAnswer "terminated" [91, 93])).settlement.Frees ↔
      Frees (execute embeddingProfile "a" (embeddingAnswer "terminated" [91, 93])).settle := by
  refine (@readers_agree_iff embeddingEndpoint waitingReservation false rfl embeddingProfile
    (embeddingAnswer "terminated" [91, 93]) (embeddingAnswer_http _ _)).mpr ?_
  rintro ⟨head, ⟨⟩, ⟨other, -⟩ | ⟨-, -, deep⟩⟩
  · exact absurd other (by decide)
  · obtain ⟨body, here, tooDeep⟩ := deep.body
    cases here
    have refused : embeddingProfile.loads [91, 93] = .error .tooDeep := tooDeep
    have taken : (embeddingProfile.loads [91, 93]).toOption.isSome = true := by decide
    rw [refused] at taken
    cases taken

/-- The proxy releases the endpoint after the answer, and the executor does not. -/
def FreedByProxyOnly (answer : Exchange) : Prop :=
  answer.Http ∧ (attempt embeddingEndpoint waitingReservation false answer).settlement.Frees ∧
    ¬ Frees (execute embeddingProfile "a" answer).settle

theorem freedByProxyOnly {answer : Exchange} (http : answer.Http) {head : Head}
    (answers : answer.head = .ok head)
    (confirms : confirmed embeddingEndpoint waitingReservation head = true)
    (unknown : (execute embeddingProfile "a" answer).settle = [.unknown]) :
    FreedByProxyOnly answer := by
  refine ⟨http, ?_, ?_⟩
  · apply (attempt_frees_iff (by decide) http).mpr
    exact .inr ⟨head, answers, confirms⟩
  · rw [unknown]
    simp [Frees]

/-- A success without compute, and one with a body that is too deep: the proxy releases the
endpoint, the executor does not. -/
theorem readers_differ :
    FreedByProxyOnly (embeddingAnswer "not_started" []) ∧
      FreedByProxyOnly (embeddingAnswer "terminated" [91, 91, 91]) := by
  constructor
  · apply freedByProxyOnly (embeddingAnswer_http _ _) rfl
    · decide
    · decide
  · apply freedByProxyOnly (embeddingAnswer_http _ _) rfl
    · decide
    · decide

end IntramindRuntime.Proxy
