import IntramindRuntime.Execution.Executor
import IntramindRuntime.Ledger.Calls

/-!
# What an executor asks for

Whichever calls of a tick fail, and wherever it is cancelled: the engine is asked once at most,
after the attempt was marked and the permit was asked for again; an attempt is reported as not
sent only if the engine was never asked, or said so itself; and once there is a result, the
attempt is neither failed nor, unless the tick is cancelled, given up as unknown. What is moved to
the background is held to the same rules.

## Main definitions

* `Allowed` — what may be asked after what was asked
* `Beside` — nothing asked in between has to do with the engine
* `Known` — what a tick knows when its `try` block has raised

## Main results

* `acquire_quiet`, `prepare_safe`, `send_safe`, `persist_safe`, `handle_safe` — the parts of a tick
* `tick_asks_allowed` — every call of a tick, and of what it moved to the background, is allowed
-/

namespace IntramindRuntime.Execution

open Library

/-- What was asked, and what came back. -/
abbrev Log : Type := List (Asking Call fun call => Except Error (Answer call))

/-- The call has no attempt yet, or is about none: clocks, dice and sleep. -/
def Call.isCommon : Call → Bool
  | .reserveNext .. | .now | .sleep _ | .uniform _ => true
  | _ => false

/-- The call is about the attempt of a reservation: it names the attempt, its permit or its
artifacts. -/
def Call.About (reservation : Reservation) : Call → Prop
  | .reserveNext .. | .now | .sleep _ | .uniform _ => False
  | .acquirePermit request => request = .of reservation
  | .heartbeatPermit identity | .releasePermit identity => identity = .of reservation
  | .getArtifact artifact => artifact = reservation.operation.payload
  | .putArtifact tenantId .. => tenantId = reservation.operation.tenantId
  | .attemptComputeHeld attemptId => attemptId = reservation.attemptId
  | .markSend other | .execute other _ | .computeFinished other | .commitResult other ..
  | .unknown other _ | .fail other .. | .createTask other _ | .discard other .. =>
    other = reservation

/-- The call asks the engine. -/
def Call.isExecute : Call → Bool
  | .execute .. => true
  | _ => false

/-- The first thing that was asked is the reservation. -/
def Reserved (reservation : Reservation) (log : Log) : Prop :=
  ∃ poolId ownerId rest, log = ⟨.reserveNext poolId ownerId, .ok (some reservation)⟩ :: rest

/-- The engine was asked. -/
def Entered (log : Log) : Prop := ∃ event ∈ log, event.call.isExecute = true

/-- The engine has returned a result. -/
def Returned (reservation : Reservation) (log : Log) (result : Result) : Prop :=
  ∃ payload, ⟨.execute reservation payload, .ok result⟩ ∈ log

/-- The engine was asked, and its driver raised `failure`. -/
def Failed (reservation : Reservation) (log : Log) (failure : DriverFailure) : Prop :=
  ∃ payload, ⟨.execute reservation payload, .error (.driver failure)⟩ ∈ log

/-- The ledger has recorded that no compute is left. -/
def Terminated (reservation : Reservation) (log : Log) : Prop :=
  ⟨.computeFinished reservation, .ok ()⟩ ∈ log

/-- The task was cancelled at a call. -/
def Interrupted (log : Log) : Prop :=
  ∃ event ∈ log, event.answer = .error .cancelled ∨ event.answer = .error .expired

/-- The last write of an attempt says what is known of it. -/
def Ending.Justified (reservation : Reservation) (log : Log) : Ending → Prop
  | .settle failure _ => (∀ result, ¬ Returned reservation log result) ∧
      (failure.finished = true → Failed reservation log failure) ∧
      (failure.notSent = true → ¬ Entered log ∨ Failed reservation log failure) ∧
      (failure.notSent = false → Entered log)
  | .fail _ => ¬ Entered log
  | .unknown _ => Entered log ∧ ∀ result, ¬ Returned reservation log result

/-- What a call needs. -/
def Call.Rule (loads : Loads) (log : Log) : Call → Prop
  | .reserveNext .. => log = []
  | .execute reservation payload => ¬ Entered log ∧ ∃ before bytes response,
      log = before ++ [⟨.getArtifact reservation.operation.payload, .ok bytes⟩,
        ⟨.markSend reservation, .ok ()⟩, ⟨.heartbeatPermit (.of reservation), .ok response⟩] ∧
      loads bytes = some payload ∧ response.status = 200
  | .computeFinished reservation => (∃ result, Returned reservation log result) ∨
      ∃ failure, Failed reservation log failure ∧ failure.finished = true
  | .commitResult reservation artifact usage attachments => Terminated reservation log ∧
      ∃ result audio, Returned reservation log result ∧ usage = result.usage ∧
        attachments = audio.toList ∧ ⟨.putArtifact reservation.operation.tenantId
          (result.data audio) "application/json", .ok artifact⟩ ∈ log
  | .fail reservation _ notSent _ _ => (∀ result, ¬ Returned reservation log result) ∧
      (notSent = true → ¬ Entered log ∨
        ∃ failure, Failed reservation log failure ∧ failure.notSent = true) ∧
      (notSent = false → Terminated reservation log)
  | .unknown reservation _ => Entered log ∧
      ((∃ result, Returned reservation log result) → Interrupted log)
  | .createTask reservation ending => ending.Justified reservation log
  | .releasePermit identity => ∃ reservation, Reserved reservation log ∧
      identity = .of reservation ∧ (Terminated reservation log ∨
        ⟨.attemptComputeHeld reservation.attemptId, .ok false⟩ ∈ log)
  | _ => True

/-- What may be asked after `log`: a call is about the reservation of the tick, unless it is
about none, and keeps its rule. -/
def Allowed (loads : Loads) (log : Log) (call : Call) : Prop :=
  (call.isCommon = true ∨ ∃ reservation, Reserved reservation log ∧ call.About reservation) ∧
    call.Rule loads log

/-! ### What stays so -/

/-- Nothing asked in between has to do with the engine. -/
def Beside (log log' : Log) : Prop :=
  ∃ more : Log, log' = log ++ more ∧ ∀ event ∈ more, event.call.isExecute = false

section Beside

variable {log log' log'' : Log} {reservation : Reservation}

theorem Beside.refl (log : Log) : Beside log log := ⟨[], by simp, fun _ member => by cases member⟩

theorem Beside.trans (first : Beside log log') (second : Beside log' log'') : Beside log log'' := by
  obtain ⟨more, rfl, quiet⟩ := first
  obtain ⟨rest, rfl, calm⟩ := second
  refine ⟨more ++ rest, List.append_assoc .., fun event member => ?_⟩
  exact (List.mem_append.mp member).elim (quiet event) (calm event)

theorem beside_asked (log : Log) (call : Call) (quiet : call.isExecute = false)
    (answer : Except Error (Answer call)) : Beside log (log ++ [⟨call, answer⟩]) := by
  refine ⟨[⟨call, answer⟩], rfl, fun event member => ?_⟩
  obtain rfl := List.mem_singleton.mp member
  exact quiet

theorem Beside.mem (beside : Beside log log')
    {event : Asking Call fun call => Except Error (Answer call)} (member : event ∈ log) :
    event ∈ log' := by
  obtain ⟨more, rfl, -⟩ := beside
  exact List.mem_append_left more member

theorem Beside.mem_of_execute (beside : Beside log log')
    {event : Asking Call fun call => Except Error (Answer call)} (member : event ∈ log')
    (execute : event.call.isExecute = true) : event ∈ log := by
  obtain ⟨more, rfl, quiet⟩ := beside
  rcases List.mem_append.mp member with old | new
  · exact old
  · cases (quiet event new).symm.trans execute

theorem Beside.reserved (beside : Beside log log') (reserved : Reserved reservation log) :
    Reserved reservation log' := by
  obtain ⟨more, rfl, -⟩ := beside
  obtain ⟨poolId, ownerId, rest, rfl⟩ := reserved
  exact ⟨poolId, ownerId, rest ++ more, rfl⟩

theorem Beside.entered (beside : Beside log log') : Entered log' ↔ Entered log := by
  constructor
  · rintro ⟨event, member, execute⟩
    exact ⟨event, beside.mem_of_execute member execute, execute⟩
  · rintro ⟨event, member, execute⟩
    exact ⟨event, beside.mem member, execute⟩

theorem Beside.returned (beside : Beside log log') {result : Result} :
    Returned reservation log' result ↔ Returned reservation log result := by
  constructor
  · rintro ⟨payload, member⟩
    exact ⟨payload, beside.mem_of_execute member rfl⟩
  · rintro ⟨payload, member⟩
    exact ⟨payload, beside.mem member⟩

theorem Beside.failed (beside : Beside log log') {failure : DriverFailure}
    (failed : Failed reservation log failure) : Failed reservation log' failure := by
  obtain ⟨payload, member⟩ := failed
  exact ⟨payload, beside.mem member⟩

theorem Beside.justified (beside : Beside log log') {ending : Ending}
    (justified : ending.Justified reservation log) : ending.Justified reservation log' := by
  cases ending with
  | settle failure delay =>
    obtain ⟨unreturned, finished, unsent, sent⟩ := justified
    refine ⟨fun result returned => unreturned result (beside.returned.mp returned),
      fun is => beside.failed (finished is), fun is => ?_, fun is => beside.entered.mpr (sent is)⟩
    exact (unsent is).imp (fun never entered => never (beside.entered.mp entered)) beside.failed
  | fail => exact fun entered => justified (beside.entered.mp entered)
  | unknown =>
    exact ⟨beside.entered.mpr justified.1, fun result returned =>
      justified.2 result (beside.returned.mp returned)⟩

theorem Returned.entered {result : Result} (returned : Returned reservation log result) :
    Entered log := by
  obtain ⟨payload, member⟩ := returned
  exact ⟨_, member, rfl⟩

end Beside

/-! ### The parts of a tick -/

/-- A part of a tick, from the log it begins with to how it ends. -/
abbrev Safe {α : Type} (loads : Loads) (p : Code α) (l : Locals) (log : Log)
    (post : Except Error α → Locals → Log → Prop) : Prop :=
  p.Ensures (Parties.logged mayAnswer) (Allowed loads) l log post

/-- Code that changes no variable, asks nothing of the engine, and raises no `DriverFailure`. -/
def Quiet {α : Type} (loads : Loads) (reservation : Reservation) (p : Code α) : Prop :=
  ∀ l log, Reserved reservation log → Safe loads p l log fun outcome l' log' =>
    l' = l ∧ Beside log log' ∧ ∀ failure, outcome ≠ .error (.driver failure)

section Quiet

variable {α β τ : Type} {loads : Loads} {reservation : Reservation} {p : Code α}

theorem Quiet.pure (a : α) : Quiet loads reservation (Pure.pure a : Code α) := fun _ log _ =>
  Routine.Ensures.pure ⟨rfl, .refl log, fun _ never => by cases never⟩

theorem Quiet.throw {e : Error} (not : ∀ failure, e ≠ .driver failure) :
    Quiet loads reservation (throw e : Code α) := fun _ log _ =>
  Routine.Ensures.throw ⟨rfl, .refl log, fun failure same => not failure (Except.error.inj same)⟩

theorem allowed_of_common {log : Log} {call : Call} (common : call.isCommon = true)
    (rule : call.Rule loads log) : Allowed loads log call :=
  ⟨Or.inl common, rule⟩

theorem allowed_of_reserved {log : Log} {call : Call} (reserved : Reserved reservation log)
    (about : call.About reservation) (rule : call.Rule loads log) : Allowed loads log call :=
  ⟨Or.inr ⟨reservation, reserved, about⟩, rule⟩

/-- A call that asks nothing of the engine. -/
theorem quiet_ask {call : Call} (quiet : call.isExecute = false)
    (allowed : ∀ log, Reserved reservation log → Allowed loads log call)
    (drives : ∀ answer, mayAnswer call answer → ∀ failure, answer ≠ .error (.driver failure)) :
    Quiet loads reservation (ask call) := fun _ log reserved =>
  Routine.Ensures.ask (allowed log reserved) fun answer may =>
    ⟨rfl, beside_asked _ _ quiet answer, drives answer may⟩

theorem Quiet.bind {f : α → Code β} (first : Quiet loads reservation p)
    (next : ∀ a, Quiet loads reservation (f a)) : Quiet loads reservation (p >>= f) := by
  intro l log reserved
  refine Routine.Ensures.bind ((first l log reserved).mono fun outcome l' log' after => ?_)
  obtain ⟨rfl, beside, not⟩ := after
  cases outcome with
  | error e =>
    exact ⟨rfl, beside, fun failure same => not failure (congrArg _ (Except.error.inj same))⟩
  | ok a =>
    refine (next a l' log' (beside.reserved reserved)).mono fun outcome l'' log'' after => ?_
    obtain ⟨rfl, more, not⟩ := after
    exact ⟨rfl, beside.trans more, not⟩

theorem Quiet.tryCatch {handler : Error → Code α} (first : Quiet loads reservation p)
    (next : ∀ e, (∀ failure, e ≠ .driver failure) → Quiet loads reservation (handler e)) :
    Quiet loads reservation (tryCatch p handler) := by
  intro l log reserved
  refine Routine.Ensures.tryCatch ((first l log reserved).mono fun outcome l' log' after => ?_)
  obtain ⟨rfl, beside, not⟩ := after
  cases outcome with
  | ok a => exact ⟨rfl, beside, fun _ never => by cases never⟩
  | error e =>
    have undriven : ∀ failure, e ≠ .driver failure := fun failure same =>
      not failure (congrArg _ same)
    refine (next e undriven l' log' (beside.reserved reserved)).mono
      fun outcome l'' log'' after => ?_
    obtain ⟨rfl, more, not⟩ := after
    exact ⟨rfl, beside.trans more, not⟩

theorem Quiet.loop {body : τ → Code (τ ⊕ α)} (round : ∀ t, Quiet loads reservation (body t))
    (rounds : ℕ) (t : τ) : Quiet loads reservation (Routine.loop body rounds t) := by
  intro l log reserved
  refine Routine.Ensures.loop (I := fun _ l' log' => l' = l ∧ Beside log log')
    (fun t l' log' before => ?_) rounds ⟨rfl, .refl log⟩
  obtain ⟨rfl, beside⟩ := before
  refine (round t l' log' (beside.reserved reserved)).mono fun outcome l'' log'' after => ?_
  obtain ⟨rfl, more, not⟩ := after
  rcases outcome with e | (t' | a)
  · exact ⟨rfl, beside.trans more, fun failure same =>
      not failure (congrArg _ (Except.error.inj same))⟩
  · exact ⟨rfl, beside.trans more⟩
  · exact ⟨rfl, beside.trans more, fun _ never => by cases never⟩

theorem remaining_quiet : Quiet loads reservation (remaining reservation) := by
  refine Quiet.bind (quiet_ask rfl (fun _ _ => allowed_of_common rfl trivial)
    fun answer may failure same => ?_) fun _ => .pure _
  rw [same] at may
  cases may

theorem retryDelay_quiet (failure : DriverFailure) :
    Quiet loads reservation (retryDelay reservation failure) := by
  intro l log reserved
  refine Routine.Ensures.bind (Routine.Ensures.get ?_)
  dsimp only
  split
  · exact Quiet.pure 0 l log reserved
  · have dice (most : Time) : Quiet loads reservation (ask (.uniform most)) := by
      refine quiet_ask rfl (fun _ _ => allowed_of_common rfl trivial)
        fun answer may failure same => ?_
      rw [same] at may
      cases may
    exact dice _ l log reserved

/-- The client asks for clocks and permits. -/
theorem acquire_quiet (rounds : ℕ) : Quiet loads reservation (acquire rounds reservation) := by
  have requests : Quiet loads reservation (ask (.acquirePermit (.of reservation))) :=
    quiet_ask rfl (fun _ reserved => allowed_of_reserved reserved rfl trivial) fun _ may => may
  have sleeps (duration : Time) : Quiet loads reservation (ask (.sleep duration)) :=
    quiet_ask rfl (fun _ _ => allowed_of_common rfl trivial) fun _ may failure same => by
      cases may _ same
  have grants (response : Response) :
      Quiet loads reservation (granted reservation response) := by
    unfold granted
    split
    · split
      · exact .throw fun _ never => by cases never
      · split
        · exact .throw fun _ never => by cases never
        · exact .pure _
    · split
      · exact .throw fun _ never => by cases never
      · split
        · exact .throw fun _ never => by cases never
        · split
          · exact .throw fun _ never => by cases never
          · exact .pure _
  have asks (left : Time) : Quiet loads reservation (requestPermit reservation left) := by
    refine Quiet.tryCatch (Quiet.bind (requests.tryCatch fun e not => ?_) grants)
      fun e not => ?_
    · refine .throw fun failure same => ?_
      split at same
      · cases same
      · exact not failure same
    · split
      · exact .pure _
      · split
        · exact .throw fun _ never => by cases never
        · exact .pure _
      · exact .throw not
  refine Quiet.loop (fun _ => remaining_quiet.bind fun left => ?_) rounds ()
  split
  · exact .throw fun _ never => by cases never
  · refine (asks left).bind fun granted => ?_
    split
    · exact .pure _
    · exact remaining_quiet.bind fun _ => (sleeps _).bind fun _ => .pure _

end Quiet

/-- What a tick knows when its `try` block has raised `e`. -/
inductive Known (reservation : Reservation) (log : Log) (l : Locals) (e : Error) : Prop
  /-- The engine was never asked. -/
  | unsent (never : ¬ Entered log) (mark : l.sendMarked = false)
      (failures : ∀ failure, e = .driver failure →
        failure.notSent = true ∧ failure.finished = false)
  /-- The engine was asked, and has not returned a result. -/
  | sent (entered : Entered log) (mark : l.sendMarked = true)
      (unreturned : ∀ result, ¬ Returned reservation log result) (fenced : e.isConflict = false)
      (failures : ∀ failure, e = .driver failure → Failed reservation log failure ∨
        failure.notSent = false ∧ failure.finished = false)
  /-- There is a result: the attempt is fenced, or the tick is cancelled. -/
  | returned {result : Result} (returned : Returned reservation log result)
      (mark : l.sendMarked = true)
      (raised : e.isConflict = true ∨ e.isException = false ∧ Interrupted log)

section Parts

variable {loads : Loads} {reservation : Reservation} {l : Locals} {log : Log} {rounds : ℕ}

theorem interrupted_of_answer {call : Call} {e : Error} (stopped : e.isException = false) :
    Interrupted (log ++ [⟨call, .error e⟩]) := by
  refine ⟨⟨call, .error e⟩, List.mem_append_right log (List.mem_singleton_self _), ?_⟩
  cases e with
  | cancelled => exact Or.inl rfl
  | expired => exact Or.inr rfl
  | _ => cases stopped

/-! #### The last write -/

theorem write_safe {ending : Ending} (reserved : Reserved reservation log)
    (justified : ending.Justified reservation log) :
    Safe loads (write reservation ending) l log fun _ l' log' => l' = l ∧ Beside log log' := by
  have final {log' : Log} {call : Call} (beside : Beside log log') (quiet : call.isExecute = false)
      (about : call.About reservation) (rule : call.Rule loads log') :
      Safe loads (ask call) l log' fun _ l' log'' => l' = l ∧ Beside log log'' :=
    Routine.Ensures.ask (allowed_of_reserved (beside.reserved reserved) about rule)
      fun answer _ => ⟨rfl, beside.trans (beside_asked _ _ quiet answer)⟩
  cases ending with
  | fail reason =>
    exact final (.refl log) rfl rfl ⟨fun _ returned => justified returned.entered,
      fun _ => Or.inl justified, fun never => by cases never⟩
  | unknown reason =>
    exact final (.refl log) rfl rfl ⟨justified.1, fun ⟨result, returned⟩ =>
      (justified.2 result returned).elim⟩
  | settle failure delay =>
    -- whether the termination is recorded first or not, the same write follows
    have rest {log' : Log} (beside : Beside log log')
        (ended : failure.finished = true → Terminated reservation log') :
        Safe loads (if failure.finished || failure.notSent then
            ask (.fail reservation failure.reason failure.notSent failure.retry delay)
          else ask (.unknown reservation failure.reason)) l log' fun _ l' log'' =>
            l' = l ∧ Beside log log'' := by
      obtain ⟨unreturned, -, unsent, sent⟩ := beside.justified justified
      by_cases known : (failure.finished || failure.notSent) = true
      · rw [if_pos known]
        refine final beside rfl rfl ⟨unreturned, fun is => ?_, fun is => ended ?_⟩
        · exact (unsent is).imp_right fun failed => ⟨failure, failed, is⟩
        · simpa [is] using known
      · rw [if_neg known]
        simp only [Bool.or_eq_true, not_or, Bool.not_eq_true] at known
        exact final beside rfl rfl ⟨sent known.2, fun ⟨result, returned⟩ =>
          (unreturned result returned).elim⟩
    refine Routine.Ensures.bind ?_
    unfold finishCompute
    by_cases finished : failure.finished = true
    · rw [if_pos finished]
      have rule : (Call.computeFinished reservation).Rule loads log :=
        Or.inr ⟨failure, justified.2.1 finished, finished⟩
      refine Routine.Ensures.ask (allowed_of_reserved reserved rfl rule) fun answer _ => ?_
      have beside := beside_asked log (.computeFinished reservation) rfl answer
      cases answer with
      | error e => exact ⟨rfl, beside⟩
      | ok =>
        exact rest beside fun _ => List.mem_append_right log (List.mem_singleton_self _)
    · rw [if_neg finished]
      exact Routine.Ensures.pure (rest (.refl log) fun is => absurd is finished)

theorem writeEnd_safe {ending : Ending} (reserved : Reserved reservation log)
    (justified : ending.Justified reservation log) (tries : Option ℕ) :
    Safe loads (writeEnd rounds reservation ending tries) l log fun _ l' log' =>
      l' = l ∧ Beside log log' := by
  refine Routine.Ensures.loop (I := fun _ l' log' => l' = l ∧ Beside log log')
    (fun failures l' log' before => ?_) rounds ⟨rfl, .refl log⟩
  obtain ⟨rfl, beside⟩ := before
  have written : Safe loads (write reservation ending) l' log' fun _ l'' log'' =>
      l'' = l' ∧ Beside log' log'' :=
    write_safe (beside.reserved reserved) (beside.justified justified)
  refine Routine.Ensures.tryCatch (Routine.Ensures.bind (written.mono
    fun outcome l'' log'' after => ?_))
  obtain ⟨rfl, more⟩ := after
  have later := beside.trans more
  cases outcome with
  | ok => exact ⟨rfl, later⟩
  | error e =>
    show Safe loads (writeFailed tries failures e) l'' log'' _
    unfold writeFailed
    split
    · exact ⟨rfl, later⟩
    · split
      · split
        · exact ⟨rfl, later⟩
        split
        · exact ⟨rfl, later⟩
        · refine Routine.Ensures.bind (Routine.Ensures.ask (allowed_of_common rfl trivial)
            fun answer _ => ?_)
          have last := later.trans (beside_asked log'' (.sleep _) rfl answer)
          cases answer <;> exact ⟨rfl, last⟩
      · exact ⟨rfl, later⟩

theorem endAttempt_safe {ending : Ending} (reserved : Reserved reservation log)
    (justified : ending.Justified reservation log) :
    Safe loads (endAttempt rounds reservation ending) l log fun _ l' log' =>
      l' = l ∧ Beside log log' := by
  refine Routine.Ensures.bind ((writeEnd_safe reserved justified _).mono
    fun outcome l' log' after => ?_)
  obtain ⟨rfl, beside⟩ := after
  cases outcome with
  | error e => exact ⟨rfl, beside⟩
  | ok done =>
    cases done with
    | true => exact ⟨rfl, beside⟩
    | false =>
      exact Routine.Ensures.ask (allowed_of_reserved (beside.reserved reserved) rfl
        (beside.justified justified)) fun answer _ =>
          ⟨rfl, beside.trans (beside_asked _ _ rfl answer)⟩

/-! #### The `try` block -/

/-- Until there is a permit, whatever ends the attempt says that it was not sent. -/
theorem prepare_safe (reserved : Reserved reservation log) :
    Safe loads (prepare rounds reservation) l log fun outcome l' log' =>
      l'.sendMarked = l.sendMarked ∧ l'.terminationRecorded = l.terminationRecorded ∧
        Beside log log' ∧ ∀ failure, outcome = .error (.driver failure) →
          failure.notSent = true ∧ failure.finished = false := by
  have late {log₁ : Log} {l₁ : Locals} (mark : l₁.sendMarked = l.sendMarked)
      (recorded : l₁.terminationRecorded = l.terminationRecorded) (beside : Beside log log₁) :
      Safe loads (throw (.driver deadlineExceeded) : Code Unit) l₁ log₁ fun outcome l' log' =>
        l'.sendMarked = l.sendMarked ∧ l'.terminationRecorded = l.terminationRecorded ∧
          Beside log log' ∧ ∀ failure, outcome = .error (.driver failure) →
            failure.notSent = true ∧ failure.finished = false := by
    refine Routine.Ensures.throw ⟨mark, recorded, beside, fun failure same => ?_⟩
    cases same
    exact ⟨rfl, rfl⟩
  have undriven {β : Type} {e : Error}
      (not : ∀ failure, (.error e : Except Error β) ≠ .error (.driver failure)) (failure) :
      e ≠ .driver failure := fun same => not failure (congrArg _ same)
  refine Routine.Ensures.bind ((remaining_quiet l log reserved).mono
    fun outcome l₁ log₁ after => ?_)
  obtain ⟨rfl, beside, not⟩ := after
  cases outcome with
  | error e =>
    exact ⟨rfl, rfl, beside, fun failure same =>
      (undriven not failure (Except.error.inj same)).elim⟩
  | ok left =>
    dsimp only
    by_cases passed : left ≤ 0
    · rw [if_pos passed]
      exact late rfl rfl beside
    · rw [if_neg passed]
      have asked : Quiet loads reservation (acquire rounds reservation) := acquire_quiet rounds
      refine Routine.Ensures.bind (Routine.Ensures.tryCatch (Routine.Ensures.bind
        ((asked l₁ log₁ (beside.reserved reserved)).mono fun outcome l₂ log₂ after => ?_)))
      obtain ⟨rfl, more, not⟩ := after
      have later := beside.trans more
      cases outcome with
      | error e =>
        refine Routine.Ensures.throw ⟨rfl, rfl, later, fun failure same => ?_⟩
        have same : (if e = .timeout then .driver deadlineExceeded else e) = .driver failure :=
          Except.error.inj same
        split at same
        · cases same
          exact ⟨rfl, rfl⟩
        · exact (undriven not failure same).elim
      | ok =>
        refine Routine.Ensures.modify (Routine.Ensures.bind
          ((remaining_quiet _ log₂ (later.reserved reserved)).mono
            fun outcome l₃ log₃ after => ?_))
        obtain ⟨rfl, last, not⟩ := after
        have later := later.trans last
        cases outcome with
        | error e =>
          exact ⟨rfl, rfl, later, fun failure same =>
            (undriven not failure (Except.error.inj same)).elim⟩
        | ok left =>
          dsimp only
          by_cases passed : left ≤ 0
          · rw [if_pos passed]
            exact late rfl rfl later
          · rw [if_neg passed]
            exact ⟨rfl, rfl, later, fun failure never => by cases never⟩

/-- How `send` ends: with a result, or with what the tick knows of the attempt. -/
def SendEnds (reservation : Reservation) (outcome : Except Error Result) (l : Locals)
    (log : Log) : Prop :=
  match outcome with
  | .ok result => Returned reservation log result ∧ l.sendMarked = true
  | .error e => Known reservation log l e ∧ ∀ result, ¬ Returned reservation log result

theorem sendEnds_unsent {e : Error} (never : ¬ Entered log) (mark : l.sendMarked = false)
    (undriven : ∀ failure, e ≠ .driver failure) : SendEnds reservation (.error e) l log :=
  ⟨.unsent never mark fun failure same => (undriven failure same).elim,
    fun _ returned => never returned.entered⟩

/-- The engine is asked after everything else, and what it answers is all there is. -/
theorem execute_safe {payload : Json} (reserved : Reserved reservation log)
    (rule : (Call.execute reservation payload).Rule loads log) (mark : l.sendMarked = true) :
    Safe loads (ask (.execute reservation payload)) l log fun outcome l' log' =>
      Reserved reservation log' ∧ l'.terminationRecorded = l.terminationRecorded ∧
        SendEnds reservation outcome l' log' := by
  refine Routine.Ensures.ask (allowed_of_reserved reserved rfl rule) fun answer may => ?_
  have here : (⟨.execute reservation payload, answer⟩ : Asking Call _) ∈
      log ++ [⟨.execute reservation payload, answer⟩] :=
    List.mem_append_right log (List.mem_singleton_self _)
  obtain ⟨poolId, ownerId, rest, same⟩ := reserved
  refine ⟨⟨poolId, ownerId, rest ++ [_], by rw [same]; rfl⟩, rfl, ?_⟩
  cases answer with
  | ok result => exact ⟨⟨payload, here⟩, mark⟩
  | error e =>
    have unreturned : ∀ result, ¬ Returned reservation
        (log ++ [⟨.execute reservation payload, .error e⟩]) result := by
      rintro result ⟨payload', member⟩
      rcases List.mem_append.mp member with old | new
      · exact rule.1 ⟨_, old, rfl⟩
      · cases List.mem_singleton.mp new
    refine ⟨.sent ⟨_, here, rfl⟩ mark unreturned (may e rfl) fun failure same => ?_, unreturned⟩
    subst same
    exact Or.inl ⟨payload, here⟩

theorem send_safe (reserved : Reserved reservation log) (never : ¬ Entered log)
    (mark : l.sendMarked = false) :
    Safe loads (send loads reservation) l log fun outcome l' log' =>
      Reserved reservation log' ∧ l'.terminationRecorded = l.terminationRecorded ∧
        SendEnds reservation outcome l' log' := by
  have before {log' : Log} {e : Error} (beside : Beside log log')
      (undriven : ∀ failure, e ≠ .driver failure) :
      Reserved reservation log' ∧ l.terminationRecorded = l.terminationRecorded ∧
        SendEnds reservation (.error e) l log' :=
    ⟨beside.reserved reserved, rfl,
      sendEnds_unsent (fun entered => never (beside.entered.mp entered)) mark undriven⟩
  have undriven {β : Type} {e : Error}
      (may : ∀ failure, (.error e : Except Error β) ≠ .error (.driver failure)) (failure) :
      e ≠ .driver failure := fun same => may failure (congrArg _ same)
  refine Routine.Ensures.bind (Routine.Ensures.ask (allowed_of_reserved reserved rfl trivial)
    fun answer may => ?_)
  have got := beside_asked log (.getArtifact reservation.operation.payload) rfl answer
  cases answer with
  | error e => exact before got (undriven may)
  | ok bytes =>
    dsimp only
    cases read : loads bytes with
    | none => exact before got fun _ never => by cases never
    | some payload =>
      dsimp only
      refine Routine.Ensures.bind (Routine.Ensures.ask
        (allowed_of_reserved (got.reserved reserved) rfl trivial) fun answer may => ?_)
      have marked := got.trans (beside_asked _ (.markSend reservation) rfl answer)
      cases answer with
      | error e => exact before marked (undriven may)
      | ok =>
        refine Routine.Ensures.bind (Routine.Ensures.bind (Routine.Ensures.ask
          (allowed_of_reserved (marked.reserved reserved) rfl trivial) fun answer may => ?_))
        have beaten := marked.trans
          (beside_asked _ (.heartbeatPermit (.of reservation)) rfl answer)
        cases answer with
        | error e => exact before beaten (undriven may)
        | ok response =>
          dsimp only
          by_cases refused : response.status ≠ 200
          · rw [if_pos refused]
            exact before beaten fun _ never => by cases never
          · rw [if_neg refused]
            -- from here on the attempt counts as sent
            refine Routine.Ensures.pure (Routine.Ensures.bind (Routine.Ensures.modify ?_))
            have rule : (Call.execute reservation payload).Rule loads _ :=
              ⟨fun entered => never (beaten.entered.mp entered), log, bytes, response, by simp,
                read, not_not.mp refused⟩
            exact execute_safe (beaten.reserved reserved) rule rfl

/-- A `TimeoutError` becomes a `DriverFailure` that says whether the attempt was marked. -/
theorem sendFailed_safe {e : Error} (reserved : Reserved reservation log)
    (ends : SendEnds reservation (.error e) l log) :
    Safe loads (sendFailed e) l log fun outcome l' log' =>
      Reserved reservation log' ∧ l'.terminationRecorded = l.terminationRecorded ∧
        SendEnds reservation outcome l' log' := by
  obtain ⟨known, unreturned⟩ := ends
  have late (reason : String) : SendEnds reservation (.error (.driver
      { reason, notSent := !l.sendMarked, retry := !l.sendMarked })) l log := by
    refine ⟨?_, unreturned⟩
    cases known with
    | unsent never mark =>
      refine .unsent never mark fun failure same => ?_
      cases same
      exact ⟨by rw [mark]; rfl, rfl⟩
    | sent entered mark =>
      refine .sent entered mark unreturned rfl fun failure same => Or.inr ?_
      cases same
      exact ⟨by rw [mark]; rfl, rfl⟩
    | returned returned => exact (unreturned _ returned).elim
  refine Routine.Ensures.bind (Routine.Ensures.get ?_)
  dsimp only
  split
  · exact ⟨reserved, rfl, late _⟩
  · exact ⟨reserved, rfl, late _⟩
  · exact ⟨reserved, rfl, known, unreturned⟩

/-! #### Storing a result -/

/-- What a tick with a result keeps while it stores it. -/
structure Storing (reservation : Reservation) (result : Result) (l : Locals) (log : Log) :
    Prop where
  reserved : Reserved reservation log
  returned : Returned reservation log result
  mark : l.sendMarked = true
  recorded : l.terminationRecorded = true → Terminated reservation log

variable {result : Result}

theorem Storing.beside {log' : Log} (storing : Storing reservation result l log)
    (beside : Beside log log') : Storing reservation result l log' where
  reserved := beside.reserved storing.reserved
  returned := beside.returned.mpr storing.returned
  mark := storing.mark
  recorded is := beside.mem (storing.recorded is)

/-- How a part of the loop ends: the loop can go on, and a cancellation is on record. -/
structure Stored {α : Type} (reservation : Reservation) (result : Result) (l : Locals)
    (post : α → Locals → Log → Prop) (outcome : Except Error α) (l' : Locals) (log' : Log) :
    Prop where
  storing : Storing reservation result l' log'
  kept : l.terminationRecorded = true → l'.terminationRecorded = true
  holds : ∀ a, outcome = .ok a → post a l' log'
  stopped : ∀ e, outcome = .error e → e.isException = false → Interrupted log'

/-- A part of the loop. -/
abbrev Stores {α : Type} (loads : Loads) (reservation : Reservation) (result : Result) (p : Code α)
    (l : Locals) (log : Log) (post : α → Locals → Log → Prop) : Prop :=
  Safe loads p l log (Stored reservation result l post)

theorem Stored.ok {α : Type} {a : α} {l' : Locals} {post : α → Locals → Log → Prop}
    (storing : Storing reservation result l' log)
    (kept : l.terminationRecorded = true → l'.terminationRecorded = true)
    (holds : post a l' log) : Stored reservation result l post (.ok a) l' log where
  storing := storing
  kept := kept
  holds _ same := Except.ok.inj same ▸ holds
  stopped _ never := by cases never

theorem Stored.error {α : Type} {e : Error} {l' : Locals} {post : α → Locals → Log → Prop}
    (storing : Storing reservation result l' log)
    (kept : l.terminationRecorded = true → l'.terminationRecorded = true)
    (stopped : e.isException = false → Interrupted log) :
    Stored reservation result l post (.error e) l' log where
  storing := storing
  kept := kept
  holds _ never := by cases never
  stopped _ same := Except.error.inj same ▸ stopped

theorem stores_ask (call : Call) (storing : Storing reservation result l log)
    (quiet : call.isExecute = false) (allowed : Allowed loads log call) :
    Stores loads reservation result (ask call) l log fun a l' log' =>
      l' = l ∧ log' = log ++ [⟨call, .ok a⟩] := by
  refine Routine.Ensures.ask allowed fun answer _ => ?_
  have later := storing.beside (beside_asked log call quiet answer)
  cases answer with
  | ok a => exact .ok later id ⟨rfl, rfl⟩
  | error e => exact .error later id interrupted_of_answer

theorem Stores.bind {α β : Type} {p : Code α} {f : α → Code β} {mid : α → Locals → Log → Prop}
    {post : β → Locals → Log → Prop} (first : Stores loads reservation result p l log mid)
    (next : ∀ a l' log', Storing reservation result l' log' → mid a l' log' →
      Stores loads reservation result (f a) l' log' post) :
    Stores loads reservation result (p >>= f) l log post := by
  refine Routine.Ensures.bind (first.mono fun outcome l' log' after => ?_)
  cases outcome with
  | error e => exact .error after.storing after.kept (after.stopped e rfl)
  | ok a =>
    refine (next a l' log' after.storing (after.holds a rfl)).mono fun outcome l'' log'' last => ?_
    exact ⟨last.storing, fun is => last.kept (after.kept is), last.holds, last.stopped⟩

/-- The permit may go once the termination is recorded. -/
theorem releaseFinished_stores (storing : Storing reservation result l log)
    (recorded : l.terminationRecorded = true) :
    Stores loads reservation result (releaseFinished reservation) l log fun _ _ _ => True := by
  have rule : (Call.releasePermit (.of reservation)).Rule loads log :=
    ⟨reservation, storing.reserved, rfl, Or.inl (storing.recorded recorded)⟩
  have released : Stores loads reservation result (releasePermit reservation) l log
      fun _ _ _ => True := by
    refine (stores_ask (.releasePermit _) storing rfl
      (allowed_of_reserved storing.reserved rfl rule)).bind
      fun response l' log' storing _ => ?_
    split
    · exact Routine.Ensures.throw (.error storing id fun never => by cases never)
    · exact Routine.Ensures.pure (.ok storing id trivial)
  have cleared : Stores loads reservation result (do
      releasePermit reservation
      modify fun l => { l with permitReady := false }) l log fun _ _ _ => True := by
    refine released.bind fun _ l' log' storing _ => Routine.Ensures.modify (.ok ?_ id trivial)
    exact ⟨storing.reserved, storing.returned, storing.mark, storing.recorded⟩
  refine Routine.Ensures.tryCatch (cleared.mono fun outcome l' log' after => ?_)
  cases outcome with
  | ok => exact .ok after.storing after.kept trivial
  | error e =>
    dsimp only
    split
    · exact Routine.Ensures.pure (.ok after.storing after.kept trivial)
    · exact Routine.Ensures.throw (.error after.storing after.kept (after.stopped e rfl))

theorem recordTermination_stores (storing : Storing reservation result l log) :
    Stores loads reservation result (recordTermination reservation) l log fun _ l' _ =>
      l'.terminationRecorded = true := by
  refine Routine.Ensures.bind (Routine.Ensures.get ?_)
  dsimp only
  by_cases recorded : l.terminationRecorded = true
  · rw [if_pos recorded]
    exact Routine.Ensures.pure (.ok storing id recorded)
  · rw [if_neg recorded]
    have rule : (Call.computeFinished reservation).Rule loads log :=
      Or.inl ⟨result, storing.returned⟩
    refine (stores_ask (.computeFinished _) storing rfl
      (allowed_of_reserved storing.reserved rfl rule)).bind fun _ l' log' storing after => ?_
    obtain ⟨rfl, rfl⟩ := after
    refine Routine.Ensures.bind (Routine.Ensures.modify ?_)
    have marked : Storing reservation result { l' with terminationRecorded := true } _ :=
      { reserved := storing.reserved
        returned := storing.returned
        mark := storing.mark
        recorded := fun _ => List.mem_append_right log (List.mem_singleton_self _) }
    refine (releaseFinished_stores marked rfl).mono fun outcome l'' log'' after => ?_
    exact ⟨after.storing, fun _ => after.kept rfl, fun _ _ => after.kept rfl, after.stopped⟩

/-- One round stores what the engine returned, and commits it only after the termination. -/
theorem persistOnce_stores (storing : Storing reservation result l log) :
    Stores loads reservation result (persistOnce reservation result) l log fun _ _ _ => True := by
  have audio {l : Locals} {log : Log} (storing : Storing reservation result l log) :
      Stores loads reservation result (putAudio reservation result) l log fun _ l' _ => l' = l := by
    cases result with
    | speech body audio characters =>
      refine (stores_ask (.putArtifact ..) storing rfl
        (allowed_of_reserved storing.reserved rfl trivial)).bind
        fun artifact l' log' storing after => Routine.Ensures.pure (.ok storing id after.1)
    | engine | embedding => exact Routine.Ensures.pure (.ok storing id rfl)
  refine (recordTermination_stores storing).bind fun _ l₁ log₁ before recorded => ?_
  refine (audio before).bind fun audio l₂ log₂ between after => ?_
  subst after
  refine (stores_ask (.putArtifact ..) between rfl
    (allowed_of_reserved between.reserved rfl trivial)).bind
    fun artifact l₃ log₃ last after => ?_
  obtain ⟨rfl, rfl⟩ := after
  have rule : (Call.commitResult reservation artifact result.usage audio.toList).Rule loads _ :=
    ⟨last.recorded recorded, result, audio, last.returned, rfl, rfl,
      List.mem_append_right log₂ (List.mem_singleton_self _)⟩
  refine (stores_ask (.commitResult ..) last rfl
    (allowed_of_reserved last.reserved rfl rule)).mono fun outcome l' log' after => ?_
  exact ⟨after.storing, after.kept, fun _ _ => trivial, after.stopped⟩

/-- The loop ends with a stored result, a fence or a cancellation. -/
theorem persist_safe (storing : Storing reservation result l log) :
    Safe loads (persist rounds reservation result) l log fun outcome l' log' =>
      Storing reservation result l' log' ∧ ∀ e, outcome = .error e →
        e.isConflict = true ∨ e.isException = false ∧ Interrupted log' := by
  refine Routine.Ensures.loop (I := fun _ l log => Storing reservation result l log)
    (fun _ l log storing => ?_) rounds storing
  have round : Stores loads reservation result (do
      persistOnce reservation result
      return (.inr () : Unit ⊕ Unit)) l log fun a _ _ => a = .inr () :=
    (persistOnce_stores storing).bind fun _ _ _ storing _ =>
      Routine.Ensures.pure (.ok storing id rfl)
  refine Routine.Ensures.tryCatch (round.mono fun outcome l' log' after => ?_)
  cases outcome with
  | ok a =>
    obtain rfl := after.holds a rfl
    exact ⟨after.storing, fun _ never => by cases never⟩
  | error e =>
    dsimp only
    by_cases leaves : (e.isConflict || !e.isException) = true
    · rw [if_pos leaves]
      refine Routine.Ensures.throw ⟨after.storing, fun e' same => ?_⟩
      cases same
      rcases Bool.or_eq_true_iff.mp leaves with fenced | cancelled
      · exact Or.inl fenced
      · have cancelled : e.isException = false := by simpa using cancelled
        exact Or.inr ⟨cancelled, after.stopped e rfl cancelled⟩
    · rw [if_neg leaves]
      refine Routine.Ensures.bind (Routine.Ensures.ask (allowed_of_common rfl trivial)
        fun answer may => ?_)
      have later := after.storing.beside (beside_asked log' (.sleep _) rfl answer)
      cases answer with
      | ok => exact later
      | error e =>
        refine ⟨later, fun e' same => Or.inr ?_⟩
        cases same
        exact ⟨may e rfl, interrupted_of_answer (may e rfl)⟩

/-! #### The whole tick -/

theorem attempt_safe (reserved : Reserved reservation log) (never : ¬ Entered log)
    (mark : l.sendMarked = false) (recorded : l.terminationRecorded = false) :
    Safe loads (attempt loads rounds reservation) l log fun outcome l' log' =>
      Reserved reservation log' ∧ ∀ e, outcome = .error e → Known reservation log' l' e := by
  refine Routine.Ensures.bind ((prepare_safe reserved).mono fun outcome l₁ log₁ after => ?_)
  obtain ⟨mark', recorded', beside, failures⟩ := after
  have fresh : ¬ Entered log₁ := fun entered => never (beside.entered.mp entered)
  have reserved := beside.reserved reserved
  have mark := mark'.trans mark
  cases outcome with
  | error e =>
    refine ⟨reserved, fun e' same => .unsent fresh mark fun failure failed => ?_⟩
    cases same
    exact failures failure (congrArg _ failed)
  | ok =>
    have sent : Safe loads (tryCatch (send loads reservation) sendFailed) l₁ log₁
        fun outcome l' log' => Reserved reservation log' ∧
          l'.terminationRecorded = l₁.terminationRecorded ∧
            SendEnds reservation outcome l' log' := by
      refine Routine.Ensures.tryCatch ((send_safe reserved fresh mark).mono
        fun outcome l₂ log₂ after => ?_)
      obtain ⟨reserved, same, ends⟩ := after
      cases outcome with
      | ok result => exact ⟨reserved, same, ends⟩
      | error e => exact same ▸ sendFailed_safe reserved ends
    refine Routine.Ensures.bind (sent.mono fun outcome l₂ log₂ after => ?_)
    obtain ⟨reserved, same, ends⟩ := after
    cases outcome with
    | error e =>
      refine ⟨reserved, fun e' same => ?_⟩
      cases same
      exact ends.1
    | ok result =>
      have storing : Storing reservation result l₂ log₂ :=
        { reserved := reserved
          returned := ends.1
          mark := ends.2
          recorded := fun is => by
            rw [same, recorded', recorded] at is
            cases is }
      refine (persist_safe storing).mono fun outcome l₃ log₃ after => ?_
      exact ⟨after.1.reserved, fun e same =>
        .returned after.1.returned after.1.mark (after.2 e same)⟩

/-- What is written on shutdown says what is known. -/
theorem shutdown_safe {e : Error} (reserved : Reserved reservation log)
    (known : Known reservation log l e) (open_ : e.isConflict = false) :
    Safe loads (shutdown reservation) l log fun _ _ log' => Reserved reservation log' := by
  have write {call : Call} (quiet : call.isExecute = false)
      (about : call.About reservation) (rule : call.Rule loads log) :
      Safe loads (ask call) l log fun _ _ log' => Reserved reservation log' :=
    Routine.Ensures.ask (allowed_of_reserved reserved about rule)
      fun answer _ => (beside_asked log call quiet answer).reserved reserved
  have written : Safe loads (if l.sendMarked then ask (.unknown reservation "executor_shutdown")
      else ask (.fail reservation "shutdown_before_send" true true 0)) l log
        fun _ _ log' => Reserved reservation log' := by
    cases known with
    | unsent never mark =>
      rw [if_neg (by rw [mark]; exact Bool.false_ne_true)]
      exact write rfl rfl ⟨fun _ returned => never returned.entered, fun _ => Or.inl never,
        fun never => by cases never⟩
    | sent entered mark unreturned =>
      rw [if_pos mark]
      exact write rfl rfl ⟨entered, fun ⟨result, returned⟩ => (unreturned result returned).elim⟩
    | returned returned mark raised =>
      rw [if_pos mark]
      refine write rfl rfl ⟨returned.entered, fun _ => ?_⟩
      rcases raised with fenced | ⟨-, interrupted⟩
      · cases open_.symm.trans fenced
      · exact interrupted
  refine Routine.Ensures.bind (Routine.Ensures.get (Routine.Ensures.tryCatch
    (written.mono fun outcome l' log' reserved => ?_)))
  cases outcome with
  | ok => exact reserved
  | error e =>
    dsimp only
    split
    · exact reserved
    · exact reserved

theorem unsent_safe {e : Error} {reason : String} (reserved : Reserved reservation log)
    (known : Known reservation log l e) :
    Safe loads (unsent rounds reservation reason) l log fun _ _ log' =>
      Reserved reservation log' := by
  refine Routine.Ensures.bind (Routine.Ensures.get ?_)
  dsimp only
  cases known with
  | unsent never mark =>
    rw [if_neg (by rw [mark]; exact Bool.false_ne_true)]
    have ends : Safe loads (endAttempt rounds reservation (.fail reason)) l log
        fun _ l' log' => l' = l ∧ Beside log log' := endAttempt_safe reserved never
    exact ends.mono fun _ _ _ after => after.2.reserved reserved
  | sent _ mark =>
    rw [if_pos mark]
    exact reserved
  | returned _ mark =>
    rw [if_pos mark]
    exact reserved

theorem handle_safe {e : Error} (reserved : Reserved reservation log)
    (known : Known reservation log l e) :
    Safe loads (handle rounds reservation e) l log fun _ _ log' => Reserved reservation log' := by
  have ends {ending : Ending} {log' : Log} (beside : Beside log log')
      (justified : ending.Justified reservation log) :
      Safe loads (endAttempt rounds reservation ending) l log' fun _ _ log'' =>
        Reserved reservation log'' :=
    (endAttempt_safe (beside.reserved reserved) (beside.justified justified)).mono
      fun _ _ _ after => after.2.reserved (beside.reserved reserved)
  have broken (none : e.isConflict = false) (exception : e.isException = true)
      (undriven : ∀ failure, e ≠ .driver failure) :
      Safe loads (do
        let l ← get
        if l.sendMarked then endAttempt rounds reservation (.unknown "executor_error_after_send")
        else endAttempt rounds reservation (.fail "payload_unavailable")) l log
          fun _ _ log' => Reserved reservation log' := by
    refine Routine.Ensures.bind (Routine.Ensures.get ?_)
    dsimp only
    cases known with
    | unsent never mark =>
      rw [if_neg (by rw [mark]; exact Bool.false_ne_true)]
      exact ends (.refl log) never
    | sent entered mark unreturned =>
      rw [if_pos mark]
      exact ends (.refl log) ⟨entered, unreturned⟩
    | returned _ _ raised =>
      rcases raised with fenced | ⟨cancelled, -⟩
      · cases none.symm.trans fenced
      · cases exception.symm.trans cancelled
  have stopped (none : e.isConflict = false) : Safe loads (do
      shutdown reservation
      throw e : Code Unit) l log fun _ _ log' => Reserved reservation log' := by
    refine Routine.Ensures.bind ((shutdown_safe reserved known none).mono
      fun outcome l' log' reserved => ?_)
    cases outcome <;> exact reserved
  cases e with
  | cancelled => exact stopped rfl
  | expired => exact stopped rfl
  | sendBudget => exact unsent_safe reserved known
  | conflict => exact unsent_safe reserved known
  | timeout => exact broken rfl rfl fun _ never => by cases never
  | transport => exact broken rfl rfl fun _ never => by cases never
  | overflow => exact broken rfl rfl fun _ never => by cases never
  | other => exact broken rfl rfl fun _ never => by cases never
  | driver failure =>
    have justified (delay : Time) : (Ending.settle failure delay).Justified reservation log := by
      cases known with
      | unsent never mark failures =>
        obtain ⟨unsent, running⟩ := failures failure rfl
        refine ⟨fun _ returned => never returned.entered, fun is => ?_, fun _ => Or.inl never,
          fun is => ?_⟩
        · cases running.symm.trans is
        · cases unsent.symm.trans is
      | sent entered mark unreturned _ failures =>
        refine ⟨unreturned, fun is => ?_, fun is => Or.inr ?_, fun _ => entered⟩
        · exact (failures failure rfl).elim id fun ⟨_, running⟩ => by cases running.symm.trans is
        · exact (failures failure rfl).elim id fun ⟨sent, _⟩ => by cases sent.symm.trans is
      | returned _ _ raised =>
        rcases raised with fenced | ⟨cancelled, -⟩
        · cases fenced
        · cases cancelled
    refine Routine.Ensures.bind ((retryDelay_quiet failure l log reserved).mono
      fun outcome l' log' after => ?_)
    obtain ⟨rfl, beside, -⟩ := after
    cases outcome with
    | error e => exact beside.reserved reserved
    | ok delay => exact ends beside (justified delay)

/-- The permit is given back only if the ledger says that no compute is held. -/
theorem finish_safe (reserved : Reserved reservation log) :
    Safe loads (finish reservation) l log fun _ _ _ => True := by
  refine Routine.Ensures.bind (Routine.Ensures.get ?_)
  dsimp only
  by_cases ready : l.permitReady = true
  · rw [if_pos ready]
    have swallowed {l' : Locals} {log' : Log} (e : Error) :
        Safe loads (if e.isException then pure () else throw e : Code Unit) l' log'
          fun _ _ _ => True := by
      split <;> trivial
    refine Routine.Ensures.tryCatch (Routine.Ensures.bind (Routine.Ensures.ask
      (allowed_of_reserved reserved rfl trivial) fun answer _ => ?_))
    have beside := beside_asked log (.attemptComputeHeld reservation.attemptId) rfl answer
    rcases answer with e | (_ | _)
    · exact swallowed e
    · have rule : (Call.releasePermit (.of reservation)).Rule loads _ :=
        ⟨reservation, beside.reserved reserved, rfl,
          Or.inr (List.mem_append_right log (List.mem_singleton_self _))⟩
      refine Routine.Ensures.bind (Routine.Ensures.ask
        (allowed_of_reserved (beside.reserved reserved) rfl rule)
        fun answer _ => ?_)
      cases answer with
      | error e => exact swallowed e
      | ok response =>
        dsimp only
        split
        · exact swallowed _
        · trivial
    · trivial
  · rw [if_neg ready]
    trivial

theorem tick_safe (poolId ownerId : String) :
    Safe loads (tick loads rounds poolId ownerId) {} [] fun _ _ _ => True := by
  refine Routine.Ensures.bind (Routine.Ensures.ask (allowed_of_common rfl rfl)
    fun answer _ => ?_)
  rcases answer with e | (_ | reservation)
  · trivial
  · trivial
  · have reserved : Reserved reservation
        [⟨.reserveNext poolId ownerId, .ok (some reservation)⟩] := ⟨poolId, ownerId, [], rfl⟩
    have fresh : ¬ Entered [⟨.reserveNext poolId ownerId, .ok (some reservation)⟩] := by
      rintro ⟨event, member, execute⟩
      obtain rfl := List.mem_singleton.mp member
      cases execute
    have tried : Safe loads (Routine.onExit (tryCatch (attempt loads rounds reservation)
        (handle rounds reservation)) (finish reservation)) { reservation := some reservation }
        [⟨.reserveNext poolId ownerId, .ok (some reservation)⟩] fun _ _ _ => True := by
      refine Routine.Ensures.onExit (Routine.Ensures.tryCatch
        ((attempt_safe reserved fresh rfl rfl).mono fun outcome l log after => ?_))
      obtain ⟨reserved, known⟩ := after
      cases outcome with
      | ok => exact (finish_safe reserved).mono fun lastly _ _ _ => by cases lastly <;> trivial
      | error e =>
        refine (handle_safe reserved (known e rfl)).mono fun _ _ _ reserved => ?_
        exact (finish_safe reserved).mono fun lastly _ _ _ => by cases lastly <;> trivial
    refine Routine.Ensures.bind (Routine.Ensures.modify (Routine.Ensures.bind
      (tried.mono fun outcome _ _ _ => ?_)))
    cases outcome <;> trivial

/-- What the background writes is what the tick has decided to write. -/
theorem settlement_safe {ending : Ending} (reserved : Reserved reservation log)
    (justified : ending.Justified reservation log) :
    Safe loads (settlement rounds reservation ending) l log fun _ _ _ => True := by
  have drops (l : Locals) {log' : Log} (beside : Beside log log') (ended : Option Error) :
      Safe loads (ask (.discard reservation ending ended)) l log' fun _ _ _ => True :=
    Routine.Ensures.ask (allowed_of_reserved (beside.reserved reserved) rfl trivial)
      fun _ _ => trivial
  refine Routine.Ensures.bind (Routine.Ensures.tryCatch
    ((writeEnd_safe reserved justified none).mono fun outcome l' log' after => ?_))
  cases outcome with
  | error e =>
    refine Routine.Ensures.bind ((drops l' after.2 (some e)).mono fun answer _ _ _ => ?_)
    cases answer <;> trivial
  | ok =>
    refine Routine.Ensures.bind ((drops l' after.2 none).mono fun answer _ _ _ => ?_)
    cases answer <;> trivial

end Parts

/-! ### Every run -/

section Runs

variable {loads : Loads} {rounds : ℕ} {poolId ownerId : String} {log : Log}

/-- In every run of a tick, whatever fails and wherever it is cancelled, every call is allowed
after the calls before it; and so is every call of a settlement that it moved to the background. -/
theorem tick_asks_allowed {p : Running}
    (run : Script.Run (Parties.logged mayAnswer) (tick loads rounds poolId ownerId {}, [])
      (p, log)) :
    (∀ before event after, log = before ++ event :: after → Allowed loads before event.call) ∧
    ∀ (before after start : Log) reservation ending answer,
      log = before ++ ⟨.createTask reservation ending, answer⟩ :: after →
      start = before ++ [⟨.createTask reservation ending, answer⟩] →
      ∀ tries log' (q : Running),
        Script.Run (Parties.logged mayAnswer) (settlement tries reservation ending {}, start)
          (q, log') →
        ∀ sofar event later, log' = (start ++ sofar) ++ event :: later →
          Allowed loads (start ++ sofar) event.call := by
  have allowed (before : Log) (event) (after : Log) (split : log = before ++ event :: after) :
      Allowed loads before event.call := by
    have safe : Safe loads (tick loads rounds poolId ownerId) {} [] fun _ _ _ => True :=
      tick_safe poolId ownerId
    exact Script.Holds.asked safe run split (Nat.zero_le _)
  refine ⟨allowed, ?_⟩
  intro before after start reservation ending answer created started tries log' q behind sofar
    event later split
  obtain ⟨common | ⟨_, reserved, rfl⟩, justified⟩ := allowed before _ after created
  · cases common
  have beside : Beside before start := started ▸ beside_asked before _ rfl answer
  have safe : Safe loads (settlement tries reservation ending) {} start fun _ _ _ => True :=
    settlement_safe (beside.reserved reserved) (beside.justified justified)
  exact Script.Holds.asked safe behind split (by simp)

/-- A run in which the engine drops the connection, and the ledger does not answer afterwards. -/
def droppedAnswer (reservation : Reservation) : (call : Call) → Except Error (Answer call)
  | .reserveNext .. => .ok (some reservation)
  | .now | .uniform _ => .ok (0 : Time)
  | .acquirePermit request => .ok ⟨200, some fun name =>
      if name = "attempt_id" then some request.attemptId
      else if name = "pool_id" then some request.poolId
      else some request.engineEpoch⟩
  | .heartbeatPermit _ | .releasePermit _ => .ok ⟨200, none⟩
  | .getArtifact _ => .ok []
  | .markSend _ | .sleep _ | .createTask .. | .discard .. => .ok ()
  | .attemptComputeHeld _ => .ok true
  | .execute .. => .error (.driver { reason := "ReadError" })
  | _ => .error .other

theorem mayAnswer_dropped (reservation : Reservation) (call : Call) :
    mayAnswer call (droppedAnswer reservation call) := by
  cases call <;> simp [mayAnswer, droppedAnswer, Error.isConflict, Except.isOk, Except.toBool]

/-- A reservation with a deadline of one second. -/
def droppedReservation : Reservation :=
  { Ledger.Sample.reservation with attemptDeadline := seconds 1 }

/-- The tick whose engine drops the connection. -/
def droppedTick : Running × Log :=
  Script.follow (fun _ => droppedAnswer droppedReservation) 30
    (tick (fun _ => some .null) 5 "p" "w" {}, [])

/-- The rules hold in a run whose engine was asked, and which moved its write to the background. -/
theorem tick_asks_allowed_dropped : Entered droppedTick.2 ∧
    (∃ event ∈ droppedTick.2, ∃ ending, event.call = .createTask droppedReservation ending) ∧
    ∀ before event after, droppedTick.2 = before ++ event :: after →
      Allowed (fun _ => some .null) before event.call := by
  have asked : droppedTick.2[8]? = some ⟨.execute droppedReservation .null,
    .error (.driver { reason := "ReadError" })⟩ := rfl
  have moved : droppedTick.2[17]? = some ⟨.createTask droppedReservation
    (.settle { reason := "ReadError" } 0), .ok ()⟩ := rfl
  exact ⟨⟨_, List.mem_of_getElem? asked, rfl⟩, ⟨_, List.mem_of_getElem? moved, _, rfl⟩,
    (tick_asks_allowed (Script.run_follow
      (fun _ => mayAnswer_dropped droppedReservation) 30 _)).1⟩

end Runs

end IntramindRuntime.Execution
