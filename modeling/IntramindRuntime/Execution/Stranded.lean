import IntramindRuntime.Execution.Executor
import IntramindRuntime.Ledger.LastWrites

/-!
# No attempt is stranded

Executors share the ledger with everybody else who calls the store. A call may fail before it
reaches the ledger, it may be refused, or it is carried out and the answer is lost. A lease of a
live owner keeps the reconciliation away from an attempt, so that an executor that gives up would
strand it. A tick that has returned has not: its attempt serves no longer, or a settlement goes on
in the background, unless that was cancelled or has waited until its delay overflowed.

## Main definitions

* `World` — the ledger, and the settlements in the background
* `Moves`, `Serves` — what others do, and how calls are answered
* `World.Settles` — nobody has to end the attempt of a reservation any more
* `Calm` — code that leaves the marks of a tick alone

## Main results

* `ask_last` — a last write that is carried out or fenced leaves an attempt that serves no longer
* `writeEnd_settles`, `attempt_settles`, `handle_settles` — the parts of a tick
* `tick_strands_nothing` — whatever the executors and everybody else do in between
-/

namespace IntramindRuntime.Execution

open Library Relation

/-- The ledger, the settlements that go on in the background, and those that were given up, with
the error that ended them. -/
structure World where
  db : Ledger.Db
  settlements : List (Reservation × Ending) := []
  abandoned : List (Reservation × Error) := []

/-- A settlement has ended, with an error if there is one. -/
def World.drop (w : World) (reservation : Reservation) (ending : Ending) (ended : Option Error) :
    World :=
  { w with
    settlements := w.settlements.erase (reservation, ending)
    abandoned := ended.toList.map (reservation, ·) ++ w.abandoned }

/-- The request to the store that a call is. -/
def Call.stored : Call → Option Ledger.Call
  | .reserveNext poolId ownerId => some (.reserveNext poolId ownerId)
  | .markSend reservation => some (.markSend reservation)
  | .computeFinished reservation => some (.computeFinished reservation)
  | .commitResult reservation artifact usage attachments =>
    some (.commitResult reservation artifact usage attachments)
  | .unknown reservation reason => some (.unknown reservation reason)
  | .fail reservation reason notSent retry delay =>
    some (.fail reservation reason notSent retry delay)
  | _ => none

/-- The call is about the settlements in the background. -/
def Call.isBackground : Call → Bool
  | .createTask .. | .discard .. => true
  | _ => false

/-- What the reply of the store is to an executor. -/
def readReply : (call : Call) → Ledger.Reply → Option (Answer call)
  | .reserveNext .., .reservation found => some found
  | .markSend _, .none | .computeFinished _, .none | .commitResult .., .none | .unknown .., .none
  | .fail .., .none => some ()
  | _, _ => none

/-- What an error of the store is to an executor. -/
def readError : RuntimeError → Error
  | .conflict _ => .conflict
  | .sendBudgetUnavailable reason => .sendBudget reason
  | _ => .other

section Parties

variable (sha256 : String → String)

/-- A settlement may end: its attempt serves no longer, or the error is one that leaves it. -/
def World.MayDrop (w : World) (reservation : Reservation) : Option Error → Prop
  | none => w.db.Past reservation.attemptId
  | some e => e.escapes = true

/-- What others may do: they call the store, start a settlement, or drop one that may end. -/
inductive Moves : World → World → Prop
  | request (w : World) (request : Ledger.Request) :
      Moves w { w with db := request.after sha256 w.db }
  | started (w : World) (reservation : Reservation) (ending : Ending) :
      Moves w { w with settlements := (reservation, ending) :: w.settlements }
  | settled (w : World) (reservation : Reservation) (ending : Ending) (ended : Option Error) :
      w.MayDrop reservation ended → Moves w (w.drop reservation ending ended)

/-- How a call is answered. -/
inductive Serves : World → (call : Call) → Except Error (Answer call) → World → Prop
  | answered {w : World} {call : Call} {asked : Ledger.Call} {env : Ledger.Env}
      {reply : Ledger.Reply} {d : Ledger.Db} {answer : Answer call} : call.stored = some asked →
      (Ledger.Request.call env asked).perform sha256 w.db = .ok (reply, d) →
      readReply call reply = some answer → Serves w call (.ok answer) { w with db := d }
  | refused {w : World} {call : Call} {asked : Ledger.Call} {env : Ledger.Env} {e : RuntimeError} :
      call.stored = some asked →
      (Ledger.Request.call env asked).perform sha256 w.db = .error e →
      Serves w call (.error (readError e)) w
  /-- The ledger has carried the request out, and the executor is not told. -/
  | lost {w : World} {call : Call} {asked : Ledger.Call} {env : Ledger.Env}
      {reply : Ledger.Reply} {d : Ledger.Db} {e : Error} : call.stored = some asked →
      (Ledger.Request.call env asked).perform sha256 w.db = .ok (reply, d) →
      e.isConflict = false → mayAnswer call (.error e) → Serves w call (.error e) { w with db := d }
  | unreached {w : World} {call : Call} {asked : Ledger.Call} {e : Error} :
      call.stored = some asked → e.isConflict = false → mayAnswer call (.error e) →
      Serves w call (.error e) w
  | created {w : World} {reservation : Reservation} {ending : Ending} :
      Serves w (.createTask reservation ending) (.ok ())
        { w with settlements := (reservation, ending) :: w.settlements }
  | discarded {w : World} {reservation : Reservation} {ending : Ending} {ended : Option Error} :
      Serves w (.discard reservation ending ended) (.ok ()) (w.drop reservation ending ended)
  | elsewhere {w : World} {call : Call} {answer : Except Error (Answer call)} :
      call.stored = none → call.isBackground = false → mayAnswer call answer →
      Serves w call answer w

/-- Everybody who shares the ledger with a task of an executor. -/
def parties : Parties World Call fun call => Except Error (Answer call) where
  moves := Moves sha256
  serves := Serves sha256

/-- What a task may ask: a settlement is of an attempt that was reserved, and it is dropped when
it may end. -/
def Asked (w : World) : Call → Prop
  | .createTask reservation _ => w.db.Holder reservation
  | .discard reservation _ ended => w.MayDrop reservation ended
  | _ => True

/-- The attempt serves no longer, or the settlement goes on, or an error has ended that. -/
def World.Settles (w : World) (reservation : Reservation) : Prop :=
  w.db.Past reservation.attemptId ∨ (∃ ending, (reservation, ending) ∈ w.settlements) ∨
    ∃ e, (reservation, e) ∈ w.abandoned ∧ e.escapes = true

/-- What others do in between. -/
abbrev Path (w w' : World) : Prop := ReflTransGen (Moves sha256) w w'

end Parties

/-! ### What others leave -/

section Others

variable {sha256 : String → String} {authority : Ledger.Authority} {w w' : World}
  {reservation : Reservation}

/-- The ledger can be reached, and the attempt was reserved. -/
def Own (sha256 : String → String) (authority : Ledger.Authority) (reservation : Reservation)
    (w : World) : Prop :=
  Ledger.Reachable sha256 authority w.db ∧ w.db.Holder reservation

/-- What every move keeps, others keep. -/
theorem stays {P : World → Prop} (stable : ∀ w w', Moves sha256 w w' → P w → P w')
    (path : Path sha256 w w') (holds : P w) : P w' := by
  induction path with
  | refl => exact holds
  | tail _ move ih => exact stable _ _ move ih

theorem Moves.reachable (move : Moves sha256 w w')
    (reached : Ledger.Reachable sha256 authority w.db) :
    Ledger.Reachable sha256 authority w'.db := by
  cases move with
  | request request => exact .step reached request
  | started | settled => exact reached

theorem Moves.past (move : Moves sha256 w w') (past : w.db.Past reservation.attemptId) :
    w'.db.Past reservation.attemptId := by
  cases move with
  | request request => exact request.past_stays past
  | started | settled => exact past

theorem Moves.own (move : Moves sha256 w w') (own : Own sha256 authority reservation w) :
    Own sha256 authority reservation w' := by
  refine ⟨move.reachable own.1, ?_⟩
  cases move with
  | request request => exact request.holder_stays own.2
  | started | settled => exact own.2

theorem Moves.settles (move : Moves sha256 w w') (settles : w.Settles reservation) :
    w'.Settles reservation := by
  rcases settles with past | ⟨ending, goes⟩ | ⟨e, given, escapes⟩
  · exact Or.inl (move.past past)
  · cases move with
    | request request => exact Or.inr (Or.inl ⟨ending, goes⟩)
    | started other ending' => exact Or.inr (Or.inl ⟨ending, List.mem_cons_of_mem _ goes⟩)
    | settled other ending' ended may =>
      by_cases same : (reservation, ending) = (other, ending')
      · -- the settlement that is dropped is the one of this attempt
        cases same
        cases ended with
        | none => exact Or.inl may
        | some e => exact Or.inr (Or.inr ⟨e, List.mem_cons_self, may⟩)
      · exact Or.inr (Or.inl ⟨ending, (List.mem_erase_of_ne same).mpr goes⟩)
  · -- what was given up stays on record
    refine Or.inr (Or.inr ⟨e, ?_, escapes⟩)
    cases move with
    | request | started => exact given
    | settled => exact List.mem_append_right _ given

theorem own_stays (path : Path sha256 w w') (own : Own sha256 authority reservation w) :
    Own sha256 authority reservation w' :=
  stays (fun _ _ move => move.own) path own

theorem past_stays (path : Path sha256 w w') (past : w.db.Past reservation.attemptId) :
    w'.db.Past reservation.attemptId :=
  stays (P := fun w => w.db.Past reservation.attemptId) (fun _ _ move => move.past) path past

theorem after_of_perform {request : Ledger.Request} {d d' : Ledger.Db} {reply : Ledger.Reply}
    (ran : request.perform sha256 d = .ok (reply, d')) : request.after sha256 d = d' := by
  rw [Ledger.Request.after, ran]

/-- An allowed call does what others may do. -/
theorem Serves.path {call : Call} {answer : Except Error (Answer call)} (asked : Asked w call)
    (served : Serves sha256 w call answer w') : Path sha256 w w' := by
  have ran {asked : Ledger.Call} {env : Ledger.Env} {reply : Ledger.Reply} {d : Ledger.Db}
      (performed : (Ledger.Request.call env asked).perform sha256 w.db = .ok (reply, d)) :
      Path sha256 w { w with db := d } := by
    rw [← after_of_perform performed]
    exact .single (.request w _)
  cases served with
  | answered _ performed _ => exact ran performed
  | lost _ performed _ _ => exact ran performed
  | refused | unreached | elsewhere => exact .refl
  | created => exact .single (.started w _ _)
  | discarded => exact .single (.settled w _ _ _ asked)

theorem mayAnswer_stored {call : Call} {asked : Ledger.Call}
    {answer : Except Error (Answer call)} (stored : call.stored = some asked)
    (undriven : ∀ failure, answer ≠ .error (.driver failure)) : mayAnswer call answer := by
  cases call with
  | reserveNext | markSend | computeFinished | commitResult | unknown | fail => exact undriven
  | _ => cases stored

theorem Serves.may {call : Call} {answer : Except Error (Answer call)}
    (served : Serves sha256 w call answer w') : mayAnswer call answer := by
  cases served with
  | answered stored => exact mayAnswer_stored stored fun _ never => by cases never
  | @refused _ _ _ e stored _ =>
    refine mayAnswer_stored stored fun failure same => ?_
    cases e <;> cases same
  | lost _ _ _ may => exact may
  | unreached _ _ may => exact may
  | created => rfl
  | discarded => rfl
  | elsewhere _ _ may => exact may

end Others

/-! ### Code that leaves the marks alone -/

section Calm

variable {α β τ : Type} {p : Code α}

/-- What the last writes depend on is the same. -/
structure Locals.Marked (l l' : Locals) : Prop where
  reservation : l'.reservation = l.reservation
  sent : l'.sendMarked = l.sendMarked
  recorded : l'.terminationRecorded = l.terminationRecorded

theorem Locals.Marked.refl (l : Locals) : l.Marked l := ⟨rfl, rfl, rfl⟩

theorem Locals.Marked.trans {l l' l'' : Locals} (first : l.Marked l') (second : l'.Marked l'') :
    l.Marked l'' :=
  ⟨second.reservation.trans first.reservation, second.sent.trans first.sent,
    second.recorded.trans first.recorded⟩

/-- Code that has nothing to do with settlements in the background, and leaves the marks alone. -/
def Calm (p : Code α) : Prop :=
  ∀ l, p.Ensures (Parties.free mayAnswer) (fun _ call => call.isBackground = false) l ()
    fun _ l' _ => Locals.Marked l l'

namespace Calm

theorem pure (a : α) : Calm (Pure.pure a : Code α) := fun l =>
  Routine.Ensures.pure (Locals.Marked.refl l)

theorem throw (e : Error) : Calm (throw e : Code α) := fun l =>
  Routine.Ensures.throw (Locals.Marked.refl l)

theorem get : Calm (MonadState.get : Code Locals) := fun l =>
  Routine.Ensures.get (Locals.Marked.refl l)

theorem modify {f : Locals → Locals} (marked : ∀ l, Locals.Marked l (f l)) :
    Calm (modify f : Code PUnit) := fun l => Routine.Ensures.modify (marked l)

theorem ask {call : Call} (calm : call.isBackground = false) : Calm (ask call) := fun l =>
  Routine.Ensures.call fun _ _ => ⟨calm, fun _ _ _ => Locals.Marked.refl l⟩

theorem bind {f : α → Code β} (first : Calm p) (next : ∀ a, Calm (f a)) : Calm (p >>= f) := by
  intro l
  refine Routine.Ensures.bind ((first l).mono fun outcome l' _ marked => ?_)
  cases outcome with
  | ok a => exact (next a l').mono fun _ _ _ => marked.trans
  | error e => exact marked

theorem tryCatch {handler : Error → Code α} (first : Calm p) (next : ∀ e, Calm (handler e)) :
    Calm (tryCatch p handler) := by
  intro l
  refine Routine.Ensures.tryCatch ((first l).mono fun outcome l' _ marked => ?_)
  cases outcome with
  | ok a => exact marked
  | error e => exact (next e l').mono fun _ _ _ => marked.trans

theorem loop {body : τ → Code (τ ⊕ α)} (round : ∀ t, Calm (body t)) (rounds : ℕ) (t : τ) :
    Calm (Routine.loop body rounds t) := by
  intro l
  refine Routine.Ensures.loop (I := fun _ l' _ => l.Marked l') (fun t l' _ marked => ?_) rounds
    (.refl l)
  refine (round t l').mono fun outcome l'' _ more => ?_
  rcases outcome with e | (t' | a) <;> exact marked.trans more

end Calm

variable {reservation : Reservation}

theorem remaining_calm : Calm (remaining reservation) :=
  Calm.bind (.ask rfl) fun _ => .pure _

theorem granted_calm (response : Response) : Calm (granted reservation response) := by
  unfold granted
  split
  · split
    · exact .throw _
    · split
      · exact .throw _
      · exact .pure _
  · split
    · exact .throw _
    · split
      · exact .throw _
      · split
        · exact .throw _
        · exact .pure _

theorem requestPermit_calm (left : Time) : Calm (requestPermit reservation left) := by
  refine Calm.tryCatch (.bind (.tryCatch (.ask rfl) fun _ => .throw _) granted_calm) fun e => ?_
  cases e with
  | transport => exact .pure _
  | timeout =>
    dsimp only
    split
    · exact .throw _
    · exact .pure _
  | _ => exact .throw _

theorem acquire_calm (rounds : ℕ) : Calm (acquire rounds reservation) := by
  refine Calm.loop (fun _ => Calm.bind remaining_calm fun left => ?_) rounds ()
  split
  · exact .throw _
  · refine .bind (requestPermit_calm left) fun granted => ?_
    split
    · exact .pure _
    · exact .bind remaining_calm fun _ => .bind (.ask rfl) fun _ => .pure _

theorem heartbeatPermit_calm : Calm (heartbeatPermit reservation) := by
  refine Calm.bind (.ask rfl) fun response => ?_
  split
  · exact .throw _
  · exact .pure _

theorem releasePermit_calm : Calm (releasePermit reservation) := by
  refine Calm.bind (.ask rfl) fun response => ?_
  split
  · exact .throw _
  · exact .pure _

/-- What a `finally` or `except Exception` block makes of an error. -/
theorem unless_exception_calm (e : Error) :
    Calm (if e.isException then Pure.pure () else MonadExcept.throw e : Code Unit) := by
  split
  · exact .pure _
  · exact .throw _

theorem prepare_calm (rounds : ℕ) : Calm (prepare rounds reservation) := by
  refine Calm.bind remaining_calm fun left => ?_
  split
  · exact .throw _
  · refine .bind ?_ fun _ => .bind remaining_calm fun left => ?_
    · exact .tryCatch (.bind (acquire_calm rounds) fun _ => .modify fun _ => ⟨rfl, rfl, rfl⟩)
        fun _ => .throw _
    · split
      · exact .throw _
      · exact .pure _

theorem releaseFinished_calm : Calm (releaseFinished reservation) :=
  Calm.tryCatch (.bind releasePermit_calm fun _ => .modify fun _ => ⟨rfl, rfl, rfl⟩)
    unless_exception_calm

theorem putAudio_calm (result : Result) : Calm (putAudio reservation result) := by
  cases result with
  | speech => exact .bind (.ask rfl) fun _ => .pure _
  | engine | embedding => exact .pure _

theorem retryDelay_calm (failure : DriverFailure) : Calm (retryDelay reservation failure) := by
  refine Calm.bind .get fun l => ?_
  split
  · exact .pure _
  · exact .ask rfl

theorem finish_calm : Calm (finish reservation) := by
  refine Calm.bind .get fun l => ?_
  split
  · refine .tryCatch (.bind (.ask rfl) fun held => ?_) unless_exception_calm
    split
    · exact .pure _
    · exact releasePermit_calm
  · exact .pure _

end Calm

/-! ### The parts of a tick -/

section Parts

variable {α β : Type} {sha256 : String → String} {authority : Ledger.Authority} {w : World}
  {l : Locals} {reservation : Reservation} {rounds : ℕ}

/-- A part of a tick among others, from where it begins to how it ends. -/
abbrev Does (sha256 : String → String) (p : Code α) (l : Locals) (w : World)
    (post : Except Error α → Locals → World → Prop) : Prop :=
  p.Ensures (parties sha256) Asked l w post

theorem asked_of_calm {call : Call} (calm : call.isBackground = false) (w : World) :
    Asked w call := by
  cases call with
  | createTask | discard => cases calm
  | _ => trivial

/-- Calm code does what others may do. -/
theorem Calm.among {p : Code α} (calm : Calm p) (l : Locals) (w : World) :
    Does sha256 p l w fun _ l' w' => Path sha256 w w' ∧ l.Marked l' :=
  Routine.Ensures.of_free (calm l) (fun _ _ _ _ => Serves.may)
    (fun w _ calm => asked_of_calm calm w)
    fun _ _ _ _ calm => Serves.path (asked_of_calm calm _)

/-- Calm code comes first: what holds of the marks is not lost. -/
theorem Calm.before {p : Code α} {f : α → Code β} {post : Except Error β → Locals → World → Prop}
    (calm : Calm p)
    (raised : ∀ e l' w', Path sha256 w w' → l.Marked l' → post (.error e) l' w')
    (next : ∀ a l' w', Path sha256 w w' → l.Marked l' → Does sha256 (f a) l' w' post) :
    Does sha256 (p >>= f) l w post := by
  refine Routine.Ensures.bind ((calm.among l w).mono fun outcome l' w' after => ?_)
  cases outcome with
  | error e => exact raised e l' w' after.1 after.2
  | ok a => exact next a l' w' after.1 after.2

/-- A write was carried out, or fenced. -/
def done : Except Error α → Bool
  | .ok _ => true
  | .error e => e.isConflict

theorem readError_isConflict (e : RuntimeError) : (readError e).isConflict = Ledger.isFence e := by
  cases e <;> rfl

/-- A last write that is carried out or fenced leaves an attempt that serves no longer. -/
theorem ask_last {call : Call} {asked : Ledger.Call} (stored : call.stored = some asked)
    (own : Own sha256 authority reservation w)
    (wrote : ∀ env d, (asked.code sha256 env).Ensures d fun _ d' => d'.Past reservation.attemptId)
    (fenced : ∀ env d, d.book.Valid → d.Holder reservation → (asked.code sha256 env).Fails d
      fun e => Ledger.isFence e = true → d.Past reservation.attemptId) :
    Does sha256 (ask call) l w fun outcome l' w' => l' = l ∧ Path sha256 w w' ∧
      (done outcome = true → w'.db.Past reservation.attemptId) := by
  have calm : call.isBackground = false := by
    cases call with
    | createTask | discard => cases stored
    | _ => rfl
  refine Routine.Ensures.call fun w₁ others => ⟨asked_of_calm calm w₁, fun answer w₂ served => ?_⟩
  have own := own_stays others own
  refine ⟨rfl, others.trans (served.path (asked_of_calm calm w₁)), fun carried => ?_⟩
  cases served with
  | answered stored' performed =>
    cases stored.symm.trans stored'
    exact wrote _ _ _ _ performed
  | refused stored' performed =>
    cases stored.symm.trans stored'
    rw [done, readError_isConflict] at carried
    exact fenced _ _ own.1.valid own.2 _ performed carried
  | lost _ _ quiet _ => cases quiet.symm.trans carried
  | unreached _ quiet _ => cases quiet.symm.trans carried
  | created | discarded => cases stored
  | elsewhere none _ _ => cases stored.symm.trans none

theorem fails_reply {α : Type} {wrap : α → Ledger.Reply} {p : Ledger.Transaction α} {d : Ledger.Db}
    {post : RuntimeError → Prop} (fails : p.Fails d post) :
    (Ledger.Store.reply wrap p).Fails d post :=
  Tx.Fails.bind fails fun _ _ _ => Tx.Fails.ret

theorem ask_computeFinished (own : Own sha256 authority reservation w) :
    Does sha256 (ask (.computeFinished reservation)) l w fun outcome l' w' => l' = l ∧
      Path sha256 w w' ∧ (done outcome = true → w'.db.Past reservation.attemptId) := by
  refine ask_last rfl own (fun env d => ?_) fun env d valid holder => fails_reply ?_
  · exact Ledger.ensures_reply Ledger.computeFinished_past
  · exact Ledger.computeFinished_fenced valid holder

theorem ask_unknown (reason : String) (own : Own sha256 authority reservation w) :
    Does sha256 (ask (.unknown reservation reason)) l w fun outcome l' w' => l' = l ∧
      Path sha256 w w' ∧ (done outcome = true → w'.db.Past reservation.attemptId) := by
  refine ask_last rfl own (fun env d => ?_) fun env d valid holder => fails_reply ?_
  · exact Ledger.ensures_reply (Ledger.unknown_past reason)
  · exact Ledger.unknown_fenced valid holder reason

theorem ask_fail (reason : String) (retry : Bool) (delay : Time)
    (own : Own sha256 authority reservation w) :
    Does sha256 (ask (.fail reservation reason true retry delay)) l w fun outcome l' w' => l' = l ∧
      Path sha256 w w' ∧ (done outcome = true → w'.db.Past reservation.attemptId) := by
  refine ask_last rfl own (fun env d => ?_) fun env d valid holder => fails_reply ?_
  · exact Ledger.ensures_reply (Ledger.fail_past reason true retry delay)
  · exact Ledger.fail_fenced valid holder reason retry delay

/-- What a last write leaves when it is carried out or fenced. -/
theorem write_settles (l : Locals) (ending : Ending)
    (own : Own sha256 authority reservation w) :
    Does sha256 (write reservation ending) l w fun outcome l' w' => l' = l ∧ Path sha256 w w' ∧
      (done outcome = true → w'.db.Past reservation.attemptId) := by
  cases ending with
  | fail reason => exact ask_fail reason true 0 own
  | unknown reason => exact ask_unknown reason own
  | settle failure delay =>
    cases finished : failure.finished with
    | true =>
      -- the termination is recorded first, and whatever comes then the attempt is past
      have rest {l' : Locals} {w' : World} {call : Call} {asked : Ledger.Call}
          (stored : call.stored = some asked) (past : w'.db.Past reservation.attemptId) :
          Does sha256 (ask call) l' w' fun outcome l'' w'' => l'' = l' ∧ Path sha256 w' w'' ∧
            (done outcome = true → w''.db.Past reservation.attemptId) := by
        refine Routine.Ensures.call fun w₁ others => ?_
        have calm : call.isBackground = false := by
          cases call with
          | createTask | discard => cases stored
          | _ => rfl
        refine ⟨asked_of_calm calm w₁, fun answer w₂ served => ?_⟩
        have path := others.trans (served.path (asked_of_calm calm w₁))
        exact ⟨rfl, path, fun _ => past_stays path past⟩
      unfold write finishCompute
      simp only [finished, if_true, Bool.true_or]
      refine Routine.Ensures.bind ((ask_computeFinished own).mono fun outcome l₁ w₁ after => ?_)
      obtain ⟨rfl, path, past⟩ := after
      cases outcome with
      | error e => exact ⟨rfl, path, past⟩
      | ok =>
        refine (rest rfl (past rfl)).mono fun outcome l₂ w₂ after => ?_
        exact ⟨after.1, path.trans after.2.1, after.2.2⟩
    | false =>
      unfold write finishCompute
      simp only [finished, Bool.false_or]
      refine Routine.Ensures.bind (Routine.Ensures.pure ?_)
      cases unsent : failure.notSent with
      | true => exact ask_fail failure.reason failure.retry delay own
      | false => exact ask_unknown failure.reason own

/-- A write that is not given up leaves an attempt that serves no longer. -/
theorem writeEnd_settles (ending : Ending) (tries : Option ℕ)
    (own : Own sha256 authority reservation w) :
    Does sha256 (writeEnd rounds reservation ending tries) l w fun outcome l' w' =>
      l' = l ∧ Path sha256 w w' ∧ (∀ e, outcome = .error e → e.escapes = true) ∧
        ∀ finished, outcome = .ok finished → (finished = true ∨ tries ≠ none) ∧
          (finished = true → w'.db.Past reservation.attemptId) := by
  have raised {e : Error} {w' : World} (path : Path sha256 w w') (escapes : e.escapes = true) :
      l = l ∧ Path sha256 w w' ∧
        (∀ e', (.error e : Except Error Bool) = .error e' → e'.escapes = true) ∧
        ∀ finished, (.error e : Except Error Bool) = .ok finished →
          (finished = true ∨ tries ≠ none) ∧
            (finished = true → w'.db.Past reservation.attemptId) :=
    ⟨rfl, path, fun _ same => Except.error.inj same ▸ escapes, fun _ never => by cases never⟩
  refine Routine.Ensures.loop (I := fun _ l' w' => l' = l ∧ Path sha256 w w')
    (fun failures l' w' before => ?_) rounds ⟨rfl, .refl⟩
  obtain ⟨rfl, path⟩ := before
  have writes := write_settles l' ending (own_stays path own)
  refine Routine.Ensures.tryCatch (Routine.Ensures.bind (writes.mono fun outcome l₁ w₁ after => ?_))
  obtain ⟨rfl, more, past⟩ := after
  have path := path.trans more
  cases outcome with
  | ok =>
    refine Routine.Ensures.pure ⟨rfl, path, (fun _ never => by cases never),
      fun finished same => ?_⟩
    cases same
    exact ⟨Or.inl rfl, fun _ => past rfl⟩
  | error e =>
    dsimp only
    unfold writeFailed
    split
    · rename_i fence
      refine Routine.Ensures.pure ⟨rfl, path, (fun _ never => by cases never),
        fun finished same => ?_⟩
      cases same
      exact ⟨Or.inl rfl, fun _ => past fence⟩
    split
    · split
      · rename_i gone
        refine Routine.Ensures.pure ⟨rfl, path, (fun _ never => by cases never),
          fun finished same => ?_⟩
        cases same
        refine ⟨Or.inr fun none => ?_, fun never => by cases never⟩
        rw [none] at gone
        cases gone
      split
      · exact Routine.Ensures.throw (raised path rfl)
      · refine Routine.Ensures.bind (Routine.Ensures.call fun w₂ others =>
          ⟨trivial, fun answer w₃ served => ?_⟩)
        have path := (path.trans others).trans (served.path (asked_of_calm rfl w₂))
        cases answer with
        | ok => exact Routine.Ensures.pure ⟨rfl, path⟩
        | error e =>
          -- a task that sleeps is only interrupted
          have interrupted : e.isException = false := served.may e rfl
          refine raised path ?_
          rw [Error.escapes, interrupted]
          rfl
    · rename_i interrupted
      refine Routine.Ensures.throw (raised path ?_)
      rw [Error.escapes, Bool.eq_false_iff.mpr interrupted]
      rfl

/-- The end of an attempt is written, or it goes on in the background. -/
theorem endAttempt_settles (ending : Ending) (own : Own sha256 authority reservation w) :
    Does sha256 (endAttempt rounds reservation ending) l w fun outcome l' w' =>
      l' = l ∧ Path sha256 w w' ∧ (outcome = .ok () → w'.Settles reservation) := by
  refine Routine.Ensures.bind ((writeEnd_settles ending _ own).mono fun outcome l₁ w₁ after => ?_)
  obtain ⟨rfl, path, known⟩ := after
  cases outcome with
  | error e => exact ⟨rfl, path, fun never => by cases never⟩
  | ok finished =>
    obtain ⟨-, past⟩ := known.2 finished rfl
    cases finished with
    | true => exact Routine.Ensures.pure ⟨rfl, path, fun _ => Or.inl (past rfl)⟩
    | false =>
      refine Routine.Ensures.call fun w₂ others => ?_
      have holder := (own_stays (path.trans others) own).2
      have asks : Asked w₂ (.createTask reservation ending) := holder
      refine ⟨asks, fun answer w₃ served => ⟨rfl, ?_, fun _ => ?_⟩⟩
      · exact (path.trans others).trans (served.path asks)
      · cases served with
        | created => exact Or.inr (Or.inl ⟨ending, List.mem_cons_self⟩)
        | elsewhere _ calm _ => cases calm
        | answered stored | refused stored | lost stored | unreached stored => cases stored

/-- A settlement in the background keeps to the rules. -/
theorem settlement_settles {ends : World → Except Error Bool × Locals → Prop} (ending : Ending)
    (own : Own sha256 authority reservation w)
    (free : ∀ w outcome l', l'.reservation = l.reservation → ends w (outcome, l')) :
    (settlement rounds reservation ending l).Holds (parties sha256) Asked ends w := by
  have does : Does sha256 (settlement rounds reservation ending) l w fun _ l' _ => l' = l := by
    refine Routine.Ensures.bind (Routine.Ensures.tryCatch
      ((writeEnd_settles ending none own).mono fun outcome l₁ w₁ after => ?_))
    obtain ⟨rfl, path, escapes, known⟩ := after
    cases outcome with
    | error e =>
      refine Routine.Ensures.bind (Routine.Ensures.call fun w₂ others =>
        ⟨escapes e rfl, fun answer w₃ _ => ?_⟩)
      cases answer <;> rfl
    | ok finished =>
      obtain ⟨ended, past⟩ := known finished rfl
      have past := past (ended.resolve_right fun never => never rfl)
      refine Routine.Ensures.bind (Routine.Ensures.call fun w₂ others =>
        ⟨past_stays others past, fun answer w₃ _ => ?_⟩)
      cases answer <;> rfl
  refine Script.Holds.mono does fun w' ended same => ?_
  exact free w' ended.1 ended.2 (congrArg Locals.reservation same)

/-- Nothing is fenced once the attempt may have been sent. -/
theorem send_marks (loads : Loads) (unsent : l.sendMarked = false) :
    Does sha256 (send loads reservation) l w fun outcome l' w' => Path sha256 w w' ∧
      l'.reservation = l.reservation ∧ l'.terminationRecorded = l.terminationRecorded ∧
      ∀ e, outcome = .error e → e.isConflict = true → l'.sendMarked = false := by
  have early {l' : Locals} {w' : World} (path : Path sha256 w w') (marked : l.Marked l')
      (outcome : Except Error Result) : Path sha256 w w' ∧ l'.reservation = l.reservation ∧
        l'.terminationRecorded = l.terminationRecorded ∧
        ∀ e, outcome = .error e → e.isConflict = true → l'.sendMarked = false :=
    ⟨path, marked.reservation, marked.recorded, fun _ _ _ => marked.sent.trans unsent⟩
  refine Calm.before (.ask rfl) (fun e _ _ path marked => early path marked (.error e))
    fun bytes l₁ w₁ path marked => ?_
  split
  · exact Routine.Ensures.throw (early path marked _)
  refine Calm.before (.ask rfl) (fun e _ _ more same =>
    early (path.trans more) (marked.trans same) (.error e)) fun _ l₂ w₂ more same => ?_
  have path := path.trans more
  have marked := marked.trans same
  refine Calm.before heartbeatPermit_calm (fun e _ _ more same =>
    early (path.trans more) (marked.trans same) (.error e)) fun _ l₃ w₃ more same => ?_
  have path := path.trans more
  have marked := marked.trans same
  refine Routine.Ensures.bind (Routine.Ensures.modify (Routine.Ensures.call fun w₄ others => ?_))
  refine ⟨asked_of_calm rfl w₄, fun answer w₅ served => ?_⟩
  refine ⟨(path.trans others).trans (served.path (asked_of_calm rfl w₄)), marked.reservation,
    marked.recorded, fun e raised fence => ?_⟩
  -- no driver raises a conflict
  have quiet : e.isConflict = false := served.may e raised
  cases quiet.symm.trans fence

theorem sendFailed_marks {e : Error} (unfenced : e.isConflict = true → l.sendMarked = false) :
    Does sha256 (sendFailed e) l w fun outcome l' w' => w' = w ∧ l' = l ∧
      ∃ e', outcome = .error e' ∧ (e'.isConflict = true → l.sendMarked = false) := by
  refine Routine.Ensures.bind (Routine.Ensures.get ?_)
  cases e with
  | expired | timeout =>
    exact Routine.Ensures.throw ⟨rfl, rfl, _, rfl, fun never => by cases never⟩
  | _ => exact Routine.Ensures.throw ⟨rfl, rfl, _, rfl, unfenced⟩

/-- Where the loop that stores a result stands: a recorded termination is in the ledger. -/
structure Recorded (sha256 : String → String) (reservation : Reservation) (l : Locals) (w : World)
    (l' : Locals) (w' : World) : Prop where
  path : Path sha256 w w'
  same : l'.reservation = l.reservation
  past : l'.terminationRecorded = true → w'.db.Past reservation.attemptId

theorem Recorded.calm {l' l'' : Locals} {w' w'' : World}
    (recorded : Recorded sha256 reservation l w l' w') (path : Path sha256 w' w'')
    (marked : l'.Marked l'') : Recorded sha256 reservation l w l'' w'' :=
  ⟨recorded.path.trans path, marked.reservation.trans recorded.same,
    fun is => past_stays path (recorded.past (marked.recorded.symm.trans is))⟩

/-- A round that comes to an end, or is fenced, leaves an attempt that serves no longer. -/
theorem persistOnce_settles {l' : Locals} {w' : World} (result : Result)
    (own : Own sha256 authority reservation w) (recorded : Recorded sha256 reservation l w l' w') :
    Does sha256 (persistOnce reservation result) l' w' fun outcome l'' w'' =>
      Recorded sha256 reservation l w l'' w'' ∧
        (done outcome = true → w''.db.Past reservation.attemptId) := by
  have records : Does sha256 (recordTermination reservation) l' w' fun outcome l'' w'' =>
      Recorded sha256 reservation l w l'' w'' ∧
        (done outcome = true → w''.db.Past reservation.attemptId) := by
    refine Routine.Ensures.bind (Routine.Ensures.get ?_)
    dsimp only
    split
    · rename_i already
      exact Routine.Ensures.pure ⟨recorded, fun _ => recorded.past already⟩
    have own := own_stays recorded.path own
    refine Routine.Ensures.bind ((ask_computeFinished own).mono fun outcome l₁ w₁ after => ?_)
    obtain ⟨rfl, path, past⟩ := after
    cases outcome with
    | error e => exact ⟨recorded.calm path (.refl _), past⟩
    | ok =>
      refine Routine.Ensures.bind (Routine.Ensures.modify ?_)
      refine (releaseFinished_calm.among _ w₁).mono fun outcome l₂ w₂ after => ?_
      have past := past_stays after.1 (past rfl)
      exact ⟨⟨(recorded.path.trans path).trans after.1, after.2.reservation.trans recorded.same,
        fun _ => past⟩, fun _ => past⟩
  have stored : Calm (do
      let audio ← putAudio reservation result
      let artifact ← ask (.putArtifact reservation.operation.tenantId (result.data audio)
        "application/json")
      ask (.commitResult reservation artifact result.usage audio.toList) : Code Unit) :=
    Calm.bind (putAudio_calm result) fun _ => .bind (.ask rfl) fun _ => .ask rfl
  refine Routine.Ensures.bind (records.mono fun outcome l₁ w₁ after => ?_)
  cases outcome with
  | error e => exact after
  | ok =>
    refine (stored.among l₁ w₁).mono fun outcome l₂ w₂ more => ?_
    exact ⟨after.1.calm more.1 more.2, fun _ => past_stays more.1 (after.2 rfl)⟩

/-- A loop that is left for any reason but an interruption leaves an attempt that serves no
longer. -/
theorem persist_settles (result : Result) (own : Own sha256 authority reservation w)
    (unrecorded : l.terminationRecorded = false) :
    Does sha256 (persist rounds reservation result) l w fun outcome l' w' =>
      Path sha256 w w' ∧ l'.reservation = l.reservation ∧
        (done outcome = true → w'.db.Past reservation.attemptId) := by
  have begins : Recorded sha256 reservation l w l w :=
    ⟨.refl, rfl, fun is => by cases unrecorded.symm.trans is⟩
  refine Routine.Ensures.loop (I := fun _ l' w' => Recorded sha256 reservation l w l' w')
    (fun _ l' w' recorded => ?_) rounds begins
  refine Routine.Ensures.tryCatch (Routine.Ensures.bind
    ((persistOnce_settles result own recorded).mono fun outcome l₁ w₁ after => ?_))
  obtain ⟨recorded, past⟩ := after
  cases outcome with
  | ok => exact Routine.Ensures.pure ⟨recorded.path, recorded.same, fun _ => past rfl⟩
  | error e =>
    dsimp only
    split
    · exact Routine.Ensures.throw ⟨recorded.path, recorded.same, past⟩
    · refine Routine.Ensures.bind (Routine.Ensures.call fun w₂ others =>
        ⟨asked_of_calm rfl w₂, fun answer w₃ served => ?_⟩)
      have recorded := recorded.calm (others.trans (served.path (asked_of_calm rfl w₂))) (.refl _)
      cases answer with
      | ok => exact Routine.Ensures.pure recorded
      | error e' =>
        -- a task that sleeps is only interrupted
        have interrupted : e'.isException = false := served.may e' rfl
        refine ⟨recorded.path, recorded.same, fun fence => ?_⟩
        have fence : e'.isConflict = true := fence
        cases e' <;> contradiction

/-- The `try` block of a tick: it is left without an error, or fenced after the attempt was sent,
only when the attempt serves no longer. -/
theorem attempt_settles (loads : Loads) (own : Own sha256 authority reservation w)
    (unsent : l.sendMarked = false) (unrecorded : l.terminationRecorded = false) :
    Does sha256 (attempt loads rounds reservation) l w fun outcome l' w' => Path sha256 w w' ∧
      l'.reservation = l.reservation ∧ (outcome = .ok () → w'.db.Past reservation.attemptId) ∧
      ∀ e, outcome = .error e → e.isConflict = true → l'.sendMarked = true →
        w'.db.Past reservation.attemptId := by
  refine Calm.before (prepare_calm rounds) (fun e l₁ w₁ path marked => ?_)
    fun _ l₁ w₁ path marked => ?_
  · refine ⟨path, marked.reservation, (fun never => by cases never), fun _ _ _ sent => ?_⟩
    cases (marked.sent.trans unsent).symm.trans sent
  have sends : Does sha256 (tryCatch (send loads reservation) sendFailed) l₁ w₁
      fun outcome l₂ w₂ => Path sha256 w w₂ ∧ l₂.reservation = l.reservation ∧
        l₂.terminationRecorded = false ∧
        ∀ e, outcome = .error e → e.isConflict = true → l₂.sendMarked = false := by
    refine Routine.Ensures.tryCatch ((send_marks loads (marked.sent.trans unsent)).mono
      fun outcome l₂ w₂ after => ?_)
    obtain ⟨more, same, recorded, quiet⟩ := after
    have path := path.trans more
    have same := same.trans marked.reservation
    have unrecorded := recorded.trans (marked.recorded.trans unrecorded)
    cases outcome with
    | ok result => exact ⟨path, same, unrecorded, fun _ never => by cases never⟩
    | error e =>
      refine (sendFailed_marks (quiet e rfl)).mono fun outcome l₃ w₃ after => ?_
      obtain ⟨rfl, rfl, e', rfl, unfenced⟩ := after
      refine ⟨path, same, unrecorded, fun e'' raised fence => ?_⟩
      cases raised
      exact unfenced fence
  refine Routine.Ensures.bind (sends.mono fun outcome l₂ w₂ after => ?_)
  obtain ⟨path, same, unrecorded, quiet⟩ := after
  cases outcome with
  | error e =>
    refine ⟨path, same, (fun never => by cases never), fun e' raised fence sent => ?_⟩
    cases raised
    cases (quiet e rfl fence).symm.trans sent
  | ok result =>
    refine (persist_settles result (own_stays path own) unrecorded).mono
      fun outcome l₃ w₃ after => ?_
    obtain ⟨more, same', past⟩ := after
    refine ⟨path.trans more, same'.trans same, fun ended => past ?_, fun e raised fence _ =>
      past ?_⟩
    · rw [ended]
      rfl
    · rw [raised]
      exact fence

theorem unsent_settles (reason : String) (own : Own sha256 authority reservation w)
    (sent : l.sendMarked = true → w.db.Past reservation.attemptId) :
    Does sha256 (unsent rounds reservation reason) l w fun outcome l' w' =>
      Path sha256 w w' ∧ l'.reservation = l.reservation ∧
        (outcome = .ok () → w'.Settles reservation) := by
  refine Routine.Ensures.bind (Routine.Ensures.get ?_)
  dsimp only
  split
  · rename_i marked
    exact Routine.Ensures.pure ⟨.refl, rfl, fun _ => Or.inl (sent marked)⟩
  · refine (endAttempt_settles _ own).mono fun outcome l' w' after => ?_
    exact ⟨after.2.1, congrArg _ after.1, after.2.2⟩

/-- What is handled without an error is settled. -/
theorem handle_settles {e : Error} (own : Own sha256 authority reservation w)
    (fenced : e.isConflict = true → l.sendMarked = true → w.db.Past reservation.attemptId) :
    Does sha256 (handle rounds reservation e) l w fun outcome l' w' =>
      Path sha256 w w' ∧ l'.reservation = l.reservation ∧
        (outcome = .ok () → w'.Settles reservation) := by
  have ends {l : Locals} {w : World} (ending : Ending)
      (own : Own sha256 authority reservation w) :
      Does sha256 (endAttempt rounds reservation ending) l w fun outcome l' w' =>
        Path sha256 w w' ∧ l'.reservation = l.reservation ∧
          (outcome = .ok () → w'.Settles reservation) :=
    (endAttempt_settles ending own).mono fun outcome l' w' after =>
      ⟨after.2.1, congrArg _ after.1, after.2.2⟩
  have stops (e : Error) : Does sha256 (do shutdown reservation; throw e : Code Unit) l w
      fun outcome l' w' => Path sha256 w w' ∧ l'.reservation = l.reservation ∧
        (outcome = .ok () → w'.Settles reservation) := by
    have writes : Calm (shutdown reservation) := by
      refine Calm.bind .get fun l => .tryCatch ?_ unless_exception_calm
      split
      · exact .ask rfl
      · exact .ask rfl
    refine Calm.before writes (fun _ _ _ path marked => ?_) fun _ _ _ path marked =>
      Routine.Ensures.throw ?_
    · exact ⟨path, marked.reservation, fun never => by cases never⟩
    · exact ⟨path, marked.reservation, fun never => by cases never⟩
  cases e with
  | driver failure =>
    refine Calm.before (retryDelay_calm failure) (fun _ _ _ path marked => ?_)
      fun delay l₁ w₁ path marked => ?_
    · exact ⟨path, marked.reservation, fun never => by cases never⟩
    · refine (ends _ (own_stays path own)).mono fun outcome l₂ w₂ after => ?_
      exact ⟨path.trans after.1, after.2.1.trans marked.reservation, after.2.2⟩
  | cancelled | expired => exact stops _
  | sendBudget | conflict => exact unsent_settles _ own (fenced rfl)
  | timeout | transport | overflow | other =>
    refine Routine.Ensures.bind (Routine.Ensures.get ?_)
    dsimp only
    split
    · exact ends _ own
    · exact ends _ own

theorem own_of_reserved {w' : World} {poolId ownerId : String}
    (served : Serves sha256 w (.reserveNext poolId ownerId) (.ok (some reservation)) w')
    (reached : Ledger.Reachable sha256 authority w'.db) :
    Own sha256 authority reservation w' := by
  cases served with
  | elsewhere never _ _ => cases never
  | @answered _ _ _ reply _ _ stored performed read =>
    cases stored
    cases reply with
    | reservation found =>
      cases read
      exact ⟨reached, Ledger.reserveNext_holder performed⟩
    | _ => cases read

/-- A tick that returns has settled what it has reserved. -/
theorem tick_settles (loads : Loads) (poolId ownerId : String)
    (reached : Ledger.Reachable sha256 authority w.db) :
    Does sha256 (tick loads rounds poolId ownerId) {} w fun outcome l' w' =>
      ∀ answer, outcome = .ok answer → ∀ reservation, l'.reservation = some reservation →
        w'.Settles reservation := by
  refine Routine.Ensures.bind (Routine.Ensures.call fun w₁ others =>
    ⟨asked_of_calm rfl w₁, fun answer w₂ served => ?_⟩)
  cases answer with
  | error e => exact fun _ never => by cases never
  | ok found =>
  cases found with
  | none => exact Routine.Ensures.pure fun _ _ _ never => by cases never
  | some reservation =>
    have own : Own sha256 authority reservation w₂ := by
      refine own_of_reserved served (stays (fun _ _ move => Moves.reachable move) ?_ reached)
      exact others.trans (served.path (asked_of_calm rfl w₁))
    have lastly {outcome : Except Error Unit} {l₁ : Locals} {w₁ : World}
        (same : l₁.reservation = some reservation)
        (settles : outcome = .ok () → w₁.Settles reservation) :
        Does sha256 (finish reservation) l₁ w₁ fun lastly l₂ w₂ => match lastly with
          | .ok _ => outcome = .ok () → l₂.reservation = some reservation ∧ w₂.Settles reservation
          | .error e => (.error e : Except Error Unit) = .ok () →
            l₂.reservation = some reservation ∧ w₂.Settles reservation := by
      refine (finish_calm.among l₁ w₁).mono fun lastly l₂ w₂ after => ?_
      cases lastly with
      | error => exact fun never => by cases never
      | ok =>
        exact fun ended => ⟨after.2.reservation.trans same,
          stays (fun _ _ move => Moves.settles move) after.1 (settles ended)⟩
    have tried : Does sha256 (Routine.onExit (tryCatch (attempt loads rounds reservation)
        (handle rounds reservation)) (finish reservation)) { reservation := some reservation } w₂
        fun outcome l' w' => outcome = .ok () →
          l'.reservation = some reservation ∧ w'.Settles reservation := by
      refine Routine.Ensures.onExit (Routine.Ensures.tryCatch
        ((attempt_settles loads own rfl rfl).mono fun outcome l₃ w₃ after => ?_))
      obtain ⟨path, same, past, fenced⟩ := after
      cases outcome with
      | ok =>
        refine (lastly same fun ended => Or.inl (past ended)).mono fun lastly _ _ left => ?_
        cases lastly <;> exact left
      | error e =>
        refine (handle_settles (own_stays path own) (fenced e rfl)).mono
          fun outcome l₄ w₄ after => ?_
        refine (lastly (after.2.1.trans same) after.2.2).mono fun lastly _ _ left => ?_
        cases lastly <;> exact left
    refine Routine.Ensures.bind (Routine.Ensures.modify (Routine.Ensures.bind
      (tried.mono fun outcome l₃ w₃ settled => ?_)))
    cases outcome with
    | error e => exact fun _ never => by cases never
    | ok =>
      refine Routine.Ensures.pure fun _ _ other held => ?_
      obtain ⟨same, settles⟩ := settled rfl
      cases same.symm.trans held
      exact settles

end Parts

/-! ### Every run -/

section Runs

variable {sha256 : String → String} {authority : Ledger.Authority}

/-- How a task leaves its attempt. -/
def Left (w : World) (ended : Except Error Bool × Locals) : Prop :=
  ∀ answer, ended.1 = .ok answer → ∀ reservation, ended.2.reservation = some reservation →
    w.Settles reservation

/-- The task that a call starts. -/
def spawned (rounds : ℕ) : Call → List Running
  | .createTask reservation ending => [settlement rounds reservation ending {}]
  | _ => []

/-- The tasks that begin by themselves. -/
def Ticks (task : Running) : Prop :=
  ∃ loads rounds poolId ownerId, task = tick loads rounds poolId ownerId {}

/-- Executors fit together, and with everybody else who calls the store. -/
theorem executors_fit (rounds : ℕ) :
    Crew.Fits (parties sha256) Asked Left (fun w => Ledger.Reachable sha256 authority w.db)
      (spawned rounds) Ticks where
  kept _ _ reached move := Moves.reachable move reached
  guarantee _ _ _ _ _ asked served := Serves.path asked served
  stable _ _ _ move left answer same reservation held :=
    Moves.settles move (left answer same reservation held)
  spawned w call answer w' reached asked served task member := by
    cases call with
    | createTask reservation ending =>
      obtain rfl := List.mem_singleton.mp member
      have path := Serves.path asked served
      have own : Own sha256 authority reservation w' :=
        own_stays path ⟨reached, asked⟩
      refine settlement_settles ending own fun _ outcome l' same _ _ other held => ?_
      cases same.symm.trans held
    | _ => cases member
  begins w task reached begun := by
    obtain ⟨loads, tries, poolId, ownerId, rfl⟩ := begun
    exact tick_settles loads poolId ownerId reached

/-- However many executors run, whatever fails, and whatever everybody else does to the ledger in
between: the attempt of a tick that has returned serves no longer, or a settlement of it goes on
in the background, or that was cancelled or has waited until its delay overflowed. -/
theorem tick_strands_nothing {rounds : ℕ} {crew : Crew World Call
      (fun call => Except Error (Answer call)) (Except Error Bool × Locals)}
    (run : ReflTransGen (Crew.Step (parties sha256) (spawned rounds) Ticks)
      ⟨⟨.empty authority, [], []⟩, []⟩ crew)
    {answer : Bool} {l : Locals} {reservation : Reservation}
    (returned : .value (.ok answer, l) ∈ crew.tasks)
    (reserved : l.reservation = some reservation) :
    crew.shared.db.Past reservation.attemptId ∨
      (∃ ending, (reservation, ending) ∈ crew.shared.settlements) ∨
      ∃ e, (reservation, e) ∈ crew.shared.abandoned ∧ e.escapes = true := by
  have start : Crew.Sound (parties sha256) Asked Left
      (fun w => Ledger.Reachable sha256 authority w.db) ⟨⟨.empty authority, [], []⟩, []⟩ :=
    ⟨.empty, fun _ never => by cases never⟩
  have sound := Crew.holds_of_run (executors_fit rounds) start run
  exact sound.tasks _ returned answer rfl reservation reserved

/-- A crew of one task and its ledger. -/
abbrev alone (d : Ledger.Db) (task : Running) : Crew World Call
    (fun call => Except Error (Answer call)) (Except Error Bool × Locals) :=
  ⟨⟨d, [], []⟩, [task]⟩

/-- The steps of the sample. -/
abbrev SampleStep (crew crew' : Crew World Call
    (fun call => Except Error (Answer call)) (Except Error Bool × Locals)) : Prop :=
  Crew.Step (parties Ledger.Sample.sha256) (spawned 1) Ticks crew crew'

theorem sample_requests (requests : List Ledger.Request) (d : Ledger.Db) :
    ReflTransGen SampleStep ⟨⟨d, [], []⟩, []⟩
      ⟨⟨Ledger.Request.afterAll Ledger.Sample.sha256 requests d, [], []⟩, []⟩ := by
  induction requests generalizing d with
  | nil => exact .refl
  | cons request rest ih => exact .head (.move (.request ⟨d, [], []⟩ request)) (ih _)

theorem sample_answer {d d' : Ledger.Db} {call : Call}
    {next : Except Error (Answer call) → Running} {answer : Except Error (Answer call)}
    (served : Serves Ledger.Sample.sha256 ⟨d, [], []⟩ call answer ⟨d', [], []⟩)
    (starts : spawned 1 call = []) :
    SampleStep (alone d (.ask call next)) (alone d' (next answer)) := by
  have step : SampleStep (alone d (.ask call next))
      ⟨⟨d', [], []⟩, [next answer] ++ spawned 1 call⟩ :=
    .answer (i := 0) rfl served
  rwa [starts] at step

/-- A tick that finds its deadline passed reports that its attempt was not sent. -/
theorem sample_late : ReflTransGen SampleStep ⟨⟨.empty {}, [], []⟩, []⟩
    (alone (Ledger.Sample.after (Ledger.Sample.reserved ++ [.call (Ledger.Sample.env "")
        (.fail Ledger.Sample.reservation "attempt_deadline_exceeded" true true 0)]))
      (.value (.ok true, { reservation := some Ledger.Sample.reservation }))) := by
  have reserved : (Ledger.Request.call (Ledger.Sample.env "a") (.reserveNext "p" "w")).perform
      Ledger.Sample.sha256 (Ledger.Sample.after (Ledger.Sample.reserved.take 3)) =
    .ok (.reservation (some Ledger.Sample.reservation),
      Ledger.Sample.after Ledger.Sample.reserved) := rfl
  have failed : (Ledger.Request.call (Ledger.Sample.env "") (.fail Ledger.Sample.reservation
      "attempt_deadline_exceeded" true true 0)).perform Ledger.Sample.sha256
        (Ledger.Sample.after Ledger.Sample.reserved) =
    .ok (.none, Ledger.Sample.after (Ledger.Sample.reserved ++ [.call (Ledger.Sample.env "")
      (.fail Ledger.Sample.reservation "attempt_deadline_exceeded" true true 0)])) := rfl
  have ready : ReflTransGen SampleStep ⟨⟨.empty {}, [], []⟩, []⟩
      (alone (Ledger.Sample.after (Ledger.Sample.reserved.take 3))
        (tick (fun _ => none) 1 "p" "w" {})) :=
    (sample_requests (Ledger.Sample.reserved.take 3) _).tail
      (.begin_ ⟨fun _ => none, 1, "p", "w", rfl⟩)
  have clock : Serves Ledger.Sample.sha256
      ⟨Ledger.Sample.after Ledger.Sample.reserved, [], []⟩ .now (.ok (200000000 : Time))
        ⟨Ledger.Sample.after Ledger.Sample.reserved, [], []⟩ :=
    .elsewhere rfl rfl rfl
  refine ((ready.tail (sample_answer (.answered rfl reserved rfl) rfl)).tail
    (sample_answer clock rfl)).tail ?_
  exact sample_answer (.answered rfl failed rfl) rfl

/-- The attempt of the late tick is past: nothing goes on in the background. -/
theorem tick_strands_nothing_late :
    (Ledger.Sample.after (Ledger.Sample.reserved ++ [.call (Ledger.Sample.env "")
      (.fail Ledger.Sample.reservation "attempt_deadline_exceeded" true true 0)])).Past "a" := by
  have left := tick_strands_nothing sample_late
    (List.mem_singleton_self _) rfl
  rcases left with past | ⟨ending, never⟩ | ⟨e, never, -⟩
  · exact past
  · cases never
  · cases never

end Runs

end IntramindRuntime.Execution
