import IntramindRuntime.Concurrency.Interleaving

/-!
# Ended operations stay ended

An operation that a commit has put into a terminal state should keep its state and
its result. `_terminal` and the recovery of leases look at the state of the row
they write. Four statements do not: the one with which `commit_result` succeeds an
operation, those with which `unknown` and `fail` put it back, and the one with
which a stopped attempt lets it recover. They rely on the state that the method read
together with an attempt. The attempt is locked then and the operation is not, and a
cancellation may end it before it is written.

## Main definitions

* `ended`, `anchored` — the rules for rows of `runtime_operations` and `runtime_attempts`
* `Call.spares` — what a call that settles attempts has to rely on
* `Awaits` — the transaction has read an operation that has not ended since
* `Interleaved.Undisturbed` — no commit ends an operation that such a call in flight has read

## Main results

* `call_ended` — every method keeps ended operations as they are
* `Interleaved.Run.terminal_operation_stays` — in every run in which no commit ends an
  operation that a settlement in flight has read, ended operations stay as they are
-/

namespace IntramindRuntime.Ledger

open Library

/-- An operation stays with its root, and an ended one keeps its state and its result.
Every operation is filed under the identity in its specification. -/
def ended : RowRule OperationRow where
  sane op := op.spec.operationId = op.operationId
  stays old row := row.rootId = old.rootId ∧
    (old.state.terminal = true → row.state = old.state ∧ row.result = old.result)
  refl _ := ⟨rfl, fun _ => ⟨rfl, rfl⟩⟩
  trans := by
    rintro first middle last ⟨root, before⟩ ⟨root', after⟩
    refine ⟨root'.trans root, fun terminal => ?_⟩
    obtain ⟨state, result⟩ := before terminal
    rw [← state] at terminal
    obtain ⟨state', result'⟩ := after terminal
    exact ⟨state'.trans state, result'.trans result⟩

/-- An attempt stays with its operation, and on its engine. -/
def anchored : RowRule AttemptRow where
  sane _ := True
  stays old row := row.operationId = old.operationId ∧ row.poolId = old.poolId ∧
    row.engineEpoch = old.engineEpoch
  refl _ := ⟨rfl, rfl, rfl⟩
  trans first second := ⟨second.1.trans first.1, second.2.1.trans first.2.1,
    second.2.2.trans first.2.2⟩

/-- The policy that the rule for operations makes. -/
abbrev endedPolicy : RowPolicy Db := ended.on trackedOperations

/-- The policy that the rule for attempts makes. -/
abbrev anchoredPolicy : RowPolicy Db := anchored.on trackedAttempts

/-- An operation of the database has ended. -/
def Db.hasEnded (d : Db) (operationId : String) : Bool :=
  (d.operations.find? operationId).any fun op => op.state.terminal

theorem Db.hasEnded_of_find? {d : Db} {operationId : String} {op : OperationRow}
    (found : d.operations.find? operationId = some op) :
    d.hasEnded operationId = op.state.terminal := by
  rw [Db.hasEnded, found]
  rfl

/-- What has ended has ended for good. -/
theorem Db.hasEnded_of_keeps {d d' : Db} {operationId : String} (keeps : endedPolicy.Keeps d d')
    (ended : d.hasEnded operationId = true) : d'.hasEnded operationId = true := by
  obtain ⟨op, found, terminal⟩ := (Option.any_eq_true _ _).mp ended
  obtain ⟨op', found', -, stays⟩ := RowRule.stays_of_keeps (T := trackedOperations) keeps found
  rw [Db.hasEnded_of_find? found', (stays terminal).1]
  exact terminal

/-! ### Statements -/

section Statements

variable {β : Type} {d snapshot : Db} {busy : Key → Bool} {w : Write} {σ : InFlight}

/-- The statements on operations that follow the rule by themselves. -/
def OperationSql.Routine : OperationSql β → Prop
  | .insert row => row.Fresh
  | .succeed .. | .reconcile .. | .retry .. | .recover .. | .execute .. => False
  | _ => True

theorem OperationSql.Plain.routine {statement : OperationSql β} (plain : statement.Plain) :
    statement.Routine := by
  cases statement <;> first | exact plain | trivial

theorem OperationSql.allows_ended (statement : OperationSql β) (sound : endedPolicy.Sound d)
    (routine : statement.Routine) (member : w ∈ (statement.exec busy snapshot d).writes) :
    endedPolicy.Allows d w := by
  cases statement with
  | lockIdentity | find | ofTenant | pendingCounts | candidates | forUpdate | pendingOf
  | countPendingOf | pastDeadline | pastRootDeadline | waiting | ofEndedRoots => cases member
  | claimable operationId =>
    rw [OperationSql.exec, Access.selectSkipLocked_writes] at member
    cases member
  | insert row => exact RowRule.allows_insert (T := trackedOperations) member routine.1
  | succeed | reconcile | retry | recover | execute => exact routine.elim
  | awaitBudget | countAttempt =>
    exact RowRule.allows_update (T := trackedOperations) member sound (fun _ => rfl)
      fun row _ _ sane => ⟨sane, rfl, fun _ => ⟨rfl, rfl⟩⟩
  | terminal | requeue | lose =>
    -- The `WHERE` clause is checked again on the row that is written.
    refine RowRule.allows_update (T := trackedOperations) member sound (fun _ => rfl)
      fun row _ holds sane => ⟨sane, rfl, fun terminal => ?_⟩
    rw [terminal] at holds
    cases holds

/-- The statements that write an operation whatever its state. -/
def OperationSql.Overwrites (operationId : String) : OperationSql β → Prop
  | .succeed id _ | .reconcile id _ | .retry id .. | .recover id .. => id = operationId
  | _ => False

/-- Such a statement rewrites the operation, which stays what it is and with its root. -/
theorem OperationSql.update_of_overwrites {statement : OperationSql β} {operationId : String}
    (overwrites : statement.Overwrites operationId) (busy : Key → Bool) (snapshot d : Db) :
    ∃ (cond : OperationRow → Bool) (f : OperationRow → OperationRow),
      (∀ row, (f row).operationId = row.operationId ∧ (f row).rootId = row.rootId ∧
        (f row).spec = row.spec) ∧
      (statement.exec busy snapshot d).writes =
        (operations.update operationId cond f snapshot d).writes := by
  cases statement with
  | succeed _ result =>
    obtain rfl := overwrites
    exact ⟨_, OperationRow.succeed result, fun _ => ⟨rfl, rfl, rfl⟩, rfl⟩
  | reconcile _ reason =>
    obtain rfl := overwrites
    exact ⟨_, OperationRow.reconcile reason, fun _ => ⟨rfl, rfl, rfl⟩, rfl⟩
  | retry _ reason retryAt =>
    obtain rfl := overwrites
    exact ⟨_, OperationRow.retry reason retryAt, fun _ => ⟨rfl, rfl, rfl⟩, rfl⟩
  | recover _ attemptId reason now =>
    obtain rfl := overwrites
    exact ⟨_, OperationRow.recover reason now, fun _ => ⟨rfl, rfl, rfl⟩, rfl⟩
  | _ => exact overwrites.elim

/-- Such a statement follows the rule if the committed operation is pending, whatever the
transaction has made of it. -/
theorem OperationSql.over_ended {statement : OperationSql β} {operationId : String}
    (overwrites : statement.Overwrites operationId) (kept : endedPolicy.Kept σ)
    (pending : σ.committed.hasEnded operationId = false)
    (member : w ∈ (statement.exec busy snapshot σ.view).writes) :
    endedPolicy.sound (RowStore.key Db w)
        (RowStore.cell (RowStore.key Db w) (RowStore.apply w σ.view)) ∧
      endedPolicy.keeps (RowStore.key Db w) (RowStore.cell (RowStore.key Db w) σ.committed)
        (RowStore.cell (RowStore.key Db w) (RowStore.apply w σ.view)) := by
  obtain ⟨cond, f, same, writes⟩ := statement.update_of_overwrites overwrites busy snapshot σ.view
  rw [writes] at member
  obtain ⟨row, found, -, rfl⟩ := Access.mem_update_writes member
  obtain ⟨key, root, spec⟩ := same row
  have named : row.operationId = operationId := Table.key_of_find? found
  have sane : ended.sane row := RowRule.sane_of_sound (T := trackedOperations) kept.view found
  -- the row that is written may be a version of the transaction itself, the rule compares it
  -- with the committed one
  refine RowRule.over_write (T := trackedOperations) ?_ fun old before => ?_
  · exact (congrArg OperationSpec.operationId spec).trans (sane.trans key.symm)
  · have here : σ.committed.operations.find? operationId = some old :=
      (congrArg _ (key.trans named)).symm.trans before
    obtain ⟨row', found', stays, -⟩ :=
      RowRule.stays_of_keeps (T := trackedOperations) kept.keeps here
    obtain rfl := Option.some.inj (found'.symm.trans found)
    refine ⟨root.trans stays, fun terminal => ?_⟩
    rw [Db.hasEnded_of_find? here, terminal] at pending
    cases pending

/-- Every statement leaves an attempt with its operation, and on its engine. -/
theorem AttemptSql.allows_anchored (statement : AttemptSql β)
    (member : w ∈ (statement.exec busy snapshot d).writes) : anchoredPolicy.Allows d w := by
  have sound : anchoredPolicy.Sound d := fun _ _ _ => trivial
  cases statement with
  | owned | lastNumber | expired | lostResults | ofEpoch | idleUnknown => cases member
  | lostResult attemptId now =>
    simp only [AttemptSql.exec, Outcome.map_writes, Access.selectSkipLocked_writes] at member
    cases member
  | insert row =>
    simp only [AttemptSql.exec] at member
    split at member
    · cases member
    · exact RowRule.allows_insert (T := trackedAttempts) member trivial
  | _ =>
    exact RowRule.allows_update (T := trackedAttempts) member sound (fun _ => rfl)
      fun row _ _ _ => ⟨trivial, rfl, rfl, rfl⟩

end Statements

/-! ### Methods that do not overwrite operations -/

section Methods

variable {sha256 : String → String} {env : Env} {σ : InFlight}

/-- Transactions that change operations only as the rule allows. -/
abbrev KeepsOperations {α : Type} (p : Transaction α) : Prop :=
  Wp.Preserves (endedPolicy.discipline Admits.all) endedPolicy.Kept p

theorem keepsOperations_other {β : Type} {statement : Sql β}
    (other : statement.mayWrite .operations = false) : KeepsOperations (Tx.stmt statement) :=
  RowPolicy.Kept.stmt fun _ _ _ _ _ _ member =>
    Sql.allows_of_mayWrite (fun _ => rfl) other member

theorem keepsOperations_operation {β : Type} {statement : OperationSql β}
    (routine : statement.Routine) : KeepsOperations statement.run :=
  RowPolicy.Kept.stmt fun _ _ _ kept _ _ member =>
    statement.allows_ended kept.view routine member

theorem keepsOperations_builds : Builds KeepsOperations := by
  refine .of_terminal (Wp.Preserves.closed RowPolicy.Kept.stable) (fun statement plain => ?_)
    fun _ _ _ _ => keepsOperations_operation trivial
  cases statement with
  | operation statement => exact keepsOperations_operation plain.routine
  | _ => exact keepsOperations_other rfl

/-- The transaction has locked an operation that satisfies `fact`. -/
abbrev Taking (operationId : String) (fact : OperationRow → Prop) : InFlight → Prop :=
  fun σ => endedPolicy.Kept σ ∧ trackedOperations.Pinned operationId fact σ

/-- The locked operation stays as it is while other tables are written. -/
theorem taking_other {β : Type} {statement : Sql β} {operationId : String}
    {fact : OperationRow → Prop} (elsewhere : statement.mayWrite .operations = false) :
    Wp.Preserves (endedPolicy.discipline Admits.all) (Taking operationId fact)
      (Tx.stmt statement : Transaction β) :=
  (keepsOperations_other elsewhere).and (Sql.pinned_of_mayWrite _ (fun _ => rfl) elsewhere)

theorem taking_closed (operationId : String) (fact : OperationRow → Prop) :
    Tx.Closed fun {α} (p : Transaction α) =>
      Wp.Preserves (endedPolicy.discipline Admits.all) (Taking operationId fact) p :=
  Wp.Preserves.closed (Wp.Stable.and RowPolicy.Kept.stable (Tracked.Pinned.stable _))

theorem taking_findBudget {operationId : String} {fact : OperationRow → Prop}
    (spec : OperationSpec) (root : RootRow) :
    Wp.Preserves (endedPolicy.discipline Admits.all) (Taking operationId fact)
      (Store.findBudget spec root) := by
  have closed := taking_closed operationId fact
  unfold Store.findBudget
  split
  · exact closed.ret _
  · exact closed.perform (taking_other rfl) fun _ => closed.ret _

/-- Taking a locked operation that is pending keeps the law. -/
theorem reserve_ended {pool : PoolRow} {ownerId : String} {candidate : Candidate}
    {root : RootRow} {op : OperationRow} (here : Taking candidate.operation.spec.operationId
      (fun op => op.state.terminal = false) σ) :
    Wp (endedPolicy.discipline Admits.all) (Store.reserve env pool ownerId candidate root op) σ
      fun _ σ' => endedPolicy.Kept σ' := by
  unfold Store.reserve
  simp only [Tx.bind_eq, Tx.stmt_bind]
  refine (taking_other rfl σ here).seq fun number σ here => ?_
  refine (taking_other rfl σ here).seq fun inserted σ here => ?_
  cases inserted with
  | error refused => exact Wp.raise
  | ok inserted =>
    simp only [Store.accept, Tx.ret_bind]
    -- The operation is still the pending one that was locked.
    refine Wp.seq (trackedOperations.update always (OperationRow.execute env.uuid)
      (Sql.operation (.execute _ env.uuid)) (fun _ _ _ => rfl) (fun _ => rfl) here.1 here.2
      (fun _ _ => rfl) fun row pending sane => ⟨sane, rfl, fun terminal => ?_⟩) fun _ σ here => ?_
    · rw [pending] at terminal
      cases terminal
    · exact (keepsOperations_other rfl σ here.1).seq fun _ σ kept =>
        keepsOperations_builds.ret _ σ kept

theorem tryCandidate_ended {pool : PoolRow} {ownerId : String} {candidate : Candidate}
    {root : RootRow} {op : OperationRow} (here : Taking candidate.operation.spec.operationId
      (fun op => op.state.terminal = false) σ) :
    Wp (endedPolicy.discipline Admits.all) (Store.tryCandidate env pool ownerId candidate root op) σ
      fun _ σ' => endedPolicy.Kept σ' := by
  have builds := keepsOperations_builds
  unfold Store.tryCandidate Store.expireOperation
  simp only [Tx.bind_eq]
  split
  · simp only [Tx.ret_bind, Bool.false_eq_true, if_false]
    split
    · exact builds.ret _ σ here.1
    · refine (taking_findBudget _ _ σ here).seq fun budget σ here => ?_
      cases budget with
      | none =>
        exact builds.bind (builds.terminal _ _ _ _ rfl) (fun _ => builds.ret _) σ here.1
      | some budget =>
        dsimp only
        split
        · exact builds.bind (builds.terminal _ _ _ _ rfl) (fun _ => builds.ret _) σ here.1
        · split
          · exact builds.perform (by trivial) (fun _ => builds.ret _) σ here.1
          · exact reserve_ended here
  · simp only [Tx.bind_assoc, Tx.pure_eq, Tx.ret_bind, if_true]
    exact builds.bind (builds.terminal _ _ _ _ rfl) (fun _ => builds.ret _) σ here.1

/-- One turn of the candidate loop, for a candidate filed under its own identity. -/
theorem reserveCandidate_ended {pool : PoolRow} {ownerId : String} {candidate : Candidate}
    (filed : ended.sane candidate.operation) :
    KeepsOperations (Store.reserveCandidate env pool ownerId candidate) := by
  have builds := keepsOperations_builds
  unfold Store.reserveCandidate
  simp only [Tx.bind_eq, Tx.stmt_bind]
  refine builds.perform (by trivial) fun root => ?_
  cases root with
  | none => exact builds.ret _
  | some root =>
    dsimp only
    split
    · exact builds.ret _
    · intro σ kept
      refine Wp.seq (trackedOperations.select
        (Sql.operation (.claimable candidate.operation.operationId)) Option.toList
        (fun op => op.operationId = candidate.operation.operationId) kept
        (fun _ _ _ => Access.selectSkipLocked_writes) fun busy snap d op member => ?_) ?_
      · obtain ⟨locked, found, -⟩ := Access.locked_of_selectSkipLocked (Option.mem_toList.mp member)
        have same := Table.key_of_find? found
        rw [same]
        exact ⟨locked, found, same⟩
      · rintro op σ ⟨kept, pinned⟩
        cases op with
        | none => exact builds.ret _ σ kept
        | some op =>
          obtain ⟨pinned, same⟩ := pinned op (Option.mem_toList.mpr rfl)
          dsimp only
          split
          · exact builds.ret _ σ kept
          · next waiting =>
            simp only [Bool.or_eq_true, not_or, Bool.not_eq_true, Bool.not_eq_false'] at waiting
            have named : candidate.operation.spec.operationId = candidate.operation.operationId :=
              filed
            refine tryCandidate_ended ⟨kept, ?_⟩
            rw [named, ← same]
            refine pinned.mono fun row this => ?_
            rw [this]
            exact OperationState.not_terminal_of_waiting waiting.1

theorem reserveFrom_ended {pool : PoolRow} {ownerId : String} {candidates : List Candidate}
    (filed : ∀ candidate ∈ candidates, ended.sane candidate.operation) :
    KeepsOperations (Store.reserveFrom env pool ownerId candidates) := by
  induction candidates with
  | nil => exact keepsOperations_builds.ret _
  | cons candidate rest ih =>
    refine keepsOperations_builds.bind
      (reserveCandidate_ended (filed candidate List.mem_cons_self)) fun reserved => ?_
    cases reserved with
    | some reservation => exact keepsOperations_builds.ret _
    | none => exact ih fun other member => filed other (List.mem_cons_of_mem _ member)

theorem reserveNext_ended (poolId ownerId : String) :
    KeepsOperations (Store.reserveNext env poolId ownerId) := by
  have builds := keepsOperations_builds
  unfold Store.reserveNext
  simp only [Tx.bind_eq, Tx.stmt_bind]
  refine builds.perform (by trivial) fun pool => ?_
  cases pool with
  | none => exact builds.ret _
  | some pool =>
    dsimp only
    split
    · exact builds.ret _
    · refine builds.perform (by trivial) fun group => ?_
      split
      · intro σ kept
        -- Whatever commits while the scan waits, it reads sane rows.
        refine Wp.seq (kept.read (Sql.operation (.candidates ..))
          (fun found _ => ∀ candidates ∈ found, ∀ candidate ∈ candidates,
            ended.sane candidate.operation)
          (fun _ _ _ sane _ => sane) (fun _ _ _ => rfl)
          fun busy snap d sound _ candidates found candidate member => ?_) ?_
        · obtain rfl : snap.candidates .. = candidates := Option.some.inj
            (Option.ite_none_left_eq_some.mp found).2
          exact RowRule.sane_of_sound (T := trackedOperations) sound
            (Table.find?_of_mem (Db.mem_of_candidates member))
        · intro found σ here
          cases found with
          | none => exact builds.raise _ σ here.1
          | some candidates => exact reserveFrom_ended (here.2 candidates rfl) σ here.1
      · exact builds.ret _

/-- The methods that settle no attempt change operations only as the rule allows. -/
theorem keepsOperations_call (asked : Call) (other : asked.settles = false) :
    KeepsOperations (asked.code sha256 env) := by
  have builds := keepsOperations_builds
  have settled {p : Prop} (settles : asked.settles = true) : p := by
    rw [other] at settles
    cases settles
  exact builds.call_of_moves asked (fun _ => keepsOperations_other rfl)
    (fun _ _ _ => builds.configurePool _ _ (keepsOperations_other rfl) (keepsOperations_other rfl))
    (fun _ _ _ _ => builds.resumeEngine _ _ _ fun _ => keepsOperations_other rfl)
    (fun _ => builds.submitOperation _ fun _ fresh => keepsOperations_operation fresh)
    (fun _ => keepsOperations_other rfl) (fun _ => keepsOperations_operation (by trivial))
    (fun _ _ => keepsOperations_other rfl) (fun _ => keepsOperations_other rfl)
    (fun _ _ _ => reserveNext_ended _ _) (fun settles {_} _ => settled settles)
    (fun settles => settled settles)
    (fun _ _ _ _ _ _ => builds.finishRun _ _ _ _ _ (keepsOperations_other rfl) fun _ _ _ =>
      builds.finishRoot _ _ _ _ fun _ => keepsOperations_other rfl)
    (fun _ _ _ => builds.bindCompletion _ _ _ fun _ => keepsOperations_other rfl)
    fun _ _ _ => keepsOperations_other rfl

/-! ### Methods on attempts -/

/-- Transactions that leave attempts with their operations. -/
abbrev KeepsAnchors {α : Type} (p : Transaction α) : Prop :=
  Wp.Preserves (anchoredPolicy.discipline Admits.all) anchoredPolicy.Kept p

theorem keepsAnchors_other {β : Type} {statement : Sql β}
    (other : statement.mayWrite .attempts = false) : KeepsAnchors (Tx.stmt statement) :=
  RowPolicy.Kept.stmt fun _ _ _ _ _ _ member =>
    Sql.allows_of_mayWrite (fun _ => rfl) other member

theorem keepsAnchors_attempt {β : Type} (statement : AttemptSql β) : KeepsAnchors statement.run :=
  RowPolicy.Kept.stmt fun _ _ _ _ _ _ member => statement.allows_anchored member

/-- Every method leaves attempts with their operations. -/
theorem keepsAnchors_call (asked : Call) : KeepsAnchors (asked.code sha256 env) := by
  have builds : Builds KeepsAnchors := by
    refine .of_terminal (Wp.Preserves.closed RowPolicy.Kept.stable) (fun statement _ => ?_)
      fun _ _ _ _ => keepsAnchors_other rfl
    cases statement with
    | attempt statement => exact keepsAnchors_attempt statement
    | _ => exact keepsAnchors_other rfl
  exact builds.call_of_moves asked (fun _ => keepsAnchors_other rfl)
    (fun _ _ _ => builds.configurePool _ _ (keepsAnchors_other rfl) (keepsAnchors_other rfl))
    (fun _ _ _ _ => builds.resumeEngine _ _ _ fun _ => keepsAnchors_other rfl)
    (fun _ => builds.submitOperation _ fun _ _ => keepsAnchors_other rfl) keepsAnchors_attempt
    (fun _ => keepsAnchors_other rfl) (fun _ _ => keepsAnchors_other rfl)
    (fun _ => keepsAnchors_other rfl)
    (fun _ _ _ => builds.reserveNext _ _ fun _ _ => builds.reserveCandidate fun _ _ =>
      builds.reserve (fun _ _ => keepsAnchors_attempt _) fun _ _ => keepsAnchors_other rfl)
    (fun _ {_} _ _ => keepsAnchors_other rfl)
    (fun _ _ _ _ _ => builds.decideResult _ _ _ _ (keepsAnchors_other rfl))
    (fun _ _ _ _ _ _ => builds.finishRun _ _ _ _ _ (keepsAnchors_other rfl) fun _ _ _ =>
      builds.finishRoot _ _ _ _ fun _ => keepsAnchors_other rfl)
    (fun _ _ _ => builds.bindCompletion _ _ _ fun _ => keepsAnchors_other rfl)
    fun _ _ _ => keepsAnchors_other rfl

end Methods

/-! ### What a settlement reads -/

/-- The statement reads an attempt, and its operation and its root with it. -/
def AttemptSql.reads {β : Type} : AttemptSql β → AttemptRow → Bool
  | .owned attemptId, a | .lostResult attemptId _, a => a.attemptId = attemptId
  | .ofEpoch poolId engineEpoch, a | .idleUnknown poolId engineEpoch .., a =>
    a.poolId = poolId && a.engineEpoch = engineEpoch
  | _, _ => false

/-- The statement reads an attempt, and its operation and its root with it. -/
def Sql.reads {β : Type} : Sql β → AttemptRow → Bool
  | .attempt statement, a => statement.reads a
  | _, _ => false

/-- What such a statement returns. -/
def AttemptSql.joined {β : Type} : AttemptSql β → β → List Joined
  | .owned _, found => found.toList
  | .lostResult .., found => found.toList
  | .ofEpoch .., found => found
  | .idleUnknown .., found => found
  | _, _ => []

/-- Such a statement locks attempts that the snapshot shows, and joins their versions of now
to the operations of the snapshot. -/
theorem AttemptSql.join_of_mem {β : Type} {statement : AttemptSql β} {busy : Key → Bool}
    {snapshot current : Db} {a : Joined}
    (member : a ∈ statement.joined (statement.exec busy snapshot current).result) :
    snapshot.operations.find? a.attempt.operationId = some a.operation ∧
      (∃ seen, snapshot.attempts.find? a.attempt.attemptId = some seen ∧
        statement.reads seen = true) ∧
      current.attempts.find? a.attempt.attemptId = some a.attempt := by
  have joined {row : AttemptRow} (here : snapshot.join row = some a) :
      a.attempt = row ∧ snapshot.operations.find? row.operationId = some a.operation := by
    obtain ⟨op, found, here⟩ := Option.bind_eq_some_iff.mp here
    obtain ⟨root, -, rfl⟩ := Option.map_eq_some_iff.mp here
    exact ⟨rfl, found⟩
  -- the version that is locked may be newer than the one that the snapshot shows
  cases statement with
  | owned attemptId =>
    obtain ⟨row, selected, here⟩ := Option.bind_eq_some_iff.mp (Option.mem_toList.mp member)
    obtain ⟨rfl, operation⟩ := joined here
    obtain ⟨seen, known, -⟩ := Access.seen_of_selectForUpdate selected
    have found := (Access.locked_of_selectForUpdate selected).2.1
    obtain rfl : a.attempt.attemptId = attemptId := Table.key_of_find? found
    exact ⟨operation, ⟨seen, known, decide_eq_true (Table.key_of_find? known)⟩, found⟩
  | lostResult attemptId now =>
    obtain ⟨row, selected, here⟩ := Option.bind_eq_some_iff.mp (Option.mem_toList.mp member)
    obtain ⟨rfl, operation⟩ := joined here
    obtain ⟨seen, known, -⟩ := Access.seen_of_selectSkipLocked selected
    have found := (Access.locked_of_selectSkipLocked selected).2.1
    obtain rfl : a.attempt.attemptId = attemptId := Table.key_of_find? found
    exact ⟨operation, ⟨seen, known, decide_eq_true (Table.key_of_find? known)⟩, found⟩
  | ofEpoch poolId engineEpoch =>
    obtain ⟨row, selected, here⟩ := List.mem_filterMap.mp member
    obtain ⟨rfl, operation⟩ := joined here
    have selected := (List.mem_insertionSort _).mp selected
    obtain ⟨seen, known, fits⟩ := Access.seen_of_selectAllForUpdate selected
    simp only [Bool.and_eq_true] at fits
    refine ⟨operation, ⟨seen, known, ?_⟩, (Access.locked_of_selectAllForUpdate selected).2.1⟩
    exact Bool.and_eq_true_iff.mpr fits.1.1
  | idleUnknown poolId engineEpoch idleSince attemptIds =>
    obtain ⟨row, selected, here⟩ := List.mem_filterMap.mp member
    obtain ⟨rfl, operation⟩ := joined here
    have selected := (List.mem_insertionSort _).mp selected
    obtain ⟨seen, known, fits⟩ := Access.seen_of_selectAllForUpdate selected
    simp only [Bool.and_eq_true] at fits
    refine ⟨operation, ⟨seen, known, ?_⟩, (Access.locked_of_selectAllForUpdate selected).2.1⟩
    exact Bool.and_eq_true_iff.mpr fits.1.1.1.1.1
  | _ => cases member

/-- The database may change to `d` while the call has come to `σ`: no operation that it has
read with an attempt, in order to settle both, ends. -/
def Call.spares (asked : Call) (σ : InFlight) (d : Db) : Prop :=
  asked.settles = true → ∀ a ∈ σ.committed.attempts.rows,
    (σ.log.any fun statement => statement.2.reads a) = true →
      d.hasEnded a.operationId = true → σ.committed.hasEnded a.operationId = true

instance {asked : Call} {σ : InFlight} {d : Db} : Decidable (asked.spares σ d) := by
  unfold Call.spares
  exact inferInstance

/-- The transaction has read the operation with one of its attempts. -/
def HasRead (operationId : String) (σ : InFlight) : Prop :=
  ∃ a ∈ σ.committed.attempts.rows,
    (σ.log.any fun statement => statement.2.reads a) = true ∧ a.operationId = operationId

section Reads

variable {σ : InFlight} {d : Db} {operationId : String}

/-- An attempt is still read when it has changed. -/
theorem Sql.reads_of_anchored {β : Type} (statement : Sql β) {a a' : AttemptRow}
    (named : a'.attemptId = a.attemptId) (stays : anchored.stays a a') :
    statement.reads a' = statement.reads a := by
  cases statement with
  | attempt statement =>
    cases statement <;> simp only [Sql.reads, AttemptSql.reads, named, stays.2.1, stays.2.2]
  | _ => rfl

/-- What a transaction has read it has still read when others have committed. -/
theorem HasRead.upon (read : HasRead operationId σ)
    (keeps : anchoredPolicy.Keeps σ.committed d) : HasRead operationId (σ.upon d) := by
  obtain ⟨a, member, seen, rfl⟩ := read
  obtain ⟨a', found, stays⟩ :=
    RowRule.stays_of_keeps (T := trackedAttempts) keeps (Table.find?_of_mem member)
  refine ⟨a', Table.mem_of_find? found, ?_, stays.1⟩
  obtain ⟨statement, logged, reads⟩ := List.any_eq_true.mp seen
  refine List.any_eq_true.mpr ⟨statement, logged, ?_⟩
  rw [statement.2.reads_of_anchored (Table.key_of_find? found) stays]
  exact reads

theorem HasRead.started {β : Type} (read : HasRead operationId σ) (statement : Sql β) :
    HasRead operationId (σ.started statement) := by
  obtain ⟨a, member, seen, same⟩ := read
  refine ⟨a, member, ?_, same⟩
  rw [Local.started_log, List.any_append, seen]
  rfl

theorem Call.spares_refl (asked : Call) (σ : InFlight) : asked.spares σ σ.committed :=
  fun _ _ _ _ ended => ended

theorem Call.spares_trans {asked : Call} {d' : Db} (keeps : anchoredPolicy.Keeps σ.committed d)
    (first : asked.spares σ d) (second : asked.spares (σ.upon d) d') : asked.spares σ d' := by
  intro settles a member seen isOver
  obtain ⟨a', member', seen', same⟩ := HasRead.upon ⟨a, member, seen, rfl⟩ keeps
  -- what has ended in the end had ended in between, and so before
  have middle : d.hasEnded a.operationId = true := by
    rw [← same] at isOver ⊢
    exact second settles a' member' seen' isOver
  exact first settles a member seen middle

end Reads

/-! ### What transactions rely on -/

/-- Operations and attempts change as the rules allow, and no operation ends that the call
has read in order to settle it. -/
def settling (asked : Call) : Discipline Sql Db Write Key where
  extra σ d := (endedPolicy.discipline Admits.all).extra σ d ∧
    anchoredPolicy.Keeps σ.committed d ∧ asked.spares σ d
  extra_refl σ := ⟨(endedPolicy.discipline Admits.all).extra_refl σ,
    RowChange.Keeps.refl _ _, asked.spares_refl σ⟩
  extra_trans first second :=
    ⟨(endedPolicy.discipline Admits.all).extra_trans first.1 second.1,
      first.2.1.trans second.2.1, Call.spares_trans first.2.1 first.2.2 second.2.2⟩
  admits := Admits.all

/-- The transaction has read an operation that has not ended since. -/
def Awaits (operationId : String) (σ : InFlight) : Prop :=
  HasRead operationId σ ∧ σ.committed.hasEnded operationId = false

/-- The operations that were pending when they were read with their attempts still are. -/
def Awaiting (read : List Joined) (σ : InFlight) : Prop :=
  ∀ a ∈ read, a.operation.state.terminal = false → Awaits a.attempt.operationId σ

section Settling

variable {asked : Call} {σ : InFlight} {read : List Joined} {env : Env}

theorem settling_relies {d : Db} (rely : (settling asked).Rely σ d) :
    (endedPolicy.discipline Admits.all).Rely σ d := ⟨rely.1, rely.2.1⟩

/-- Transactions that change operations only as the rule allows, while the operations they
have read are pending. -/
abbrev KeepsAwaiting (asked : Call) (read : List Joined) {α : Type} (p : Transaction α) : Prop :=
  Wp.Preserves (settling asked) (fun σ => endedPolicy.Kept σ ∧ Awaiting read σ) p

theorem Awaiting.started {β : Type} (here : Awaiting read σ) (statement : Sql β) :
    Awaiting read (σ.started statement) := fun a member pending =>
  ⟨(here a member pending).1.started statement, (here a member pending).2⟩

theorem kept_stable (asked : Call) : Wp.Stable (settling asked) endedPolicy.Kept :=
  fun σ d kept rely => RowPolicy.Kept.stable σ d kept (settling_relies rely)

variable (settles : asked.settles = true)

include settles

theorem awaits_stable (operationId : String) :
    Wp.Stable (settling asked) (Awaits operationId) := by
  rintro σ d ⟨hasRead, pending⟩ rely
  refine ⟨hasRead.upon rely.2.2.1, eq_false_of_ne_true fun isOver => ?_⟩
  -- the operations that the call has read do not end meanwhile
  obtain ⟨a, member, seen, rfl⟩ := hasRead
  rw [rely.2.2.2 settles a member seen isOver] at pending
  cases pending

theorem awaiting_stable : Wp.Stable (settling asked) (Awaiting read) :=
  fun σ d here rely a member pending =>
    awaits_stable settles _ σ d (here a member pending) rely

/-- What a transaction does by itself ends no committed operation. -/
theorem awaiting_always {α : Type} (p : Transaction α) :
    Wp.Preserves (settling asked) (Awaiting read) p :=
  Wp.Preserves.always (awaiting_stable settles) (fun _ _ statement here => here.started statement)
    (fun _ _ _ here => here) p

theorem KeepsOperations.awaiting {α : Type} {p : Transaction α} (keeps : KeepsOperations p) :
    KeepsAwaiting asked read p :=
  (keeps.of_relies (fun _ _ => settling_relies) fun _ _ _ admitted => admitted).and
    (awaiting_always settles p)

theorem awaiting_builds : Builds (KeepsAwaiting asked read) where
  closed := Wp.Preserves.closed ((kept_stable asked).and (awaiting_stable settles))
  plain statement plain := (keepsOperations_builds.plain statement plain).awaiting settles
  terminal env operationId state reason failing :=
    (keepsOperations_builds.terminal env operationId state reason failing).awaiting settles
  post row fresh := (keepsOperations_builds.post row fresh).awaiting settles

/-- An operation that was pending when it was read may be written whatever its state. -/
theorem awaiting_overwrite {β : Type} {statement : OperationSql β} {a : Joined}
    (member : a ∈ read) (pending : a.operation.state.terminal = false)
    (overwrites : statement.Overwrites a.attempt.operationId) :
    KeepsAwaiting asked read statement.run := by
  refine Wp.Preserves.stmt ((kept_stable asked).and (awaiting_stable settles))
    (fun σ here => ⟨here.1.started _, here.2.started _⟩) fun snap σ busy here _ => ⟨?_, here.2⟩
  exact here.1.after_over fun w written =>
    OperationSql.over_ended overwrites here.1 (here.2 a member pending).2 written

/-- A statement that reads attempts finds out which of their operations are pending, and
these stay so. -/
theorem reads_awaiting {β : Type} {statement : AttemptSql β}
    (reads : ∀ busy snap d, (statement.exec busy snap d).writes = [])
    (here : endedPolicy.Kept σ ∧ Untouched .attempts σ) :
    Wp (settling asked) statement.run σ fun found σ' =>
      endedPolicy.Kept σ' ∧ Awaiting (statement.joined found) σ' := by
  -- what the snapshot shows of an attempt, and of its operation, still holds while the
  -- statement waits for the lock
  have waiting : ∀ snap : Db, Wp.Stable (settling asked) fun σ =>
      (endedPolicy.Kept σ ∧ Untouched .attempts σ) ∧
        ∀ id seen, snap.attempts.find? id = some seen → statement.reads seen = true →
          (∃ row, σ.committed.attempts.find? id = some row ∧
            row.operationId = seen.operationId) ∧
          (snap.hasEnded seen.operationId = false → Awaits seen.operationId σ) := by
    intro snap σ d here rely
    refine ⟨⟨kept_stable asked σ d here.1.1 rely, here.1.2⟩, fun id seen found read => ?_⟩
    obtain ⟨⟨row, there, same⟩, pending⟩ := here.2 id seen found read
    obtain ⟨row', there', stays⟩ :=
      RowRule.stays_of_keeps (T := trackedAttempts) rely.2.2.1 there
    exact ⟨⟨row', there', stays.1.trans same⟩,
      fun unended => awaits_stable settles _ σ d (pending unended) rely⟩
  refine Wp.perform waiting ?_ ?_
  · -- the snapshot is taken
    intro d rely
    have kept := kept_stable asked σ d here.1 rely
    have untouched : Untouched .attempts (σ.upon d) := here.2
    refine ⟨⟨kept.started _, untouched⟩, fun id seen found read => ?_⟩
    have there : d.attempts.find? id = some seen :=
      (untouched.find? (T := trackedAttempts) (fun _ => rfl) id).symm.trans found
    refine ⟨⟨seen, there, rfl⟩, fun unended => ⟨⟨seen, Table.mem_of_find? there, ?_, rfl⟩, ?_⟩⟩
    · refine List.any_eq_true.mpr ⟨⟨_, Sql.attempt statement⟩, ?_, read⟩
      exact List.mem_append_right _ (List.mem_singleton_self _)
    · refine eq_false_of_ne_true fun isOver => ?_
      rw [Db.hasEnded_of_keeps kept.keeps isOver] at unended
      cases unended
  · -- the rows are locked, and joined to what the snapshot shows
    intro snap σ busy here _
    refine Wp.ret fun d rely => ⟨kept_stable asked _ d (here.1.1.after_read (reads ..)) rely, ?_⟩
    refine awaiting_stable settles _ d (fun a member pending => ?_) rely
    obtain ⟨known, ⟨seen, found, read⟩, current⟩ := AttemptSql.join_of_mem member
    obtain ⟨⟨row, there, same⟩, awaits⟩ := here.2 _ seen found read
    have now : σ.committed.attempts.find? a.attempt.attemptId = some a.attempt :=
      (here.1.2.find? (T := trackedAttempts) (fun _ => rfl) _).symm.trans current
    obtain rfl := Option.some.inj (there.symm.trans now)
    rw [same]
    refine awaits ?_
    rw [← same, Db.hasEnded_of_find? known]
    exact pending

end Settling

/-! ### Methods that settle attempts -/

section Settlements

variable {asked : Call} {sha256 : String → String} {σ : InFlight} {env : Env}
  (settles : asked.settles = true)

/-- A method that has written no attempt yet. -/
abbrev KeepsUntouched (asked : Call) {α : Type} (p : Transaction α) : Prop :=
  Wp.Preserves (settling asked) (fun σ => endedPolicy.Kept σ ∧ Untouched .attempts σ) p

theorem keepsUntouched_stmt {β : Type} {statement : Sql β} (plain : statement.Plain)
    (other : statement.mayWrite .attempts = false) :
    KeepsUntouched asked (Tx.stmt statement) :=
  ((keepsOperations_builds.plain statement plain).of_relies (fun _ _ => settling_relies)
    fun _ _ _ admitted => admitted).and (Untouched.keeps _ other)

theorem ended_of_awaiting {α : Type} {p : Transaction α} (read : List Joined)
    (holds : Wp (settling asked) p σ fun _ σ' => endedPolicy.Kept σ' ∧ Awaiting read σ') :
    Wp (settling asked) p σ fun _ σ' => endedPolicy.Kept σ' :=
  holds.mono fun _ _ here => here.1

include settles

theorem owned_awaiting (reservation : Reservation)
    (here : endedPolicy.Kept σ ∧ Untouched .attempts σ) :
    Wp (settling asked) (Store.owned reservation) σ fun a σ' =>
      endedPolicy.Kept σ' ∧ Awaiting [a] σ' := by
  unfold Store.owned
  refine (reads_awaiting settles (fun _ _ _ => rfl) here).seq fun found σ read => ?_
  cases found with
  | none => exact Wp.raise
  | some a => exact wp_require fun _ => (awaiting_builds settles).ret a σ read

/-- A result decides over an operation only if it was pending when it was read. -/
theorem decideResult_awaiting {a : Joined} (artifact : Artifact) (cancelled : Bool)
    {terminated : Bool} (ended : a.operation.state.terminal = true → terminated = true) :
    KeepsAwaiting asked [a]
      (Store.decideResult env a.attempt.operationId artifact cancelled terminated) := by
  have builds := @awaiting_builds asked [a] settles
  cases pending : a.operation.state.terminal with
  | false =>
    exact builds.decideResult _ _ _ _
      (awaiting_overwrite settles (List.mem_singleton_self a) pending rfl)
  | true =>
    -- a method that has read an ended operation leaves it alone
    rw [ended pending]
    unfold Store.decideResult
    simp only [Bool.not_true, Bool.and_false, Store.when, Bool.false_eq_true, if_false]
    exact builds.bind (builds.ret ()) fun _ => builds.bind (builds.ret ()) fun _ =>
      builds.completionEvents _

theorem commitResult_ended (reservation : Reservation) (artifact : Artifact) (usage : Option ℤ)
    (attachments : List Artifact) (here : endedPolicy.Kept σ ∧ Untouched .attempts σ) :
    Wp (settling asked) (Store.commitResult sha256 env reservation artifact usage attachments) σ
      fun _ σ' => endedPolicy.Kept σ' := by
  unfold Store.commitResult
  refine (owned_awaiting settles reservation here).seq fun a σ read => ?_
  have builds := @awaiting_builds asked [a] settles
  refine ended_of_awaiting [a] ?_
  split
  · exact builds.perform (by trivial) (fun _ => builds.require _ _) σ read
  · refine wp_require fun _ => builds.commitFinished _ _ _ _
      (fun _ => (keepsOperations_other rfl).awaiting settles)
      ((keepsOperations_other rfl).awaiting settles)
      (fun cancelled _ ended => decideResult_awaiting settles artifact cancelled ended) σ read

theorem unknown_ended (reservation : Reservation) (reason : String)
    (here : endedPolicy.Kept σ ∧ Untouched .attempts σ) :
    Wp (settling asked) (Store.unknown env reservation reason) σ
      fun _ σ' => endedPolicy.Kept σ' := by
  unfold Store.unknown
  refine (owned_awaiting settles reservation here).seq fun a σ read => ?_
  have builds := @awaiting_builds asked [a] settles
  refine ended_of_awaiting [a] ?_
  split
  · exact builds.ret () σ read
  · refine builds.bind ((keepsOperations_other rfl).awaiting settles) (fun _ =>
      builds.bind (builds.expireOperation _ _) fun expired => ?_) σ read
    cases pending : a.operation.state.terminal with
    | false =>
      exact builds.when (builds.bind
        (awaiting_overwrite settles (List.mem_singleton_self a) pending rfl) fun _ => builds.ret ())
    | true =>
      simp only [Bool.not_true, Bool.and_false, Store.when, Bool.false_eq_true, if_false]
      exact builds.ret ()

theorem fail_ended (reservation : Reservation) (reason : String) (notSent retry : Bool)
    (delay : Time) (here : endedPolicy.Kept σ ∧ Untouched .attempts σ) :
    Wp (settling asked) (Store.fail env reservation reason notSent retry delay) σ
      fun _ σ' => endedPolicy.Kept σ' := by
  unfold Store.fail
  refine (owned_awaiting settles reservation here).seq fun a σ read => ?_
  have builds := @awaiting_builds asked [a] settles
  refine ended_of_awaiting [a] ?_
  split
  · exact builds.ret () σ read
  · refine wp_require fun _ => builds.bind (builds.settle _ _ _) (fun _ => builds.bind
      ((keepsOperations_other rfl).awaiting settles) fun _ => ?_) σ read
    exact builds.failOperation _ _ _ _ fun pending _ =>
      awaiting_overwrite settles (List.mem_singleton_self a) pending rfl

/-- Stopping the attempts that were read, one after the other. -/
theorem stopAll_awaiting {read : List Joined} (stopped : List Joined) (sub : stopped ⊆ read)
    (recover : Bool) (errorClass retryReason : String) :
    KeepsAwaiting asked read
      (Tx.forEach stopped (Store.settleStoppedAttempt env recover errorClass retryReason)) := by
  have builds := @awaiting_builds asked read settles
  induction stopped with
  | nil => exact builds.ret ()
  | cons a rest ih =>
    refine builds.bind ?_ fun _ => ih fun b member => sub (List.mem_cons_of_mem _ member)
    exact builds.settleStoppedAttempt _ _ _ a
      (fun _ => (keepsOperations_other rfl).awaiting settles) fun pending =>
        awaiting_overwrite settles (sub List.mem_cons_self) pending rfl

theorem settleLostResult_ended (attemptId : String)
    (here : endedPolicy.Kept σ ∧ Untouched .attempts σ) :
    Wp (settling asked) (Store.settleLostResult env attemptId) σ
      fun _ σ' => endedPolicy.Kept σ' := by
  have reads (busy : Key → Bool) (snap d : Db) :
      ((AttemptSql.lostResult attemptId env.now).exec busy snap d).writes = [] :=
    (Outcome.map_writes _ _).trans Access.selectSkipLocked_writes
  unfold Store.settleLostResult
  refine (reads_awaiting settles reads here).seq fun found σ read => ?_
  have builds := @awaiting_builds asked found.toList settles
  refine ended_of_awaiting found.toList ?_
  cases found with
  | none => exact builds.ret false σ read
  | some a =>
    refine builds.bind (builds.settleStoppedAttempt _ _ _ a
      (fun _ => (keepsOperations_other rfl).awaiting settles) fun pending => ?_)
      (fun _ => builds.ret true) σ read
    exact awaiting_overwrite settles (List.mem_singleton_self a) pending rfl

theorem confirmEpochStopped_ended (poolId engineEpoch : String) (evidence : Store.Evidence)
    (recover : Bool) (here : endedPolicy.Kept σ ∧ Untouched .attempts σ) :
    Wp (settling asked) (Store.confirmEpochStopped env poolId engineEpoch evidence recover) σ
      fun _ σ' => endedPolicy.Kept σ' := by
  unfold Store.confirmEpochStopped
  cases Store.checkEvidence poolId engineEpoch evidence recover with
  | error error => exact Wp.raise
  | ok accepted =>
    refine (keepsUntouched_stmt (by trivial) rfl σ here).seq fun pool σ here => ?_
    cases pool with
    | none => exact Wp.raise
    | some pool =>
      refine wp_require fun _ => wp_require fun _ => ?_
      refine (keepsUntouched_stmt (by trivial) rfl σ here).seq fun _ σ here => ?_
      refine (keepsUntouched_stmt (by trivial) rfl σ here).seq fun direct σ here => ?_
      refine (reads_awaiting settles (fun _ _ _ => rfl) here).seq fun found σ read => ?_
      have builds := @awaiting_builds asked found settles
      refine ended_of_awaiting found ?_
      exact builds.bind (stopAll_awaiting settles _ (List.filter_subset_self _) _ _ _)
        (fun _ => builds.perform (by trivial) fun _ => builds.bind (builds.accept _) fun _ =>
          builds.ret _) σ read

theorem settleIdleUnknown_ended (poolId engineEpoch : String) (idleSince : Time)
    (attemptIds : List String) (here : endedPolicy.Kept σ ∧ Untouched .attempts σ) :
    Wp (settling asked) (Store.settleIdleUnknown env poolId engineEpoch idleSince attemptIds) σ
      fun _ σ' => endedPolicy.Kept σ' := by
  unfold Store.settleIdleUnknown
  refine (keepsUntouched_stmt (by trivial) rfl σ here).seq fun pool σ here => ?_
  cases pool with
  | none => exact Wp.ret fun d rely => kept_stable asked σ d here.1 rely
  | some pool =>
    dsimp only
    split
    · exact Wp.ret fun d rely => kept_stable asked σ d here.1 rely
    · refine (keepsUntouched_stmt (by trivial) rfl σ here).seq fun direct σ here => ?_
      refine (reads_awaiting settles (fun _ _ _ => rfl) here).seq fun found σ read => ?_
      have builds := @awaiting_builds asked found settles
      refine ended_of_awaiting found ?_
      exact builds.bind (stopAll_awaiting settles _ (List.Subset.refl _) _ _ _)
        (fun _ => builds.ret _) σ read

end Settlements

/-- Every method changes operations only as the rule allows. -/
theorem call_ended {sha256 : String → String} {env : Env} {σ : InFlight} (asked : Call)
    (kept : endedPolicy.Kept σ) (unwritten : σ.writes = []) :
    Wp (settling asked) (asked.code sha256 env) σ fun _ σ' => endedPolicy.Kept σ' := by
  have here : endedPolicy.Kept σ ∧ Untouched .attempts σ := by
    refine ⟨kept, fun w member => ?_⟩
    rw [unwritten] at member
    cases member
  have reply {α : Type} {wrap : α → Reply} {p : Transaction α} {asked : Call}
      (holds : Wp (settling asked) p σ fun _ σ' => endedPolicy.Kept σ') :
      Wp (settling asked) (Store.reply wrap p) σ fun _ σ' => endedPolicy.Kept σ' :=
    holds.seq fun _ σ kept => Wp.ret fun d rely => kept_stable asked σ d kept rely
  cases settles : asked.settles with
  | false =>
    exact (keepsOperations_call asked settles).of_relies (fun _ _ => settling_relies)
      (fun _ _ _ admitted => admitted) σ kept
  | true =>
    cases asked with
    | commitResult => exact reply (commitResult_ended settles _ _ _ _ here)
    | unknown => exact reply (unknown_ended settles _ _ here)
    | fail => exact reply (fail_ended settles _ _ _ _ _ here)
    | settleLostResult => exact reply (settleLostResult_ended settles _ here)
    | confirmEpochStopped => exact reply (confirmEpochStopped_ended settles _ _ _ _ here)
    | settleIdleUnknown => exact reply (settleIdleUnknown_ended settles _ _ _ _ here)
    | _ => cases settles

/-! ### Runs -/

namespace Interleaved

/-- No commit ends an operation that another transaction in flight has read with one of its
attempts, in order to settle both. -/
def Undisturbed : Interleaved → Event Asked → Prop :=
  System.Sparing fun asked => asked.1.spares

theorem sound_ended (sha256 : String → String) :
    Sound (Asked.code sha256) Undisturbed (fun asked => settling asked.1) endedPolicy.Sound
      fun _ _ σ => endedPolicy.Kept σ ∧ anchoredPolicy.Kept σ where
  admits _ _ _ := trivial
  code asked d sound := by
    refine (call_ended asked.1 (.initial sound) rfl).and ?_
    exact (keepsAnchors_call asked.1 _ (.initial fun _ _ _ => trivial)).of_relies
      (fun σ d rely => ⟨rely.1, fun _ _ _ _ => trivial, rely.2.2.1⟩) fun _ _ _ admitted => admitted
  commit := by
    rintro sys t session value active - ok sound ⟨kept, anchors⟩
    exact ⟨kept.view, fun u other apart running =>
      ⟨⟨fun _ => kept.view, kept.keeps⟩, anchors.keeps, ok session active u other apart running⟩⟩

/-- In every run in which no commit ends an operation that a settlement in flight has read,
an operation that has ended keeps its state and its result. -/
theorem Run.terminal_operation_stays {sha256 : String → String} {authority : Authority}
    {first last : Interleaved} {operationId : String} {op : OperationRow}
    (before : Run sha256 Undisturbed (empty authority) first)
    (after : Run sha256 Undisturbed first last)
    (found : first.committed.operations.find? operationId = some op)
    (terminal : op.state.terminal = true) :
    ∃ op', last.committed.operations.find? operationId = some op' ∧ op'.state = op.state ∧
      op'.result = op.result := by
  have empty : endedPolicy.Sound (Db.empty authority) :=
    RowRule.sound_of_empty fun _ => rfl
  have sound := sound_ended sha256
  have keeps : endedPolicy.Keeps first.committed last.committed :=
    sound.relates (RowChange.Keeps.refl _) RowChange.Keeps.trans
      (fun _ _ _ _ done => done.1.keeps) (sound.held (Held.initial empty) before) after
  obtain ⟨op', found', -, stays⟩ := RowRule.stays_of_keeps (T := trackedOperations) keeps found
  exact ⟨op', found', stays terminal⟩

/-- A result that comes after the cancellation leaves the operation cancelled. A heartbeat
of the attempt that was under way meanwhile does not matter. -/
theorem terminal_operation_stays_sample :
    ∃ (first last : Interleaved) (op op' : OperationRow),
      Run Sample.sha256 Undisturbed (empty {}) first ∧
      Run Sample.sha256 Undisturbed first last ∧
      first.committed.operations.find? "o" = some op ∧ op.state = .cancelled ∧
      last.committed.operations.find? "o" = some op' ∧ op'.state = op.state ∧
      op'.result = op.result := by
  have implies (sys : Interleaved) (event : Event Asked) (idle : sys.IdleFrom 9)
      (tested : System.SparingBelow (fun asked : Asked => asked.1.spares) 9 sys event) :
      Undisturbed sys event := tested.sparing idle
  obtain ⟨first, last, before, after, found, -⟩ := exists_runs_below Sample.sha256 {} implies
    (computed ++ .start 6 (.heartbeat Sample.reservation, Sample.env "") :: statements 6 1 ++
      alone 7 (.cancel "r" "t", Sample.env "") 6)
    (statements 6 2 ++ [.commit 6] ++ alone 8 result 6)
    (fun sys => (sys.committed.operations.find? "o").any fun op => op.state = .cancelled)
    (fun _ => true) (by decide) (by decide +kernel)
  obtain ⟨op, found, state⟩ := (Option.any_eq_true _ _).mp found
  have state : op.state = .cancelled := of_decide_eq_true state
  obtain ⟨op', found', same⟩ := Run.terminal_operation_stays before after found (by rw [state]; rfl)
  exact ⟨first, last, op, op', before, after, found, state, found', same⟩

/-- A cancellation that commits after the result has read the operation, and before it
writes it, is overwritten. -/
theorem terminal_operation_overwritten :
    ∃ (first last : Interleaved) (op op' : OperationRow),
      Run Sample.sha256 (fun _ _ => True) (empty {}) first ∧
      Run Sample.sha256 (fun _ _ => True) first last ∧
      first.committed.operations.find? "o" = some op ∧ op.state = .cancelled ∧
      last.committed.operations.find? "o" = some op' ∧ op'.state = .succeeded := by
  obtain ⟨first, last, before, after, found, found'⟩ := exists_runs Sample.sha256 {}
    (fun _ _ => True)
    (computed ++ .start 6 result :: statements 6 1 ++ alone 7 (.cancel "r" "t", Sample.env "") 6)
    (statements 6 6 ++ [.commit 6])
    (fun sys => (sys.committed.operations.find? "o").any fun op => op.state = .cancelled)
    (fun sys => (sys.committed.operations.find? "o").any fun op => op.state = .succeeded)
    (by decide +kernel)
  obtain ⟨op, found, state⟩ := (Option.any_eq_true _ _).mp found
  obtain ⟨op', found', state'⟩ := (Option.any_eq_true _ _).mp found'
  exact ⟨first, last, op, op', before, after, found, of_decide_eq_true state, found',
    of_decide_eq_true state'⟩

end Interleaved

end IntramindRuntime.Ledger
