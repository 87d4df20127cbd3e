import IntramindRuntime.Ledger.Tracking

/-!
# One result for an operation

A result is published by `commit_result` alone, and only while the operation and its
root are still running. Artifacts that come later are recorded, and labelled late. What
an operation has published stays, whatever is called afterwards.

## Main definitions

* `Book.Sealed` — a committed attempt ends its operation, and no other attempt follows
* `publicationKept`, `artifactsKept` — the laws that every method but `commit_result` keeps
* `Commits` — what `commit_result` does
* `Db.Published` — results, artifacts and states of a ledger agree

## Main results

* `Path.sealed` — every sequence of moves keeps committed operations sealed
* `Request.published_after` — every request keeps results, artifacts and states in agreement
* `Reachable.one_result` — at most one result is published for an operation
-/

namespace IntramindRuntime.Ledger

open Library

/-! ### Sealed operations -/

/-- The operation of a committed attempt has ended, and its other attempts have ended
without a result. -/
structure Book.Sealed (b : Book) : Prop where
  terminal : ∀ a ∈ b.attempts.rows, a.state = .resultCommitted →
    ∃ task, b.tasks a.operationId = some task ∧ task.state.terminal = true
  only : ∀ a ∈ b.attempts.rows, a.state = .resultCommitted → ∀ other ∈ b.attempts.rows,
    other.operationId = a.operationId →
      other = a ∨ (other.state.ended = true ∧ other.state ≠ .resultCommitted)

theorem AttemptRow.not_committed {a : AttemptRow} (isOpen : a.isOpen) :
    a.state ≠ .resultCommitted := by
  intro committed
  simp [AttemptRow.isOpen, committed, AttemptState.ended] at isOpen

namespace Book.Sealed

variable {b : Book} {id : String} {task task' : Task} {a a' : AttemptRow}

/-- An operation with an open attempt has no committed one. -/
theorem not_committed (sealed : b.Sealed) (member : a ∈ b.attempts.rows) (isOpen : a.isOpen)
    (other : AttemptRow) (member' : other ∈ b.attempts.rows)
    (same : other.operationId = a.operationId) : other.state ≠ .resultCommitted := by
  intro committed
  rcases sealed.only other member' committed a member same.symm with rfl | ⟨ended, -⟩
  · exact AttemptRow.not_committed isOpen committed
  · rw [AttemptRow.isOpen, ended] at isOpen
    cases isOpen

theorem putTask (sealed : b.Sealed) (found : b.tasks id = some task)
    (kept : task.state.terminal = true → task'.state.terminal = true) :
    (b.putTask id task').Sealed := by
  refine ⟨fun x member committed => ?_, sealed.only⟩
  obtain ⟨owner, known, terminal⟩ := sealed.terminal x member committed
  by_cases here : x.operationId = id
  · rw [here, found, Option.some.injEq] at known
    subst known
    exact ⟨task', by simp [here], kept terminal⟩
  · exact ⟨owner, by simpa [here] using known, terminal⟩

/-- An open attempt that stays open, or a new one of an operation without committed
attempts, is recorded. -/
theorem putOpen (sealed : b.Sealed) (isOpen : a'.isOpen)
    (none : ∀ other ∈ b.attempts.rows, other.operationId = a'.operationId →
      other.state ≠ .resultCommitted) : (b.putAttempt a').Sealed := by
  refine ⟨fun x member committed => ?_, fun x member committed other member' same => ?_⟩
  · rcases Table.mem_put_iff.mp member with rfl | ⟨old, -⟩
    · exact (AttemptRow.not_committed isOpen committed).elim
    · exact sealed.terminal x old committed
  · rcases Table.mem_put_iff.mp member with rfl | ⟨old, -⟩
    · exact (AttemptRow.not_committed isOpen committed).elim
    · rcases Table.mem_put_iff.mp member' with rfl | ⟨old', -⟩
      · exact (none x old same.symm committed).elim
      · exact sealed.only x old committed other old' same

/-- The open attempt of an operation ends, and the operation is decided. -/
theorem putEnded (sealed : b.Sealed) (found : b.attempts.find? a.attemptId = some a)
    (same : SameAttempt a a') (isOpen : a.isOpen) (ended : a'.state.ended = true)
    (agrees : task.Agrees a.operationId b.attempts) (known : b.tasks a.operationId = some task)
    (outcome : task.Follows task' a'.state) :
    ((b.putAttempt a').putTask a.operationId task').Sealed := by
  have member := Table.mem_of_find? found
  have others := sealed.not_committed member isOpen
  refine ⟨fun x xMem committed => ?_, fun x xMem committed other otherMem mine => ?_⟩
  · rcases Table.mem_put_iff.mp xMem with rfl | ⟨old, -⟩
    · exact ⟨task', by simp [same.operationId], outcome.committed committed⟩
    · have elsewhere : x.operationId ≠ a.operationId := fun here => others x old here committed
      obtain ⟨owner, known', terminal⟩ := sealed.terminal x old committed
      exact ⟨owner, by simpa [elsewhere] using known', terminal⟩
  · rcases Table.mem_put_iff.mp xMem with rfl | ⟨old, -⟩
    · rcases Table.mem_put_iff.mp otherMem with rfl | ⟨old', different⟩
      · exact Or.inl rfl
      · have mine : other.operationId = a.operationId := mine.trans same.operationId
        refine Or.inr ⟨?_, others other old' mine⟩
        -- An open attempt of the operation would be the one that ends.
        cases ends : other.state.ended with
        | true => rfl
        | false =>
          have equal := agrees.unique member old' rfl mine isOpen ends
          subst equal
          exact (different same.attemptId).elim
    · have elsewhere : x.operationId ≠ a.operationId := fun here => others x old here committed
      rcases Table.mem_put_iff.mp otherMem with rfl | ⟨old', -⟩
      · exact (elsewhere (mine.symm.trans same.operationId)).elim
      · exact sealed.only x old committed other old' mine

end Book.Sealed

theorem Move.sealed {label : Label} {b b' : Book} (move : Move label b b') (valid : b.Valid)
    (sealed : b.Sealed) : b'.Sealed := by
  cases move with
  | openRoot | openBudget | endRoot | configure => exact ⟨sealed.terminal, sealed.only⟩
  | @openTask _ id rootId spec fresh =>
    refine ⟨fun a member committed => ?_, sealed.only⟩
    obtain ⟨task, known, terminal⟩ := sealed.terminal a member committed
    have elsewhere : a.operationId ≠ id := by
      intro here
      rw [here, fresh] at known
      cases known
    exact ⟨task, by simpa [elsewhere] using known, terminal⟩
  | endTask found terminal => exact sealed.putTask found fun _ => terminal
  | reconcile found busy =>
    refine sealed.putTask found fun terminal => ?_
    rcases busy with state | state <;> rw [state] at terminal <;> cases terminal
  | @reserve _ task a found waiting fresh state =>
    have pending := OperationState.not_terminal_of_waiting waiting
    have isOpen : a.isOpen := by simp [AttemptRow.isOpen, state, AttemptState.ended]
    have none : ∀ other ∈ b.attempts.rows, other.operationId = a.operationId →
        other.state ≠ .resultCommitted := by
      intro other member same committed
      obtain ⟨task', known, terminal⟩ := sealed.terminal other member committed
      rw [same, found, Option.some.injEq] at known
      rw [← known, pending] at terminal
      cases terminal
    refine (sealed.putOpen isOpen none).putTask found fun terminal => ?_
    rw [pending] at terminal
    cases terminal
  | progress found same isOpen isOpen' =>
    refine sealed.putOpen isOpen' fun other member mine => ?_
    exact sealed.not_committed (Table.mem_of_find? found) isOpen other member
      (mine.trans same.operationId)
  | @send _ a a' _ _ found same task_found account_found reserved budget fits state' =>
    have isOpen : a.isOpen := by simp [AttemptRow.isOpen, reserved, AttemptState.ended]
    have isOpen' : a'.isOpen := by simp [AttemptRow.isOpen, state', AttemptState.ended]
    have put := sealed.putOpen isOpen' fun other member mine =>
      sealed.not_committed (Table.mem_of_find? found) isOpen other member
        (mine.trans same.operationId)
    exact ⟨put.terminal, put.only⟩
  | endUncharged found same isOpen ended budget compute' budget' usage task_found rootId spec
      decided outcome =>
    exact sealed.putEnded found same isOpen ended (valid.opened _ _ task_found) task_found outcome
  | endCharged found same ended budget compute' budget' usage' task_found account_found rootId
      spec decided outcome =>
    have isOpen := (valid.consistent _ (Table.mem_of_find? found)).open_of_budget budget
    have put := sealed.putEnded found same isOpen ended (valid.opened _ _ task_found) task_found
      outcome
    refine ⟨fun a member committed => ?_, fun a member => ?_⟩
    · rw [Book.overspend_tasks]
      rw [Book.overspend_attempts] at member
      exact put.terminal a member committed
    · rw [Book.overspend_attempts] at member ⊢
      exact put.only a member

/-- An operation that has ended keeps its state. -/
theorem Move.keeps_terminal {label : Label} {b b' : Book} (move : Move label b b') {id : String}
    {task : Task} (found : b.tasks id = some task) (terminal : task.state.terminal = true) :
    ∃ task', b'.tasks id = some task' ∧ task'.state = task.state := by
  have put : ∀ {id' : String} {old new : Task}, b.tasks id' = some old →
      (old.state.terminal = true → new.state = old.state) →
      ∃ task', Function.update b.tasks id' (some new) id = some task' ∧
        task'.state = task.state := by
    intro id' old new known kept
    by_cases here : id = id'
    · subst here
      rw [found, Option.some.injEq] at known
      subst known
      exact ⟨new, Function.update_self .., kept terminal⟩
    · exact ⟨task, by rw [Function.update_of_ne here, found], rfl⟩
  -- What takes an operation or puts it back has seen it pending.
  have pending : ∀ {id' : String} {old new : Task}, b.tasks id' = some old →
      old.state.terminal = false →
      ∃ task', Function.update b.tasks id' (some new) id = some task' ∧
        task'.state = task.state := by
    intro id' old new known unfinished
    refine put known fun ended => ?_
    rw [unfinished] at ended
    cases ended
  cases move with
  | openRoot | openBudget | endRoot | configure | progress | send => exact ⟨task, found, rfl⟩
  | @openTask _ new rootId spec fresh =>
    have elsewhere : id ≠ new := by
      rintro rfl
      rw [found] at fresh
      cases fresh
    exact ⟨task, by simpa [elsewhere] using found, rfl⟩
  | endTask known ended unfinished => exact pending known unfinished
  | reconcile known busy =>
    refine pending known ?_
    rcases busy with state | state <;> rw [state] <;> rfl
  | reserve known waiting => exact pending known (OperationState.not_terminal_of_waiting waiting)
  | endUncharged _ _ _ _ _ _ _ _ known _ _ _ outcome => exact put known outcome.kept
  | endCharged _ _ _ _ _ _ _ known _ _ _ _ outcome =>
    rw [Book.overspend_tasks]
    exact put known outcome.kept

namespace Path

variable {allowed : Label → Prop} {b b' : Book}

theorem keeps_terminal (path : Path allowed b b') {id : String} {task : Task}
    (found : b.tasks id = some task) (terminal : task.state.terminal = true) :
    ∃ task', b'.tasks id = some task' ∧ task'.state = task.state := by
  induction path with
  | refl => exact ⟨task, found, rfl⟩
  | tail _ step ih =>
    obtain ⟨label, -, move⟩ := step
    obtain ⟨task', found', same⟩ := ih
    obtain ⟨task'', found'', same'⟩ := move.keeps_terminal found' (same ▸ terminal)
    exact ⟨task'', found'', same'.trans same⟩

theorem sealed (path : Path allowed b b') (valid : b.Valid) (sealed : b.Sealed) : b'.Sealed := by
  induction path with
  | refl => exact sealed
  | tail path step ih =>
    obtain ⟨label, -, move⟩ := step
    exact move.sealed (Path.valid path valid) ih

end Path

theorem Db.empty_sealed (authority : Authority) : (Db.empty authority).book.Sealed where
  terminal _ member := by cases member
  only _ member := by cases member

/-! ### What publishes nothing -/

/-- An operation does not succeed, and its result stays as it is. -/
def publication : RowGrowth OperationRow where
  follows old row := row.result = old.result ∧ (row.state = .succeeded → old.state = .succeeded)
  fresh row := row.result = none ∧ row.state ≠ .succeeded
  refl _ := ⟨rfl, id⟩
  trans first second := ⟨second.1.trans first.1, first.2 ∘ second.2⟩
  keeps fresh follows := ⟨follows.1.trans fresh.1, fresh.2 ∘ follows.2⟩

/-- Operations do not succeed. -/
abbrev publicationKept : RowChange Db := publication.on trackedOperations

/-- Artifacts stay as they are. -/
abbrev artifactsKept : RowChange Db := (RowGrowth.frozen ArtifactRow).on trackedArtifacts

/-- The law that every method but `commit_result` keeps. -/
abbrev resultsKept : RowChange Db := publicationKept.both artifactsKept

/-- A transaction that publishes nothing when it runs alone. -/
abbrev KeepsResults {α : Type} (p : Transaction α) : Prop := resultsKept.KeptBy p

/-- All statements but those that let an operation succeed. -/
def OperationSql.Unpublishing {β : Type} : OperationSql β → Prop
  | .insert row => row.Fresh
  | .succeed .. => False
  | .terminal _ state _ => state.failing = true
  | _ => True

section Statements

variable {α β : Type}

theorem publicationKept_operation {statement : OperationSql β}
    (unpublishing : statement.Unpublishing) : publicationKept.KeptBy statement.run := by
  refine RowChange.keptBy_stmt fun d w member => ?_
  have member : w ∈ (statement.exec (fun _ => false) d d).writes := member
  cases statement with
  | lockIdentity | find | ofTenant | pendingCounts | candidates | forUpdate | pendingOf
  | countPendingOf | pastDeadline | pastRootDeadline | waiting | ofEndedRoots => cases member
  | claimable operationId =>
    rw [OperationSql.exec, Access.selectSkipLocked_writes] at member
    cases member
  | insert row =>
    refine RowGrowth.of_insert (T := trackedOperations) member ⟨unpublishing.2.2.1, ?_⟩
    rw [unpublishing.2.1]
    rintro ⟨⟩
  | succeed => exact unpublishing.elim
  | awaitBudget | countAttempt =>
    exact RowGrowth.of_update (T := trackedOperations) member (fun _ => rfl)
      fun row _ _ => ⟨rfl, id⟩
  | terminal operationId state reason =>
    exact RowGrowth.of_update (T := trackedOperations) member (fun _ => rfl)
      fun row _ _ => ⟨rfl, fun here => (OperationState.ne_of_failing unpublishing here).elim⟩
  | _ =>
    exact RowGrowth.of_update (T := trackedOperations) member (fun _ => rfl)
      fun row _ _ => ⟨rfl, fun here => by cases here⟩

theorem artifactsKept_other {statement : OtherSql β} (plain : statement.Plain) :
    artifactsKept.KeptBy statement.run := by
  refine RowChange.keptBy_stmt fun d w member => RowGrowth.of_other fun row => ?_
  have member : w ∈ (statement.exec d d).writes := member
  rintro rfl
  cases statement with
  | authorityForUpdate | authority | lockSubmission | submission | ownerAlive | lockModel =>
    cases member
  | insertArtifact => exact plain.elim
  | insertUpdate => cases (Access.mem_insert_writes member).1
  | insertSubmission row =>
    simp only [OtherSql.exec] at member
    split at member
    · cases member
    · cases (Access.mem_insert_writes member).1
  | registerOwner row =>
    rcases Access.mem_upsert_writes member with ⟨here, -⟩ | ⟨_, -, -, here⟩ <;> cases here
  | renewOwner =>
    obtain ⟨_, -, -, here⟩ := Access.mem_update_writes member
    cases here
  | admitModel => cases (Access.mem_insertIgnore_writes member).1
  | purgeDirect | dropWaiters =>
    obtain ⟨_, -, here⟩ := List.mem_map.mp member
    cases here
  | expireDirect | stopDirect | idleDirect =>
    obtain ⟨_, -, -, here⟩ := Access.mem_updateAll_writes member
    cases here

theorem publicationKept_builds : Builds publicationKept.KeptBy := by
  refine .of_terminal publicationKept.keptBy_closed (fun statement plain => ?_)
    fun _ _ _ failed => publicationKept_operation failed
  cases statement with
  | operation statement =>
    refine publicationKept_operation ?_
    cases statement <;> first | exact plain | trivial
  | _ => exact keptBy_other (fun _ => rfl) rfl

theorem artifactsKept_builds : Builds artifactsKept.KeptBy := by
  refine .of_terminal artifactsKept.keptBy_closed (fun statement plain => ?_)
    fun _ _ _ _ => keptBy_other (fun _ => rfl) rfl
  cases statement with
  | other statement => exact artifactsKept_other plain
  | _ => exact keptBy_other (fun _ => rfl) rfl

theorem keepsResults_builds : Builds KeepsResults where
  closed := resultsKept.keptBy_closed
  plain statement plain :=
    (publicationKept_builds.plain statement plain).both (artifactsKept_builds.plain statement plain)
  terminal env operationId state reason failed :=
    (publicationKept_builds.terminal env operationId state reason failed).both
      (artifactsKept_builds.terminal env operationId state reason failed)
  post row fresh := (publicationKept_builds.post row fresh).both (artifactsKept_builds.post row fresh)

theorem keepsResults_operation {statement : OperationSql β}
    (unpublishing : statement.Unpublishing) : KeepsResults statement.run :=
  (publicationKept_operation unpublishing).both (keptBy_other (fun _ => rfl) rfl)

theorem keepsResults_other {statement : Sql β} (operations : statement.mayWrite .operations = false)
    (artifacts : statement.mayWrite .artifacts = false) : KeepsResults (Tx.stmt statement) :=
  (keptBy_other (fun _ => rfl) operations).both (keptBy_other (fun _ => rfl) artifacts)

end Statements

/-- Every method but `commit_result` publishes nothing. -/
theorem call_keepsResults {sha256 : String → String} {env : Env} (asked : Call)
    (other : ∀ reservation artifact usage attachments,
      asked ≠ .commitResult reservation artifact usage attachments) :
    KeepsResults (asked.code sha256 env) := by
  have builds := keepsResults_builds
  have back : ∀ {β : Type} (statement : OperationSql β), statement.PutsBack →
      KeepsResults statement.run := fun statement puts =>
    keepsResults_operation (by cases statement <;> trivial)
  exact builds.call asked (fun _ => keepsResults_other rfl rfl)
    (fun _ _ _ => builds.configurePool _ _ (keepsResults_other rfl rfl) (keepsResults_other rfl rfl))
    (fun _ _ _ _ => builds.resumeEngine _ _ _ fun _ => keepsResults_other rfl rfl)
    (fun _ => builds.submitOperation _ fun _ fresh => keepsResults_operation fresh)
    (fun _ _ _ => builds.reserveNext _ _ fun _ _ => builds.reserveCandidate fun _ _ =>
      builds.reserve (fun _ _ => keepsResults_other rfl rfl)
        fun _ _ => keepsResults_operation (by trivial))
    (fun _ _ => builds.markSend _ (keepsResults_other rfl rfl) fun _ _ =>
      builds.chargeSend _ _ _ (fun _ => keepsResults_operation (by trivial))
        fun _ _ => keepsResults_other rfl rfl)
    (fun _ => builds.computeFinished _ (keepsResults_other rfl rfl))
    (fun _ _ _ _ here => (other _ _ _ _ here).elim)
    (fun _ _ _ => builds.unknown _ _ (fun _ => keepsResults_other rfl rfl) back)
    (fun _ _ _ _ _ _ => builds.fail _ _ _ _ _ (fun _ _ _ => keepsResults_other rfl rfl) back)
    (fun _ _ _ _ _ _ => builds.finishRun _ _ _ _ _ (keepsResults_other rfl rfl)
      fun _ _ _ => builds.finishRoot _ _ _ _ fun _ => keepsResults_other rfl rfl)
    (fun _ _ _ => builds.bindCompletion _ _ _ fun _ => keepsResults_other rfl rfl)
    (builds.reconcile (fun _ => keepsResults_other rfl rfl)
      fun _ => keepsResults_other rfl rfl)
    (fun _ _ => builds.settleLostResult _ (fun _ _ => keepsResults_other rfl rfl) back)
    (fun _ _ _ _ _ => builds.confirmEpochStopped _ _ _ _ (fun _ _ => keepsResults_other rfl rfl)
      back)
    (fun _ _ _ _ _ => builds.settleIdleUnknown _ _ _ _ (fun _ _ => keepsResults_other rfl rfl)
      back)
    fun _ _ _ => keepsResults_other rfl rfl

/-! ### What `commit_result` does -/

/-- The row that `commit_result` inserts for an artifact. -/
def artifactRow (a : Joined) (disposition : Disposition) (ref : Artifact) : ArtifactRow where
  objectKey := ref.key
  tenantId := a.operation.tenantId
  operationId := a.attempt.operationId
  attemptId := a.attempt.attemptId
  manifest := ref
  disposition := disposition

/-- Artifacts were recorded for an attempt, and nothing else in their table changed. -/
structure Recorded (a : Joined) (disposition : Disposition) (refs : List Artifact) (d d' : Db) :
    Prop where
  old : ∀ row ∈ d.artifacts.rows, row ∈ d'.artifacts.rows
  new : ∀ ref ∈ refs, artifactRow a disposition ref ∈ d'.artifacts.rows
  origin : ∀ row ∈ d'.artifacts.rows,
    row ∈ d.artifacts.rows ∨ ∃ ref ∈ refs, row = artifactRow a disposition ref

/-- An operation has its result, and no other operation changed. -/
structure Succeeds (operationId : String) (artifact : Artifact) (d d' : Db) : Prop where
  here : ∃ op, d'.operations.find? operationId = some op ∧ op.state = .succeeded ∧
    op.result = some artifact
  elsewhere : ∀ id, id ≠ operationId → d'.operations.find? id = d.operations.find? id

/-- What `commit_result` does: it records the artifacts and commits the attempt, and
lets a pending operation succeed if the artifacts are its result. -/
structure Commits (a : Joined) (artifact : Artifact) (attachments : List Artifact)
    (disposition : Disposition) (d d' : Db) : Prop where
  recorded : Recorded a disposition (artifact :: attachments) d d'
  committed : ∃ a', d'.attempts.find? a.attempt.attemptId = some a' ∧ a'.state = .resultCommitted
  result : disposition = .result → a.operation.state.terminal = false ∧
    ∃ d₁, publicationKept.Keeps d d₁ ∧ Succeeds a.attempt.operationId artifact d₁ d'
  late : disposition ≠ .result → publicationKept.Keeps d d'

section Commit

variable {sha256 : String → String} {env : Env} {d d' d'' : Db} {a : Joined}

theorem mem_artifacts_of_keeps (keeps : artifactsKept.Keeps d d') (row : ArtifactRow) :
    row ∈ d'.artifacts.rows ↔ row ∈ d.artifacts.rows := by
  have same : ∀ k, d'.artifacts.find? k = d.artifacts.find? k :=
    fun k => RowGrowth.find?_of_frozen (T := trackedArtifacts) keeps
  rw [Table.mem_rows_iff, Table.mem_rows_iff, same]

theorem Recorded.of_keeps {disposition : Disposition} {refs : List Artifact} {d₁ d₂ : Db}
    (recorded : Recorded a disposition refs d₁ d₂) (before : artifactsKept.Keeps d d₁)
    (after : artifactsKept.Keeps d₂ d') : Recorded a disposition refs d d' where
  old row member := (mem_artifacts_of_keeps after row).mpr
    (recorded.old row ((mem_artifacts_of_keeps before row).mpr member))
  new ref member := (mem_artifacts_of_keeps after _).mpr (recorded.new ref member)
  origin row member := (recorded.origin row ((mem_artifacts_of_keeps after row).mp member)).imp_left
    (mem_artifacts_of_keeps before row).mp

theorem insertArtifacts_records (disposition : Disposition) (refs : List Artifact) :
    (Store.insertArtifacts sha256 a disposition refs).Ensures d
      fun _ d' => Recorded a disposition refs d d' := by
  induction refs generalizing d with
  | nil => exact Tx.Ensures.ret ⟨fun _ => id, nofun, fun _ => Or.inl⟩
  | cons ref rest ih =>
    refine Tx.Ensures.bind (ensures_require fun _ => Tx.Ensures.insert rfl (fun fresh => ?_)
      Tx.Ensures.raise)
    refine Tx.Ensures.ret (ih.mono fun _ d' later => ⟨fun row member => ?_, fun other member => ?_,
      fun row member => ?_⟩)
    · refine later.old row (Table.mem_put_iff.mpr (Or.inr ⟨member, fun same => ?_⟩))
      have found := Table.find?_of_mem member
      rw [← same] at found
      exact Option.some_ne_none _ (found.symm.trans fresh)
    · rcases List.mem_cons.mp member with rfl | member
      · exact later.old _ (Table.mem_put_iff.mpr (Or.inl rfl))
      · exact later.new other member
    · rcases later.origin row member with before | ⟨other, member, same⟩
      · rcases Table.mem_put_iff.mp before with here | ⟨old, -⟩
        · exact Or.inr ⟨ref, List.mem_cons_self, here⟩
        · exact Or.inl old
      · exact Or.inr ⟨other, List.mem_cons_of_mem _ member, same⟩

/-- A late result leaves the operation without one. -/
theorem decideResult_late {operationId : String} {artifact : Artifact} {cancelled terminated : Bool}
    (late : (cancelled || terminated) = true) :
    publicationKept.KeptBy (Store.decideResult env operationId artifact cancelled terminated) := by
  have builds := publicationKept_builds
  unfold Store.decideResult
  refine builds.bind ?_ fun _ => builds.bind (builds.when (builds.terminal _ _ _ _ rfl))
    fun _ => builds.completionEvents _
  have no : (!cancelled && !terminated) = false := by rw [← Bool.not_or, late]; rfl
  rw [no]
  exact builds.ret ()

/-- A result in time is the result of its operation. -/
theorem decideResult_succeeds {operationId : String} {artifact : Artifact} {op : OperationRow}
    (found : d.operations.find? operationId = some op) :
    (Store.decideResult env operationId artifact false false).Ensures d
      fun _ d' => Succeeds operationId artifact d d' := by
  have named : op.operationId = operationId := Table.key_of_find? found
  have events : (Store.completionEvents env operationId).Uses
      fun statement => statement.mayWrite .operations = false :=
    ⟨rfl, fun _ => Tx.Uses.forEach fun _ => ⟨rfl, fun _ => trivial⟩⟩
  unfold Store.decideResult
  refine ensures_when (fun _ => ?_) fun h => by simp at h
  refine Tx.Ensures.update rfl (fun row found' _ => ?_) fun missing => ?_
  · obtain rfl : row = op := Option.some.inj (found'.symm.trans found)
    refine ensures_when (fun h => by simp at h) fun _ =>
      (frozen_of_uses (T := trackedOperations) (fun _ => rfl) events _).mono fun _ d' keeps => ?_
    have same : ∀ id, d'.operations.find? id =
        (d.operations.put (row.succeed artifact)).find? id :=
      fun id => RowGrowth.find?_of_frozen (T := trackedOperations) keeps
    refine ⟨⟨row.succeed artifact, ?_, rfl, rfl⟩, fun id different => ?_⟩
    · rw [same, ← named]
      exact Table.find?_put_self
    · rw [same]
      exact Table.find?_put_of_ne fun here => different (here.symm.trans named)
  · simpa using missing op found

theorem commitFinished_commits (valid : d.book.Valid) (joins : Joins d a)
    (state : a.attempt.state = .backendFinished) (artifact : Artifact) (usage : Option ℤ)
    (attachments : List Artifact) :
    (Store.commitFinished sha256 env a artifact usage attachments).Ensures d fun _ d' =>
      ∃ disposition, Commits a artifact attachments disposition d d' := by
  have publishing := publicationKept_builds
  have recording := artifactsKept_builds
  have inserted : ∀ row, publicationKept.KeptBy (OtherSql.insertArtifact row).run :=
    fun _ => keptBy_other (fun _ => rfl) rfl
  have moved : publicationKept.KeptBy
      (AttemptSql.resultCommitted a.attempt.attemptId env.now).run :=
    keptBy_other (fun _ => rfl) rfl
  have parts : (Store.commitFinished sha256 env a artifact usage attachments).Ensures d fun _ d' =>
      ∃ disposition, Recorded a disposition (artifact :: attachments) d d' ∧
        (disposition = .result → a.operation.state.terminal = false ∧
          ∃ d₁, publicationKept.Keeps d d₁ ∧ Succeeds a.attempt.operationId artifact d₁ d') ∧
        (disposition ≠ .result → publicationKept.Keeps d d') := by
    unfold Store.commitFinished
    refine Tx.Ensures.bind ((keepsResults_builds.expireOperation a.operation.spec
      (env.clock .owned a.attempt.attemptId) d).mono fun expired d₁ expiry => ?_)
    dsimp only
    generalize cancelled_eq : (a.root.cancelRequested || decide (a.operation.state = .cancelled) ||
      decide (a.root.state ≠ .running)) = cancelled
    generalize terminated_eq : (expired || a.operation.state.terminal) = terminated
    refine Tx.Ensures.mono (Tx.Ensures.and
      (?_ : Tx.Ensures _ d₁ fun _ d' => Recorded a (if cancelled then .lateCancelled
        else if terminated then .lateTerminal else .result) (artifact :: attachments) d d') ?_)
      fun _ d' holds => ⟨_, holds.1, holds.2⟩
    · refine Tx.Ensures.bind ((insertArtifacts_records _ _).mono fun _ d₂ recorded =>
        Tx.Ensures.mono (?_ : Tx.Ensures _ d₂ fun _ d' => artifactsKept.Keeps d₂ d')
          fun _ d' after => recorded.of_keeps expiry.right after)
      exact recording.bind (recording.settle _ _ _) (fun _ => recording.bind
        (keptBy_other (fun _ => rfl) rfl) fun _ =>
          recording.decideResult _ _ _ _ (keptBy_other (fun _ => rfl) rfl)) d₂
    · cases late : cancelled || terminated with
      | true =>
        refine Tx.Ensures.mono (publishing.bind (publishing.insertArtifacts _ _ _ inserted)
          (fun _ => publishing.bind (publishing.settle _ _ _) fun _ => publishing.bind moved
            fun _ => decideResult_late late) d₁) fun _ d' keeps => ⟨fun here => ?_, fun _ => ?_⟩
        · cases cancelled <;> cases terminated <;> cases late <;> cases here
        · exact expiry.left.trans keeps
      | false =>
        rw [Bool.or_eq_false_iff] at late
        obtain ⟨rfl, rfl⟩ := late
        refine Tx.Ensures.bind ((publishing.insertArtifacts _ _ _ inserted d₁).mono
          fun _ d₂ first => Tx.Ensures.bind ((publishing.settle _ _ _ d₂).mono
          fun _ d₃ second => Tx.Ensures.bind ((moved d₃).mono fun _ d₄ third => ?_)))
        have before := ((expiry.left.trans first).trans second).trans third
        obtain ⟨op, found, -⟩ :=
          RowGrowth.follows_of_keeps (T := trackedOperations) before joins.operation
        refine (decideResult_succeeds found).mono fun _ d' succeeds =>
          ⟨fun _ => ⟨?_, d₄, before, succeeds⟩, fun late => (late rfl).elim⟩
        rw [Bool.or_eq_false_iff] at terminated_eq
        exact terminated_eq.2
  refine ((@commitFinished_refines sha256 env d valid a joins state artifact usage
    attachments).and parts).mono fun _ d' holds => ?_
  obtain ⟨⟨-, committed⟩, disposition, recorded, result, late⟩ := holds
  exact ⟨disposition, recorded, committed, result, late⟩

/-- `commit_result` changes nothing if the attempt is committed already. -/
theorem commitResult_commits (valid : d.book.Valid) (reservation : Reservation)
    (artifact : Artifact) (usage : Option ℤ) (attachments : List Artifact) :
    (Store.commitResult sha256 env reservation artifact usage attachments).Ensures d fun _ d' =>
      (d' = d ∧ ∃ a, d.attempts.find? reservation.attemptId = some a ∧
        a.state = .resultCommitted) ∨
      ∃ a disposition, Joins d a ∧ a.attempt.attemptId = reservation.attemptId ∧
        a.attempt.state = .backendFinished ∧ Commits a artifact attachments disposition d d' := by
  unfold Store.commitResult
  refine Tx.Ensures.bind ((owned_spec reservation).mono ?_)
  rintro a _ ⟨rfl, joins, named, -⟩
  split
  · next committed =>
    simp only [Tx.bind_eq, Tx.stmt_bind]
    refine Tx.Ensures.read rfl ?_
    unfold Store.require
    split
    · exact Tx.Ensures.ret (Or.inl ⟨rfl, a.attempt, named ▸ joins.attempt, committed⟩)
    · exact Tx.Ensures.raise
  · refine ensures_require fun finished => ?_
    simp only [Bool.and_eq_true, decide_eq_true_eq] at finished
    refine (commitFinished_commits valid joins finished.2 artifact usage attachments).mono
      fun _ d' commits => ?_
    obtain ⟨disposition, commits⟩ := commits
    exact Or.inr ⟨a, disposition, joins, named, finished.2, commits⟩

theorem commitResult_repeated (valid : d.book.Valid) {reservation : Reservation}
    {committed : AttemptRow} (found : d.attempts.find? reservation.attemptId = some committed)
    (state : committed.state = .resultCommitted) (artifact : Artifact) (usage : Option ℤ)
    (attachments : List Artifact) :
    (Store.commitResult sha256 env reservation artifact usage attachments).Ensures d
      fun _ d' => d' = d := by
  refine (commitResult_commits valid reservation artifact usage attachments).mono
    fun _ d' after => ?_
  rcases after with ⟨same, -⟩ | ⟨a, disposition, joins, named, finished, -⟩
  · exact same
  · have here := joins.attempt
    rw [named, found, Option.some.injEq] at here
    rw [← here, state] at finished
    cases finished

end Commit

/-! ### Agreement of results, artifacts and states -/

/-- Artifacts belong to committed attempts, all artifacts of an attempt are labelled
alike, and an operation has a result exactly if it succeeded, with artifacts that are
labelled so. -/
structure Db.Published (d : Db) : Prop where
  artifact : ∀ row ∈ d.artifacts.rows, ∃ a, d.attempts.find? row.attemptId = some a ∧
    a.operationId = row.operationId ∧ a.state = .resultCommitted
  uniform : ∀ row ∈ d.artifacts.rows, ∀ row' ∈ d.artifacts.rows,
    row'.attemptId = row.attemptId → row'.disposition = row.disposition
  result : ∀ row ∈ d.artifacts.rows, row.disposition = .result →
    ∃ op, d.operations.find? row.operationId = some op ∧ op.state = .succeeded
  succeeded : ∀ op ∈ d.operations.rows, op.state = .succeeded →
    ∃ row ∈ d.artifacts.rows, row.operationId = op.operationId ∧ row.disposition = .result ∧
      op.result = some row.manifest
  unpublished : ∀ op ∈ d.operations.rows, op.state ≠ .succeeded → op.result = none

theorem Db.empty_published (authority : Authority) : (Db.empty authority).Published where
  artifact _ member := by cases member
  uniform _ member := by cases member
  result _ member := by cases member
  succeeded _ member := by cases member
  unpublished _ member := by cases member

section Steps

variable {sha256 : String → String} {authority : Authority} {env : Env} {d d' : Db}
  {allowed : Label → Prop}

/-- A committed attempt stays as it is. -/
theorem Path.keeps_committed (path : Path allowed d.book d'.book) (valid : d.book.Valid)
    {attemptId : String} {a : AttemptRow} (found : d.attempts.find? attemptId = some a)
    (committed : a.state = .resultCommitted) : d'.attempts.find? attemptId = some a := by
  have ended : a.state.ended = true := by rw [committed]; rfl
  have member := path.keeps_ended valid (Table.mem_of_find? found) ended
  rw [← show a.attemptId = attemptId from Table.key_of_find? found]
  exact Table.find?_of_mem member

/-- An operation that succeeded stays so. -/
theorem Path.keeps_succeeded (path : Path allowed d.book d'.book) {operationId : String}
    {op : OperationRow} (found : d.operations.find? operationId = some op)
    (succeeded : op.state = .succeeded) :
    ∃ op', d'.operations.find? operationId = some op' ∧ op'.state = .succeeded := by
  have terminal : op.task.state.terminal = true := by rw [OperationRow.task_state, succeeded]; rfl
  obtain ⟨task, found', same⟩ := path.keeps_terminal (Db.book_task_of_found found) terminal
  obtain ⟨op', known, rfl⟩ := Option.map_eq_some_iff.mp found'
  exact ⟨op', known, same.trans succeeded⟩

/-- Whatever publishes nothing keeps the agreement. -/
theorem Db.Published.of_keeps (published : d.Published) (valid : d.book.Valid)
    (path : Path allowed d.book d'.book) (keeps : resultsKept.Keeps d d') : d'.Published where
  artifact row member := by
    obtain ⟨a, found, same, committed⟩ :=
      published.artifact row ((mem_artifacts_of_keeps keeps.right row).mp member)
    exact ⟨a, path.keeps_committed valid found committed, same, committed⟩
  uniform row member row' member' :=
    published.uniform row ((mem_artifacts_of_keeps keeps.right row).mp member) row'
      ((mem_artifacts_of_keeps keeps.right row').mp member')
  result row member labelled := by
    obtain ⟨op, found, succeeded⟩ :=
      published.result row ((mem_artifacts_of_keeps keeps.right row).mp member) labelled
    exact path.keeps_succeeded found succeeded
  succeeded op member succeeded := by
    rcases RowGrowth.cases_of_keeps (T := trackedOperations) keeps.left
      (Table.find?_of_mem member) with ⟨old, before, same, was⟩ | ⟨-, -, pending⟩
    · obtain ⟨row, rowMem, named, labelled, result⟩ :=
        published.succeeded old (Table.mem_of_find? before) (was succeeded)
      refine ⟨row, (mem_artifacts_of_keeps keeps.right row).mpr rowMem, named.trans ?_, labelled,
        same.trans result⟩
      exact Table.key_of_find? before
    · exact (pending succeeded).elim
  unpublished op member pending := by
    rcases RowGrowth.cases_of_keeps (T := trackedOperations) keeps.left
      (Table.find?_of_mem member) with ⟨old, before, same, -⟩ | ⟨-, fresh, -⟩
    · rw [same]
      refine published.unpublished old (Table.mem_of_find? before) fun succeeded => ?_
      obtain ⟨op', found, succeeded'⟩ := path.keeps_succeeded before succeeded
      rw [Option.some.inj ((Table.find?_of_mem member).symm.trans found)] at pending
      exact pending succeeded'
    · exact fresh

/-- Operations that a commit does not let succeed publish nothing. -/
theorem Commits.kept {a : Joined} {artifact : Artifact} {attachments : List Artifact}
    {disposition : Disposition} (commits : Commits a artifact attachments disposition d d')
    {operationId : String} {op : OperationRow}
    (found : d'.operations.find? operationId = some op)
    (other : disposition = .result → operationId ≠ a.attempt.operationId) :
    (∃ old, d.operations.find? operationId = some old ∧ publication.follows old op) ∨
      (d.operations.find? operationId = none ∧ publication.fresh op) := by
  by_cases labelled : disposition = .result
  · obtain ⟨-, d₁, keeps, succeeds⟩ := commits.result labelled
    rw [succeeds.elsewhere operationId (other labelled)] at found
    exact RowGrowth.cases_of_keeps (T := trackedOperations) keeps found
  · exact RowGrowth.cases_of_keeps (T := trackedOperations) (commits.late labelled) found

/-- A commit keeps the agreement. -/
theorem Db.Published.of_commits {a : Joined} {artifact : Artifact} {attachments : List Artifact}
    {disposition : Disposition} (published : d.Published) (valid : d.book.Valid)
    (path : Path allowed d.book d'.book) (joins : Joins d a)
    (state : a.attempt.state = .backendFinished)
    (commits : Commits a artifact attachments disposition d d') : d'.Published := by
  -- The artifacts that were there belong to other attempts.
  have others : ∀ row ∈ d.artifacts.rows, row.attemptId ≠ a.attempt.attemptId := by
    intro row member here
    obtain ⟨x, found, -, committed⟩ := published.artifact row member
    rw [here, joins.attempt, Option.some.injEq] at found
    rw [← found, state] at committed
    cases committed
  have recorded : ∀ row ∈ d'.artifacts.rows, row ∈ d.artifacts.rows ∨
      (row.attemptId = a.attempt.attemptId ∧ row.operationId = a.attempt.operationId ∧
        row.disposition = disposition) := by
    intro row member
    rcases commits.recorded.origin row member with old | ⟨ref, -, rfl⟩
    · exact Or.inl old
    · exact Or.inr ⟨rfl, rfl, rfl⟩
  have succeeds : disposition = .result → ∃ op,
      d'.operations.find? a.attempt.operationId = some op ∧ op.state = .succeeded ∧
        op.result = some artifact := by
    intro labelled
    obtain ⟨-, d₁, -, succeeds⟩ := commits.result labelled
    exact succeeds.here
  refine ⟨fun row member => ?_, fun row member row' member' same => ?_,
    fun row member labelled => ?_, fun op member succeeded => ?_, fun op member pending => ?_⟩
  · rcases recorded row member with old | ⟨named, owner, -⟩
    · obtain ⟨x, found, same, committed⟩ := published.artifact row old
      exact ⟨x, path.keeps_committed valid found committed, same, committed⟩
    · obtain ⟨x, found, committed⟩ := commits.committed
      obtain ⟨x', member', later, -⟩ := path.keeps_compute valid (Table.mem_of_find? joins.attempt)
      have found' := Table.find?_of_mem member'
      rw [key_attempt, later.attemptId] at found'
      have equal : x = x' := Option.some.inj (found.symm.trans found')
      refine ⟨x, by rw [named, found], ?_, committed⟩
      rw [equal, later.operationId, owner]
  · rcases recorded row member with old | ⟨named, -, label⟩ <;>
      rcases recorded row' member' with old' | ⟨named', -, label'⟩
    · exact published.uniform row old row' old' same
    · exact (others row old (same.symm.trans named')).elim
    · exact (others row' old' (same.trans named)).elim
    · rw [label, label']
  · rcases recorded row member with old | ⟨-, owner, label⟩
    · obtain ⟨op, found, succeeded⟩ := published.result row old labelled
      exact path.keeps_succeeded found succeeded
    · obtain ⟨op, found, succeeded, -⟩ := succeeds (label.symm.trans labelled)
      exact ⟨op, by rw [owner, found], succeeded⟩
  · have found := Table.find?_of_mem member
    by_cases mine : disposition = .result ∧ op.operationId = a.attempt.operationId
    · obtain ⟨op', found', -, result⟩ := succeeds mine.1
      rw [key_operation, mine.2, found', Option.some.injEq] at found
      subst found
      exact ⟨_, commits.recorded.new artifact List.mem_cons_self, mine.2.symm, mine.1, result⟩
    · rcases commits.kept found (fun labelled here => mine ⟨labelled, here⟩) with
        ⟨old, before, same, was⟩ | ⟨-, -, fresh⟩
      · obtain ⟨row, rowMem, named, labelled, result⟩ :=
          published.succeeded old (Table.mem_of_find? before) (was succeeded)
        refine ⟨row, commits.recorded.old row rowMem, named.trans ?_, labelled, same.trans result⟩
        exact Table.key_of_find? before
      · exact (fresh succeeded).elim
  · have found := Table.find?_of_mem member
    have other : disposition = .result → op.operationId ≠ a.attempt.operationId := by
      intro labelled here
      obtain ⟨op', found', succeeded, -⟩ := succeeds labelled
      rw [key_operation, here, found', Option.some.injEq] at found
      exact pending (found ▸ succeeded)
    rcases commits.kept found other with ⟨old, before, same, -⟩ | ⟨-, fresh, -⟩
    · rw [same]
      refine published.unpublished old (Table.mem_of_find? before) fun succeeded => ?_
      obtain ⟨op', found', succeeded'⟩ := path.keeps_succeeded before succeeded
      rw [Option.some.inj (found.symm.trans found')] at pending
      exact pending succeeded'
    · exact fresh

/-- A request publishes nothing, or it is a `commit_result` that commits an attempt. -/
theorem Request.results_cases (request : Request) (valid : d.book.Valid) :
    resultsKept.Keeps d (request.after sha256 d) ∨
      ∃ env reservation artifact usage attachments a disposition,
        request = .call env (.commitResult reservation artifact usage attachments) ∧ Joins d a ∧
        a.attempt.attemptId = reservation.attemptId ∧ a.attempt.state = .backendFinished ∧
        Commits a artifact attachments disposition d (request.after sha256 d) := by
  by_cases commits : ∃ env reservation artifact usage attachments,
      request = .call env (.commitResult reservation artifact usage attachments)
  · obtain ⟨env, reservation, artifact, usage, attachments, rfl⟩ := commits
    unfold Request.after
    split
    · next reply d' ran =>
      rcases ensures_reply (commitResult_commits valid reservation artifact usage attachments)
        reply d' ran with ⟨rfl, -⟩ | ⟨a, disposition, joins, named, state, commits⟩
      · exact Or.inl (RowChange.Keeps.refl _ _)
      · exact Or.inr ⟨env, reservation, artifact, usage, attachments, a, disposition, rfl, joins,
          named, state, commits⟩
    · exact Or.inl (RowChange.Keeps.refl _ _)
  · refine Or.inl (request.keeps_of_code fun env asked asks => call_keepsResults asked ?_)
    rintro reservation artifact usage attachments rfl
    obtain ⟨env', rfl⟩ := Request.eq_call_of_asks asks trivial
    exact commits ⟨env', reservation, artifact, usage, attachments, rfl⟩

/-- Every request keeps results, artifacts and states in agreement. -/
theorem Request.published_after (request : Request) (valid : d.book.Valid)
    (published : d.Published) : (request.after sha256 d).Published := by
  have path : Path (request.allows d) d.book (request.after sha256 d).book :=
    request.refines valid
  rcases @Request.results_cases sha256 d request valid with
    keeps | ⟨_, _, _, _, _, _, _, -, joins, -, state, commits⟩
  · exact published.of_keeps valid path keeps
  · exact published.of_commits valid path joins state commits

/-- Artifacts and results of a ledger are still there in a later one. -/
structure Db.Remembers (d d' : Db) : Prop where
  artifact : ∀ row ∈ d.artifacts.rows, row ∈ d'.artifacts.rows
  operation : ∀ id op, d.operations.find? id = some op → ∃ op',
    d'.operations.find? id = some op'
  result : ∀ id op, d.operations.find? id = some op → op.state = .succeeded → ∃ op',
    d'.operations.find? id = some op' ∧ op'.state = .succeeded ∧ op'.result = op.result

theorem Db.Remembers.refl (d : Db) : d.Remembers d :=
  ⟨fun _ => id, fun _ op found => ⟨op, found⟩,
    fun _ op found succeeded => ⟨op, found, succeeded, rfl⟩⟩

theorem Db.Remembers.trans {d'' : Db} (first : d.Remembers d') (second : d'.Remembers d'') :
    d.Remembers d'' where
  artifact row member := second.artifact row (first.artifact row member)
  operation id op found := by
    obtain ⟨op', found'⟩ := first.operation id op found
    exact second.operation id op' found'
  result id op found succeeded := by
    obtain ⟨op', found', succeeded', same⟩ := first.result id op found succeeded
    obtain ⟨op'', found'', succeeded'', same'⟩ := second.result id op' found' succeeded'
    exact ⟨op'', found'', succeeded'', same'.trans same⟩

/-- No request takes back an artifact or a result. -/
theorem Request.remembers (request : Request) (valid : d.book.Valid) :
    d.Remembers (request.after sha256 d) := by
  have path : Path (request.allows d) d.book (request.after sha256 d).book :=
    request.refines valid
  have operation : ∀ id op, d.operations.find? id = some op → ∃ op',
      (request.after sha256 d).operations.find? id = some op' := by
    intro id op found
    obtain ⟨task, found', -⟩ := path.keeps_task (Db.book_task_of_found found)
    obtain ⟨op', known, -⟩ := Option.map_eq_some_iff.mp found'
    exact ⟨op', known⟩
  rcases @Request.results_cases sha256 d request valid with
    keeps | ⟨_, _, _, _, _, a, disposition, -, joins, -, -, commits⟩
  · refine ⟨fun row => (mem_artifacts_of_keeps keeps.right row).mpr, operation,
      fun id op found succeeded => ?_⟩
    obtain ⟨op', found', same, -⟩ :=
      RowGrowth.follows_of_keeps (T := trackedOperations) keeps.left found
    obtain ⟨op'', found'', succeeded'⟩ := path.keeps_succeeded found succeeded
    obtain rfl : op' = op'' := Option.some.inj (found'.symm.trans found'')
    exact ⟨op', found', succeeded', same⟩
  · refine ⟨commits.recorded.old, operation, fun id op found succeeded => ?_⟩
    obtain ⟨op', found', succeeded'⟩ := path.keeps_succeeded found succeeded
    have other : disposition = .result → id ≠ a.attempt.operationId := by
      rintro labelled rfl
      have pending := (commits.result labelled).1
      rw [joins.operation, Option.some.injEq] at found
      rw [found, succeeded] at pending
      cases pending
    rcases commits.kept found' other with ⟨old, before, same, -⟩ | ⟨absent, -⟩
    · obtain rfl : old = op := Option.some.inj (before.symm.trans found)
      exact ⟨op', found', succeeded', same⟩
    · rw [found] at absent
      cases absent

theorem Request.remembers_all (requests : List Request) (valid : d.book.Valid) :
    d.Remembers (Request.afterAll sha256 requests d) := by
  induction requests generalizing d with
  | nil => exact Db.Remembers.refl d
  | cons request rest ih =>
    have path : Path (request.allows d) d.book (request.after sha256 d).book :=
      request.refines valid
    exact (request.remembers valid).trans (ih (path.valid valid))

theorem Request.published_afterAll (requests : List Request) (valid : d.book.Valid)
    (published : d.Published) : (Request.afterAll sha256 requests d).Published := by
  induction requests generalizing d with
  | nil => exact published
  | cons request rest ih =>
    have path : Path (request.allows d) d.book (request.after sha256 d).book :=
      request.refines valid
    exact ih (path.valid valid) (request.published_after valid published)

theorem Reachable.published (reached : Reachable sha256 authority d) : d.Published := by
  induction reached with
  | empty => exact Db.empty_published authority
  | step reached request ih => exact request.published_after reached.valid ih

theorem Reachable.sealed (reached : Reachable sha256 authority d) : d.book.Sealed := by
  induction reached with
  | empty => exact Db.empty_sealed authority
  | step reached request ih => exact (reached.refines request).sealed reached.valid ih

end Steps

/-! ### One result -/

/-- The committed attempts of an operation. -/
def Db.committedOf (d : Db) (operationId : String) : List AttemptRow :=
  d.attempts.rows.filter fun a => a.operationId = operationId && a.state = .resultCommitted

/-- The artifacts of an attempt. -/
def Db.artifactsOf (d : Db) (attemptId : String) : List ArtifactRow :=
  d.artifacts.rows.filter fun row => row.attemptId = attemptId

/-- The artifacts of an attempt are labelled as the result. -/
def Db.holdsResult (d : Db) (a : AttemptRow) : Prop :=
  d.artifactsOf a.attemptId ≠ [] ∧
    ∀ row ∈ d.artifactsOf a.attemptId, row.disposition = .result

section Results

variable {sha256 : String → String} {authority : Authority} {env : Env} {d : Db}

theorem Db.mem_committedOf {a : AttemptRow} {operationId : String} :
    a ∈ d.committedOf operationId ↔
      a ∈ d.attempts.rows ∧ a.operationId = operationId ∧ a.state = .resultCommitted := by
  unfold Db.committedOf
  rw [List.mem_filter, Bool.and_eq_true, decide_eq_true_eq, decide_eq_true_eq]

theorem Db.mem_artifactsOf {row : ArtifactRow} {attemptId : String} :
    row ∈ d.artifactsOf attemptId ↔ row ∈ d.artifacts.rows ∧ row.attemptId = attemptId := by
  unfold Db.artifactsOf
  rw [List.mem_filter, decide_eq_true_eq]

/-- The attempt that an artifact of an operation belongs to is committed. -/
theorem Db.Published.committed (published : d.Published) {row : ArtifactRow}
    (member : row ∈ d.artifacts.rows) :
    ∃ a ∈ d.committedOf row.operationId, a.attemptId = row.attemptId := by
  obtain ⟨a, found, same, committed⟩ := published.artifact row member
  exact ⟨a, Db.mem_committedOf.mpr ⟨Table.mem_of_find? found, same, committed⟩,
    Table.key_of_find? found⟩

/-- One artifact labelled as the result speaks for all artifacts of its attempt. -/
theorem Db.Published.holdsResult (published : d.Published) {row : ArtifactRow}
    (member : row ∈ d.artifacts.rows) (labelled : row.disposition = .result) {a : AttemptRow}
    (named : a.attemptId = row.attemptId) : d.holdsResult a := by
  refine ⟨List.ne_nil_of_mem (Db.mem_artifactsOf.mpr ⟨member, named.symm⟩), fun other mine => ?_⟩
  obtain ⟨otherMem, same⟩ := Db.mem_artifactsOf.mp mine
  rw [published.uniform row member other otherMem (same.trans named), labelled]

/-- Committed attempts of one operation are the same attempt. -/
theorem Book.Sealed.unique (sealed : d.book.Sealed) {a a' : AttemptRow} {operationId : String}
    (member : a ∈ d.committedOf operationId) (member' : a' ∈ d.committedOf operationId) :
    a = a' := by
  obtain ⟨inTable, named, committed⟩ := Db.mem_committedOf.mp member
  obtain ⟨inTable', named', committed'⟩ := Db.mem_committedOf.mp member'
  rcases sealed.only a' inTable' committed' a inTable (named.trans named'.symm) with
    same | ⟨-, open_⟩
  · exact same
  · exact (open_ committed).elim

/-- An operation without a result keeps the artifacts of its attempts as late ones. -/
theorem Db.Published.late (published : d.Published) (sealed : d.book.Sealed) {row : ArtifactRow}
    (member : row ∈ d.artifacts.rows) (late : row.disposition ≠ .result) {op : OperationRow}
    (found : d.operations.find? row.operationId = some op) :
    op.state ≠ .succeeded ∧ op.result = none := by
  have unsuccessful : op.state ≠ .succeeded := by
    intro succeeded
    obtain ⟨row', member', named, labelled, -⟩ :=
      published.succeeded op (Table.mem_of_find? found) succeeded
    obtain ⟨a, aMem, mine⟩ := published.committed member
    obtain ⟨a', aMem', mine'⟩ := published.committed member'
    rw [named, show op.operationId = row.operationId from Table.key_of_find? found] at aMem'
    have same : row'.attemptId = row.attemptId := by
      rw [← mine, ← mine', sealed.unique aMem aMem']
    exact late ((published.uniform row' member' row member same.symm).trans labelled)
  exact ⟨unsuccessful, published.unpublished op (Table.mem_of_find? found) unsuccessful⟩

/-- What a successful `commit_result` leaves behind for good: the committed attempt with
its artifact, which is the result of the operation exactly if it is labelled so. -/
theorem Request.committed_for_good (valid : d.book.Valid) (published : d.Published)
    (sealed : d.book.Sealed) {reservation : Reservation} {artifact : Artifact} {usage : Option ℤ}
    {attachments : List Artifact} {reply : Reply} {d₁ : Db}
    (ran : (Request.call env (.commitResult reservation artifact usage attachments)).perform
      sha256 d = .ok (reply, d₁)) (requests : List Request) :
    (∃ a, (Request.afterAll sha256 requests d₁).attempts.find? reservation.attemptId = some a ∧
      a.state = .resultCommitted) ∧
    ((∀ a, d.attempts.find? reservation.attemptId = some a → a.state ≠ .resultCommitted) →
      ∃ row ∈ (Request.afterAll sha256 requests d₁).artifacts.rows,
        row.attemptId = reservation.attemptId ∧ row.manifest = artifact ∧
        ∃ op, (Request.afterAll sha256 requests d₁).operations.find? row.operationId = some op ∧
          (row.disposition = .result → op.state = .succeeded ∧ op.result = some artifact) ∧
          (row.disposition ≠ .result → op.state ≠ .succeeded ∧ op.result = none)) := by
  have path := @Call.refines sha256 env d valid
    (.commitResult reservation artifact usage attachments) reply d₁ ran
  have valid₁ := path.valid valid
  have sealed₁ := path.sealed valid sealed
  have later := Request.afterAll_refines sha256 requests valid₁
  have after : Request.after sha256
      (.call env (.commitResult reservation artifact usage attachments)) d = d₁ := by
    rw [Request.after, ran]
  have published₁ : d₁.Published := after ▸ Request.published_after _ valid published
  have remembers : d₁.Remembers (Request.afterAll sha256 requests d₁) :=
    Request.remembers_all requests valid₁
  have committed : ∃ a, d₁.attempts.find? reservation.attemptId = some a ∧
      a.state = .resultCommitted := by
    rcases ensures_reply (commitResult_commits valid reservation artifact usage attachments) reply
      d₁ ran with ⟨rfl, committed⟩ | ⟨a, disposition, joins, named, -, commits⟩
    · exact committed
    · exact named ▸ commits.committed
  refine ⟨?_, fun first => ?_⟩
  · obtain ⟨a, found, state⟩ := committed
    exact ⟨a, later.keeps_committed valid₁ found state, state⟩
  · rcases ensures_reply (commitResult_commits valid reservation artifact usage attachments) reply
      d₁ ran with ⟨-, a, found, state⟩ | ⟨a, disposition, joins, named, -, commits⟩
    · exact (first a found state).elim
    · have member := commits.recorded.new artifact List.mem_cons_self
      have member' := remembers.artifact _ member
      obtain ⟨task, known, -⟩ := path.keeps_task joins.task
      obtain ⟨op₁, found₁, -⟩ := Option.map_eq_some_iff.mp known
      obtain ⟨op, found⟩ := remembers.operation _ op₁ found₁
      refine ⟨_, member', named, rfl, op, found, fun labelled => ?_, fun late => ?_⟩
      · obtain ⟨-, _, -, ⟨op', found', succeeded, result⟩, -⟩ := commits.result labelled
        obtain ⟨op'', found'', succeeded'', same⟩ := remembers.result _ op' found' succeeded
        obtain rfl : op = op'' := Option.some.inj (found.symm.trans found'')
        exact ⟨succeeded'', same.trans result⟩
      · exact (Request.published_afterAll requests valid₁ published₁).late
          (later.sealed valid₁ sealed₁) member' late found

/-- In every reachable ledger an operation has at most one committed attempt, which ends
it, and it has succeeded exactly if the artifacts of that attempt are labelled as its
result. All other artifacts are labelled late and are not its result. What a
`commit_result` publishes stays published, and repeating it changes nothing. -/
theorem Reachable.one_result (reached : Reachable sha256 authority d) :
    (∀ op ∈ d.operations.rows,
      (d.committedOf op.operationId).length ≤ 1 ∧
      (∀ a ∈ d.committedOf op.operationId, op.state.terminal = true) ∧
      (op.state = .succeeded ↔ ∃ a ∈ d.committedOf op.operationId, d.holdsResult a) ∧
      (∀ a ∈ d.committedOf op.operationId, d.holdsResult a →
        ∃ row ∈ d.artifactsOf a.attemptId, op.result = some row.manifest) ∧
      (∀ row ∈ d.artifacts.rows, row.operationId = op.operationId →
        (∃ a ∈ d.committedOf op.operationId, a.attemptId = row.attemptId ∧ d.holdsResult a) ∨
        ((row.disposition = .lateCancelled ∨ row.disposition = .lateTerminal) ∧
          op.state ≠ .succeeded ∧ op.result = none))) ∧
    ∀ env reservation artifact usage attachments reply d₁,
      (Request.call env (.commitResult reservation artifact usage attachments)).perform sha256 d =
          .ok (reply, d₁) →
      ∀ requests,
        let last := Request.afterAll sha256 requests d₁
        ((∀ a, d.attempts.find? reservation.attemptId = some a → a.state ≠ .resultCommitted) →
          ∃ row ∈ last.artifacts.rows,
            row.attemptId = reservation.attemptId ∧ row.manifest = artifact ∧
            ∃ op, last.operations.find? row.operationId = some op ∧
              (row.disposition = .result → op.state = .succeeded ∧ op.result = some artifact) ∧
              (row.disposition ≠ .result → op.state ≠ .succeeded ∧ op.result = none)) ∧
        ∀ env' usage' attachments',
          (Request.call env' (.commitResult reservation artifact usage' attachments')).after
            sha256 last = last := by
  have published := reached.published
  have sealed := reached.sealed
  refine ⟨fun op member => ?_, fun env reservation artifact usage attachments reply d₁ ran
    requests => ?_⟩
  · have found := Table.find?_of_mem member
    rw [key_operation] at found
    have holder : op.state = .succeeded → ∃ a ∈ d.committedOf op.operationId, d.holdsResult a ∧
        ∃ row ∈ d.artifactsOf a.attemptId, op.result = some row.manifest := by
      intro succeeded
      obtain ⟨row, rowMem, named, labelled, result⟩ := published.succeeded op member succeeded
      obtain ⟨a, aMem, mine⟩ := published.committed rowMem
      exact ⟨a, named ▸ aMem, published.holdsResult rowMem labelled mine, row,
        Db.mem_artifactsOf.mpr ⟨rowMem, mine.symm⟩, result⟩
    have success : ∀ a ∈ d.committedOf op.operationId, d.holdsResult a → op.state = .succeeded := by
      intro a aMem holds
      obtain ⟨row, mine⟩ := List.exists_mem_of_ne_nil _ holds.1
      obtain ⟨rowMem, named⟩ := Db.mem_artifactsOf.mp mine
      obtain ⟨op', found', succeeded⟩ := published.result row rowMem (holds.2 row mine)
      obtain ⟨a', aMem', named'⟩ := published.committed rowMem
      have same : a' = a := by
        have here := Table.find?_of_mem (Db.mem_committedOf.mp aMem).1
        have there := Table.find?_of_mem (Db.mem_committedOf.mp aMem').1
        rw [key_attempt, named', named] at there
        exact Option.some.inj (there.symm.trans here)
      have owner : row.operationId = op.operationId := by
        rw [← (Db.mem_committedOf.mp aMem').2.1, same, (Db.mem_committedOf.mp aMem).2.1]
      rw [owner, found, Option.some.injEq] at found'
      exact found' ▸ succeeded
    refine ⟨Table.length_filter_le_one fun a aMem a' aMem' => ?_, fun a aMem => ?_,
      ⟨fun succeeded => ?_, fun ⟨a, aMem, holds⟩ => success a aMem holds⟩,
      fun a aMem holds => ?_, fun row rowMem mine => ?_⟩
    · exact congrArg _ (sealed.unique aMem aMem')
    · obtain ⟨inTable, named, committed⟩ := Db.mem_committedOf.mp aMem
      obtain ⟨task, known, terminal⟩ := sealed.terminal a inTable committed
      rw [named, Db.book_task_of_found found, Option.some.injEq] at known
      rwa [← known] at terminal
    · obtain ⟨a, aMem, holds, -⟩ := holder succeeded
      exact ⟨a, aMem, holds⟩
    · obtain ⟨a', aMem', -, result⟩ := holder (success a aMem holds)
      rwa [sealed.unique aMem aMem']
    · by_cases labelled : row.disposition = .result
      · obtain ⟨a, aMem, named⟩ := published.committed rowMem
        exact Or.inl ⟨a, mine ▸ aMem, named, published.holdsResult rowMem labelled named⟩
      · refine Or.inr ⟨?_, published.late sealed rowMem labelled (mine ▸ found)⟩
        cases label : row.disposition with
        | result => exact (labelled label).elim
        | lateCancelled => exact Or.inl rfl
        | lateTerminal => exact Or.inr rfl
  · obtain ⟨⟨a, found, state⟩, result⟩ :=
      Request.committed_for_good reached.valid published sealed ran requests
    have path := @Call.refines sha256 env d reached.valid
      (.commitResult reservation artifact usage attachments) reply d₁ ran
    have last := (Request.afterAll_refines sha256 requests (path.valid reached.valid)).valid
      (path.valid reached.valid)
    refine ⟨result, fun env' usage' attachments' => ?_⟩
    unfold Request.after
    split
    · next reply' d' ran' =>
      exact ensures_reply (commitResult_repeated last found state artifact usage' attachments')
        reply' d' ran'
    · rfl

/-- The operation of the sample has one result. -/
theorem one_result_sample :
    ((Sample.after Sample.done).operations.find? "o").isSome = true ∧
      ((Sample.after Sample.done).committedOf "o").length ≤ 1 := by
  have isThere : ((Sample.after Sample.done).operations.find? "o").isSome = true := by
    decide +kernel
  obtain ⟨op, found⟩ := Option.isSome_iff_exists.mp isThere
  have named : op.operationId = "o" := Table.key_of_find? found
  have one := (Reachable.one_result (Sample.reachable Sample.done)).1 op (Table.mem_of_find? found)
  exact ⟨isThere, named ▸ one.1⟩

end Results

end IntramindRuntime.Ledger
