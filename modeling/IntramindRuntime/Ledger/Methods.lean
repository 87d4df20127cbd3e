import IntramindRuntime.Ledger.Refinement

/-!
# Every method of the store is a path of moves

Each method of the store, taken as one atomic transaction, is a sequence of moves
of the abstract ledger. The labels that a method may use say what it is allowed to
do with compute: `mark_send` is the only method that lets an attempt hold compute,
and the four methods that release it do so only for the attempts they name.

## Main definitions

* `Call.allows` — the labels that a method may use

## Main results

* `Call.refines`, `Request.refines` — every method call is a path of moves
* `Reachable.valid` — the invariants of the abstract ledger hold in every reachable ledger
-/

namespace IntramindRuntime.Ledger

open Library

/-- The labels of a method that touches no compute. -/
def quietly : Label → Prop := fun label => label = .quiet

theorem quietly_quiet : quietly .quiet := rfl

section Methods

variable {sha256 : String → String} {env : Env} {d : Db}

/-! ### The owner's side of an attempt -/

theorem Joins.task {a : Joined} (joins : Joins d a) :
    d.book.tasks a.attempt.operationId = some a.operation.task :=
  Db.book_task_of_found joins.operation

theorem Joins.rootId {a : Joined} (joins : Joins d a) : a.root.rootId = a.operation.rootId :=
  Table.key_of_find? joins.root

theorem Joins.named {a : Joined} (joins : Joins d a) (valid : d.book.Valid) :
    a.operation.spec.operationId = a.attempt.operationId :=
  (valid.linked.task _ _ joins.task).2.1

/-- The operation of an open attempt has ended, or it is being executed. -/
theorem Joins.busy {a : Joined} (joins : Joins d a) (valid : d.book.Valid)
    (isOpen : a.attempt.isOpen) : a.operation.state.terminal = true ∨
      a.operation.state = .executing ∨ a.operation.state = .reconciling := by
  have agrees := valid.opened _ _ joins.task
  have idle := fun waiting =>
    agrees.waiting waiting _ (Table.mem_of_find? joins.attempt) rfl isOpen
  cases state : a.operation.state <;>
    simp_all [OperationState.terminal, OperationState.waiting]

theorem computeFinished_refines (valid : d.book.Valid) (reservation : Reservation) :
    (Store.computeFinished env reservation).Ensures d fun _ d' =>
      Path (fun label => label = .quiet ∨
        (label = .release reservation.attemptId ∧ Owns d reservation)) d.book d'.book := by
  unfold Store.computeFinished
  refine Tx.Ensures.bind ((owned_spec reservation).mono ?_)
  rintro a _ ⟨rfl, joins, named, owns⟩
  split
  · exact Tx.Ensures.ret (Path.refl _)
  · next isOpen =>
    rw [← named]
    refine Tx.Ensures.update rfl (fun row found _ => Tx.Ensures.ret ?_)
      fun _ => Tx.Ensures.ret (Path.refl _)
    have same : row = a.attempt := Option.some.inj (found.symm.trans joins.attempt)
    subst same
    have consistent := valid.consistent _ (Table.mem_of_find? joins.attempt)
    have move : Move (Label.of a.attempt (a.attempt.backendFinished env.now)) _ _ :=
      .progress (b := d.book) joins.attempt ⟨rfl, rfl, rfl, rfl, rfl, rfl, rfl, rfl⟩
        (by simpa [AttemptRow.isOpen] using isOpen) rfl rfl rfl (fun h => by cases h)
        ⟨fun _ => consistent.unsettled (by simpa [AttemptRow.isOpen] using isOpen),
          fun _ => Or.inr (Or.inr (Or.inr rfl)), fun h => by cases h⟩
    refine Path.single ?_ move
    rcases Label.of_eq a.attempt (a.attempt.backendFinished env.now) with quiet | ⟨release, -⟩
    · exact Or.inl quiet
    · exact Or.inr ⟨release.trans (by rw [named]), owns⟩

/-- An attempt is rewritten without giving up or taking anything. -/
theorem quiet_progress {b : Book} {a a' : AttemptRow} {allowed : Label → Prop}
    (found : b.attempts.find? a.attemptId = some a) (same : SameAttempt a a')
    (isOpen : a.isOpen) (isOpen' : a'.isOpen) (budget : a'.budgetHeld = a.budgetHeld)
    (usage : a'.usage = a.usage) (compute : a'.computeHeld = a.computeHeld)
    (consistent : a'.Consistent) (quiet : allowed .quiet) : Path allowed b (b.putAttempt a') := by
  have label : Label.of a a' = .quiet := by simp [Label.of, compute]
  exact Path.single (label.symm ▸ quiet)
    (.progress found same isOpen isOpen' budget usage (fun h => compute ▸ h) consistent)

theorem heartbeat_refines (valid : d.book.Valid) (reservation : Reservation) :
    (Store.heartbeat env reservation).Ensures d fun _ d' => Path quietly d.book d'.book := by
  unfold Store.heartbeat
  refine Tx.Ensures.bind ((owned_spec reservation).mono ?_)
  rintro a _ ⟨rfl, joins, named, -⟩
  split
  · next state =>
    simp only [Tx.bind_eq, Tx.stmt_bind]
    refine Tx.Ensures.read rfl (ensures_when (fun _ => ?_) fun _ => Tx.Ensures.ret (Path.refl _))
    rw [← named]
    refine Tx.Ensures.update rfl (fun row found _ => Tx.Ensures.ret ?_)
      fun _ => Tx.Ensures.ret (Path.refl _)
    have same : row = a.attempt := Option.some.inj (found.symm.trans joins.attempt)
    subst same
    have consistent := valid.consistent _ (Table.mem_of_find? joins.attempt)
    have isOpen : a.attempt.isOpen := by
      cases here : a.attempt.state <;> simp_all [AttemptRow.isOpen, AttemptState.ended]
    exact quiet_progress joins.attempt ⟨rfl, rfl, rfl, rfl, rfl, rfl, rfl, rfl⟩ isOpen isOpen rfl
      rfl rfl ⟨consistent.unsettled, consistent.budget, consistent.compute⟩ rfl
  · exact Tx.Ensures.ret (Path.refl _)

theorem unknown_refines (valid : d.book.Valid) (reservation : Reservation) (reason : String) :
    (Store.unknown env reservation reason).Ensures d fun _ d' =>
      Path quietly d.book d'.book := by
  unfold Store.unknown
  refine Tx.Ensures.bind ((owned_spec reservation).mono ?_)
  rintro a _ ⟨rfl, joins, named, -⟩
  split
  · exact Tx.Ensures.ret (Path.refl _)
  · next isOpen =>
    have isOpen : a.attempt.isOpen := by simpa [AttemptRow.isOpen] using isOpen
    simp only [Tx.bind_eq, Tx.stmt_bind]
    refine Tx.Ensures.update rfl (fun row found _ => ?_) fun missing => ?_
    · have same : row = a.attempt := Option.some.inj (found.symm.trans joins.attempt)
      subst same
      have consistent := valid.consistent _ (Table.mem_of_find? joins.attempt)
      have first : Path quietly d.book (d.book.putAttempt (a.attempt.unknown env.now reason)) :=
        quiet_progress joins.attempt ⟨rfl, rfl, rfl, rfl, rfl, rfl, rfl, rfl⟩ isOpen rfl rfl rfl
          rfl ⟨fun _ => consistent.unsettled isOpen, fun _ => Or.inr (Or.inr (Or.inl rfl)),
            fun held => ⟨(consistent.compute held).1, Or.inr (Or.inr rfl)⟩⟩ rfl
      refine Tx.Ensures.bind ((expireOperation_spec _ _).mono fun expired d' after => ?_)
      rw [joins.named valid, book_write_attempt] at after
      unfold Store.when
      split
      · next decided =>
        simp only [Bool.and_eq_true, Bool.not_eq_true'] at decided
        rw [decided.1] at after
        have reached : Path quietly d.book d'.book := by rw [after]; exact first
        have task : d'.book.tasks a.attempt.operationId = some a.operation.task := by
          rw [after]; exact joins.task
        refine Tx.Ensures.update rfl (fun op found' _ => Tx.Ensures.ret ?_)
          fun _ => Tx.Ensures.ret reached
        have named' : op.operationId = a.attempt.operationId := Table.key_of_find? found'
        have equal : op.task = a.operation.task :=
          Option.some.inj ((Db.book_task_of_found found').symm.trans task)
        rw [book_write_operation]
        have busy : a.operation.state = .executing ∨ a.operation.state = .reconciling := by
          rcases joins.busy valid isOpen with ended | busy
          · simp [decided.2] at ended
          · exact busy
        have move := Move.reconcile task busy
        rw [← equal, ← named'] at move
        exact reached.trans (Path.single rfl move)
      · refine Tx.Ensures.ret ?_
        rw [after]
        split
        · exact first.trans (Book.terminate_path rfl rfl)
        · exact first
    · simpa using missing _ joins.attempt

theorem failOperation_spec {a : Joined} {reason : String} {retry : Bool} {delay : Time}
    {ended : AttemptState} (uncommitted : ended ≠ .resultCommitted)
    (task : d.book.tasks a.attempt.operationId = some a.operation.task)
    (named : a.operation.spec.operationId = a.attempt.operationId) :
    (Store.failOperation env a reason retry delay).Ensures d fun _ d' =>
      Decided a.attempt.operationId a.operation.task ended d.book d'.book := by
  have ends : ∀ state reason, state.failing = true →
      (Store.terminal env a.attempt.operationId state reason).Ensures d fun _ d' =>
        Decided a.attempt.operationId a.operation.task ended d.book d'.book :=
    fun state reason failed => (terminal_spec _ _ _).mono fun _ d' after => by
      rw [after]; exact .terminate task failed
  unfold Store.failOperation
  split
  · next terminal => exact Tx.Ensures.ret (.of_ended task terminal)
  · next pending =>
    split
    · exact ends _ _ rfl
    · split
      · exact ends _ _ rfl
      · refine Tx.Ensures.bind ((expireOperation_spec _ _).mono fun expired d' after => ?_)
        rw [named] at after
        cases expired with
        | true =>
          refine Tx.Ensures.ret ?_
          rw [after, if_pos rfl]
          exact .terminate task rfl
        | false =>
          have after : d'.book = d.book := after
          simp only [Bool.false_eq_true, if_false]
          split
          · refine Tx.Ensures.update rfl (fun op found _ => Tx.Ensures.ret ?_) fun missing => ?_
            · have named' : op.operationId = a.attempt.operationId := Table.key_of_find? found
              have equal : op.task = a.operation.task := by
                refine Option.some.inj ((Db.book_task_of_found found).symm.trans ?_)
                rw [after]; exact task
              rw [book_write_operation, after]
              have rootId := congrArg Task.rootId equal
              have spec := congrArg Task.spec equal
              exact ⟨_, congrArg (d.book.putTask · _) named', rootId, spec, Or.inr rfl,
                .of_pending (by simpa using pending) (fun here => absurd here uncommitted) nofun⟩
            · rw [← after, Db.book_tasks, Option.map_eq_some_iff] at task
              obtain ⟨op, found, -⟩ := task
              simpa using missing op found
          · refine (terminal_spec _ _ _).mono fun _ d'' after' => ?_
            rw [after', after]
            exact .terminate task rfl

theorem fail_refines (valid : d.book.Valid) (reservation : Reservation) (reason : String)
    (notSent retry : Bool) (delay : Time) :
    (Store.fail env reservation reason notSent retry delay).Ensures d fun _ d' =>
      Path (fun label => label = .quiet ∨ (label = .release reservation.attemptId ∧
        notSent = true ∧ Owns d reservation)) d.book d'.book := by
  unfold Store.fail
  refine Tx.Ensures.bind ((owned_spec reservation).mono ?_)
  rintro a _ ⟨rfl, joins, named, owns⟩
  split
  · exact Tx.Ensures.ret (Path.refl _)
  · next isOpen =>
    have isOpen : a.attempt.isOpen := by simpa [AttemptRow.isOpen] using isOpen
    refine ensures_require fun idle => ?_
    refine Tx.Ensures.mono (end_spec
      (f := AttemptRow.fail (if notSent then .failedNotSent else .failed) reason)
      valid joins.attempt isOpen joins.task joins.rootId
      (fun _ => rfl) (fun _ => ⟨rfl, rfl, rfl, rfl, rfl, rfl, rfl, rfl⟩)
      (if notSent then .failedNotSent else .failed)
      (fun _ => rfl) (by cases notSent <;> rfl) (fun _ _ => rfl) (fun _ => rfl) (fun _ => rfl)
      fun row d' task => failOperation_spec (by cases notSent <;> rintro ⟨⟩) task
        (joins.named valid)) fun _ d' ends => ?_
    refine ends.path (Or.inl rfl) fun held => Or.inr ⟨by rw [named], ?_, owns⟩
    simpa [held] using idle

theorem insertArtifacts_offBook (a : Joined) (disposition : Disposition)
    (artifacts : List Artifact) :
    (Store.insertArtifacts sha256 a disposition artifacts).Uses Sql.OffBook :=
  Tx.Uses.forEach fun _ => (uses_require _ _).bind fun _ =>
    ⟨offBook_other _, fun result => uses_accept result⟩

/-- The end of `commit_result` decides the operation: it succeeds, unless it or its
root has ended before. -/
theorem decideResult_spec {operationId : String} {artifact : Artifact} {task : Task}
    {cancelled terminated : Bool} (found : d.book.tasks operationId = some task)
    (ended : task.state.terminal = terminated) :
    (Store.decideResult env operationId artifact cancelled terminated).Ensures d
      fun _ d' => Decided operationId task .resultCommitted d.book d'.book := by
  unfold Store.decideResult
  have events : ∀ {d d' : Db}, d'.book = d.book →
      (Store.completionEvents env operationId).Ensures d' fun _ d'' => d''.book = d.book :=
    fun same => (ensures_offBook (completionEvents_offBook env operationId)).mono
      fun _ _ same' => same'.trans same
  cases terminated with
  | true =>
    refine ensures_when (fun h => by simp at h) fun _ => ensures_when (fun h => by simp at h)
      fun _ => (events rfl).mono fun _ d' same => ?_
    rw [same]
    exact .of_ended found ended
  | false =>
    cases cancelled with
    | true =>
      refine ensures_when (fun h => by simp at h) fun _ => ensures_when (fun _ => ?_)
        fun h => by simp at h
      refine Tx.Ensures.bind ((terminal_spec _ _ _).mono fun _ d' after => ?_)
      refine (events rfl).mono fun _ d'' same => ?_
      rw [same, after]
      exact .terminate found rfl
    | false =>
      refine ensures_when (fun _ => ?_) fun h => by simp at h
      refine Tx.Ensures.update rfl (fun op found' _ => ?_) fun missing => ?_
      · refine ensures_when (fun h => by simp at h) fun _ => (events rfl).mono fun _ d' same => ?_
        have named : op.operationId = operationId := Table.key_of_find? found'
        have equal : op.task = task :=
          Option.some.inj ((Db.book_task_of_found found').symm.trans found)
        have rootId := congrArg Task.rootId equal
        have spec := congrArg Task.spec equal
        rw [same, book_write_operation]
        refine ⟨_, congrArg (d.book.putTask · _) named, rootId, spec, Or.inl rfl, fun terminal => ?_,
          fun _ => rfl, fun _ => Or.inr rfl⟩
        rw [ended] at terminal
        cases terminal
      · rw [Db.book_tasks, Option.map_eq_some_iff] at found
        obtain ⟨op, found, -⟩ := found
        simpa using missing op found

theorem commitFinished_refines (valid : d.book.Valid) {a : Joined} (joins : Joins d a)
    (state : a.attempt.state = .backendFinished) (artifact : Artifact) (usage : Option ℤ)
    (attachments : List Artifact) :
    (Store.commitFinished sha256 env a artifact usage attachments).Ensures d fun _ d' =>
      Path quietly d.book d'.book ∧
        ∃ a', d'.attempts.find? a.attempt.attemptId = some a' ∧ a'.state = .resultCommitted := by
  have isOpen : a.attempt.isOpen := by simp [AttemptRow.isOpen, state, AttemptState.ended]
  have idle : a.attempt.computeHeld = false := by
    cases held : a.attempt.computeHeld with
    | false => rfl
    | true =>
      have := (valid.consistent _ (Table.mem_of_find? joins.attempt)).compute held
      simp [state] at this
  unfold Store.commitFinished
  refine Tx.Ensures.bind ((expireOperation_spec _ _).mono fun expired d₁ after => ?_)
  rw [joins.named valid] at after
  obtain ⟨task, found, rootId, spec, ended⟩ :
      ∃ task, d₁.book.tasks a.attempt.operationId = some task ∧
        task.rootId = a.operation.rootId ∧ task.spec = a.operation.spec ∧
        task.state.terminal = (expired || a.operation.state.terminal) := by
    cases expired with
    | false =>
      refine ⟨a.operation.task, ?_, rfl, rfl, rfl⟩
      rw [after]
      exact joins.task
    | true =>
      have decided : Decided a.attempt.operationId a.operation.task .failed d.book
          (d.book.terminate a.attempt.operationId .failed) := .terminate joins.task rfl
      obtain ⟨task, equal, rootId, spec, -⟩ := decided
      refine ⟨task, by rw [after, if_pos rfl, equal]; simp, rootId, spec, ?_⟩
      rw [Bool.true_or]
      cases was : a.operation.state.terminal with
      | true =>
        rw [Book.terminate_of_ended joins.task was] at equal
        have := congrFun (congrArg Book.tasks equal) a.attempt.operationId
        rw [Book.putTask_tasks, Function.update_self, joins.task, Option.some.injEq] at this
        rwa [← this]
      | false =>
        rw [Book.terminate_of_open joins.task was] at equal
        have := congrFun (congrArg Book.tasks equal) a.attempt.operationId
        rw [Book.putTask_tasks, Book.putTask_tasks, Function.update_self, Function.update_self,
          Option.some.injEq] at this
        rw [← this]
        rfl
  have reached : Path quietly d.book d₁.book := by
    rw [after]
    split
    · exact Book.terminate_path rfl rfl
    · exact Path.refl _
  have attempts : d₁.attempts = d.attempts := by
    have : d₁.book.attempts = d.book.attempts := by
      rw [after]
      split <;> simp
    exact this
  refine ensures_offBook_bind (insertArtifacts_offBook _ _ _) fun _ d₂ same => ?_
  have attempts₂ : d₂.attempts = d.attempts :=
    (congrArg Book.attempts same : d₂.attempts = d₁.attempts).trans attempts
  have found₂ : d₂.book.tasks a.attempt.operationId = some task := by rw [same]; exact found
  refine Tx.Ensures.mono (end_spec (f := AttemptRow.resultCommitted env.now)
    (same ▸ reached.valid valid) (attempts₂ ▸ joins.attempt) isOpen found₂
    (joins.rootId.trans rootId.symm) (fun _ => rfl)
    (fun _ => ⟨rfl, rfl, rfl, rfl, rfl, rfl, rfl, rfl⟩) .resultCommitted (fun _ => rfl) rfl
    (fun _ equal => equal.trans idle) (fun _ => rfl) (fun _ => rfl)
    fun row d' task => decideResult_spec task ended) fun _ d' ends => ?_
  rw [← same] at reached
  exact ⟨reached.trans (ends.path rfl fun held => by simp [idle] at held), ends.ended⟩

theorem commitResult_refines (valid : d.book.Valid) (reservation : Reservation)
    (artifact : Artifact) (usage : Option ℤ) (attachments : List Artifact) :
    (Store.commitResult sha256 env reservation artifact usage attachments).Ensures d
      fun _ d' => Path quietly d.book d'.book := by
  unfold Store.commitResult
  refine Tx.Ensures.bind ((owned_spec reservation).mono ?_)
  rintro a _ ⟨rfl, joins, named, -⟩
  split
  · simp only [Tx.bind_eq, Tx.stmt_bind]
    refine Tx.Ensures.read rfl ?_
    unfold Store.require
    split
    · exact Tx.Ensures.ret (Path.refl _)
    · exact Tx.Ensures.raise
  · refine ensures_require fun finished => ?_
    simp only [Bool.and_eq_true, decide_eq_true_eq] at finished
    exact (commitFinished_refines valid joins finished.2 artifact usage attachments).mono
      fun _ _ after => after.1

/-! ### Sending -/

theorem lockBudget_spec {root : RootRow} (spec : OperationSpec)
    (found : d.roots.find? root.rootId = some root) :
    (Store.lockBudget spec root).Ensures d fun budget d' =>
      d = d' ∧ budget = d.book.accounts root.rootId spec.budgetUnit := by
  unfold Store.lockBudget
  cases spec.budgetUnit with
  | tokens => exact Tx.Ensures.ret ⟨rfl, (Db.book_tokens_of_found found).symm⟩
  | resource unit =>
    refine Tx.Ensures.selectForUpdate rfl (Tx.Ensures.ret ⟨rfl, ?_⟩)
    rw [Access.find?_true]
    rfl

/-- Charging the tokens of a root, or a resource budget and the attempts of its root. -/
theorem chargeBudget_spec {root : RootRow} {rootId : String} {unit : BudgetUnit} {bound : ℤ}
    {account : Budget} (found : d.roots.find? rootId = some root)
    (known : d.book.accounts rootId unit = some account) :
    (Store.chargeBudget rootId unit bound).Ensures d
      fun _ d' => d'.book = d.book.putAccount rootId unit (account.charge bound) := by
  unfold Store.chargeBudget
  have named : root.rootId = rootId := Table.key_of_find? found
  subst named
  cases unit with
  | tokens =>
    refine Tx.Ensures.update rfl (fun row found' _ => Tx.Ensures.ret ?_)
      fun missing => by simpa using missing root found
    have same : row = root := Option.some.inj (found'.symm.trans found)
    subst same
    rw [Db.book_tokens_of_found found, Option.some.injEq] at known
    subst known
    exact Db.book_chargeRoot found rfl
  | resource unit =>
    simp only [Tx.bind_eq, Tx.stmt_bind]
    refine Tx.Ensures.update rfl (fun row found' _ => ?_)
      fun missing => by simpa using missing root found
    have same : row = root := Option.some.inj (found'.symm.trans found)
    subst same
    have quiet : (RowStore.apply (roots.write (row.charge 0)) d : Db).book = d.book :=
      Db.book_editRoot row found rfl (by simp [Budget.ofRoot, RootRow.charge])
    obtain ⟨budget, there, rfl⟩ := Option.map_eq_some_iff.mp known
    refine Tx.Ensures.update rfl (fun row' found'' _ => Tx.Ensures.ret ?_)
      fun missing => by simpa using missing budget there
    have same : row' = budget := Option.some.inj (found''.symm.trans there)
    subst same
    have key : (row'.rootId, row'.unit) = (row.rootId, unit) := Table.key_of_find? there
    rw [Prod.mk.injEq] at key
    rw [book_write_budget, quiet]
    change d.book.putAccount row'.rootId (.resource row'.unit) _ = _
    rw [key.1, key.2]
    rfl

theorem chargeSend_spec {a : Joined} {reservation : Reservation} {deadline : Time} :
    (Store.chargeSend env reservation a deadline).Ensures d fun _ d' =>
      ∃ account, d.book.accounts a.root.rootId a.operation.spec.budgetUnit = some account ∧
        account.spent + account.reserved + a.operation.spec.budgetBound ≤ account.limit ∧
        d'.book = d.book.putAccount a.root.rootId a.operation.spec.budgetUnit
          (account.charge a.operation.spec.budgetBound) := by
  unfold Store.chargeSend
  simp only [Tx.bind_eq, Tx.stmt_bind]
  refine Tx.Ensures.selectForUpdate rfl ?_
  rw [Access.find?_true]
  cases root_found : (roots.table d).find? a.root.rootId with
  | none => exact Tx.Ensures.raise
  | some root =>
    have root_found : d.roots.find? a.root.rootId = some root := root_found
    have named : root.rootId = a.root.rootId := Table.key_of_find? root_found
    refine Tx.Ensures.selectForUpdate rfl ?_
    rw [Access.find?_true]
    cases op_found : (operations.table d).find? a.attempt.operationId with
    | none => exact Tx.Ensures.raise
    | some op =>
      refine ensures_require fun _ => ensures_require fun _ => ?_
      refine Tx.Ensures.bind ((lockBudget_spec _ (named.symm ▸ root_found)).mono ?_)
      rintro budget d' ⟨rfl, rfl⟩
      rw [named]
      refine ensures_require fun fits => ?_
      cases known : d.book.accounts a.root.rootId a.operation.spec.budgetUnit with
      | none => simp [known] at fits
      | some account =>
        simp only [known, Option.any_some, decide_eq_true_eq] at fits
        refine Tx.Ensures.update rfl (fun op' found' _ => ?_) fun missing => ?_
        · have same : (RowStore.apply (operations.write
              { op' with attempts := op'.attempts + 1 }) d : Db).book = d.book := by
            have key : op'.operationId = a.attempt.operationId := Table.key_of_find? found'
            exact Db.book_editOperation op' (key ▸ found') rfl
          have known' : (RowStore.apply (operations.write
              { op' with attempts := op'.attempts + 1 }) d : Db).book.accounts a.root.rootId
                a.operation.spec.budgetUnit = some account := by rw [same, known]
          have root_found' : (RowStore.apply (operations.write
              { op' with attempts := op'.attempts + 1 }) d : Db).roots.find? a.root.rootId =
                some root := root_found
          refine (chargeBudget_spec root_found' known').mono fun _ d' after =>
            ⟨account, rfl, fits, ?_⟩
          rw [after, same]
        · simpa using missing op op_found

theorem markSend_refines (valid : d.book.Valid) (reservation : Reservation) :
    (Store.markSend env reservation).Ensures d fun _ d' =>
      Path (fun label => label = .quiet ∨ label = .send reservation.attemptId)
        d.book d'.book := by
  unfold Store.markSend
  refine Tx.Ensures.bind ((owned_spec reservation).mono ?_)
  rintro a _ ⟨rfl, joins, named, -⟩
  have member := Table.mem_of_find? joins.attempt
  obtain ⟨task, task_found, bound, unit⟩ := valid.linked.attempt _ member
  rw [joins.task, Option.some.injEq] at task_found
  subst task_found
  refine ensures_require fun states => ?_
  simp only [Bool.and_eq_true, decide_eq_true_eq] at states
  have unheld := ((valid.consistent _ member).uncharged states.1).1
  refine ensures_offBook_bind ?_ fun alive d' same => ?_
  · unfold Store.leaseAlive
    split
    · exact ⟨offBook_other _, fun _ => trivial⟩
    · trivial
  · refine ensures_require fun _ => ensures_when (fun _ => ?_) fun held => by simp [unheld] at held
    refine Tx.Ensures.bind ((chargeSend_spec).mono fun _ d₁ charged => ?_)
    obtain ⟨account, known, fits, after⟩ := charged
    rw [same] at known after
    have attempts : d₁.attempts = d.attempts := congrArg Book.attempts after
    simp only [Tx.bind_eq, Tx.stmt_bind]
    refine Tx.Ensures.update rfl (fun row found _ => Tx.Ensures.ret ?_) fun missing => ?_
    · have equal : row = a.attempt := by
        refine Option.some.inj (found.symm.trans ?_)
        change d₁.attempts.find? reservation.attemptId = _
        rw [attempts, ← named]
        exact joins.attempt
      subst equal
      rw [joins.rootId] at known after
      have same' : SameAttempt a.attempt (a.attempt.sendIntent env.now) :=
        ⟨rfl, rfl, rfl, rfl, rfl, rfl, rfl, rfl⟩
      have move : Move (.send a.attempt.attemptId) d.book _ :=
        .send joins.attempt same' joins.task (unit ▸ known) states.1 unheld
          (by rw [bound]; exact fits) rfl rfl rfl rfl
      rw [book_write_attempt, after, ← named]
      refine Path.single (Or.inr rfl) ?_
      convert move using 2
      rw [bound, unit]
      rfl
    · refine absurd (missing a.attempt ?_) (by simp)
      change d₁.attempts.find? reservation.attemptId = _
      rw [attempts, ← named]
      exact joins.attempt

/-! ### Reservation -/

/-- A new attempt has a new identity, or the insert is refused. -/
theorem ensures_insertAttempt {α : Type} {row : AttemptRow}
    {next : Except Violation Unit → Transaction α} {post : α → Db → Prop}
    (fresh : d.attempts.find? row.attemptId = none →
      (next (.ok ())).Ensures (RowStore.apply (attempts.write row) d) post)
    (refused : (next (.error .violation)).Ensures d post) :
    Tx.Ensures (.perform (Sql.attempt (AttemptSql.insert row)) next) d post := by
  refine Tx.Ensures.perform ?_
  simp only [Engine.exec, AttemptSql.exec]
  split
  · exact refused
  · simp only [Access.insert]
    split
    · exact refused
    · next absent => exact fresh (Option.not_isSome_iff_eq_none.mp absent)

theorem reserve_spec {pool : PoolRow} {ownerId : String} {candidate : Candidate} {root : RootRow}
    {op : OperationRow} {task : Task}
    (found : d.book.tasks candidate.operation.spec.operationId = some task)
    (waiting : task.state.waiting = true) (spec : task.spec = candidate.operation.spec)
    (epoch : d.book.epochs pool.poolId = some pool.engineEpoch) :
    (Store.reserve env pool ownerId candidate root op).Ensures d fun _ d' =>
      Path quietly d.book d'.book := by
  unfold Store.reserve
  simp only [Tx.bind_eq, Tx.stmt_bind]
  refine Tx.Ensures.read rfl ?_
  refine ensures_insertAttempt (fun fresh => ?_) Tx.Ensures.raise
  refine Tx.Ensures.update rfl (fun row found' _ => ?_) fun missing => ?_
  · have named : row.operationId = candidate.operation.spec.operationId :=
      Table.key_of_find? found'
    have equal : row.task = task :=
      Option.some.inj ((Db.book_task_of_found (d := d) found').symm.trans found)
    refine ensures_offBook_perform (offBook_serve _ _) fun _ d' same => Tx.Ensures.ret ?_
    rw [same, book_write_operation, book_write_attempt]
    refine Path.single rfl ?_
    subst equal
    have move := Move.reserve (b := d.book) found waiting fresh rfl rfl rfl rfl
      (congrArg OperationSpec.budgetBound spec).symm (congrArg OperationSpec.budgetUnit spec).symm
      epoch
    rw [← named] at move ⊢
    exact move
  · rw [Db.book_tasks, Option.map_eq_some_iff] at found
    obtain ⟨row, found, -⟩ := found
    simpa using missing row found

theorem findBudget_offBook (spec : OperationSpec) (root : RootRow) :
    (Store.findBudget spec root).Uses Sql.OffBook := by
  unfold Store.findBudget
  cases spec.budgetUnit with
  | tokens => trivial
  | resource unit => exact ⟨offBook_of_writes fun _ => rfl, fun _ => trivial⟩

theorem terminal_refines {allowed : Label → Prop} (quiet : allowed .quiet) (operationId : String)
    {state : OperationState} (failed : state.failing = true) (reason : String) :
    (Store.terminal env operationId state reason).Ensures d fun _ d' =>
      Path allowed d.book d'.book :=
  (terminal_spec _ _ _).mono fun _ d' after => by
    rw [after]
    exact Book.terminate_path quiet failed

theorem expireOperation_refines {allowed : Label → Prop} (quiet : allowed .quiet)
    (spec : OperationSpec) (observedAt : Time) :
    (Store.expireOperation env spec observedAt).Ensures d fun expired d' =>
      Path allowed d.book d'.book ∧ (expired = false → d'.book = d.book) :=
  (expireOperation_spec _ _).mono fun expired d' after => by
    cases expired with
    | false => exact ⟨after ▸ Path.refl _, fun _ => after⟩
    | true =>
      rw [after, if_pos rfl]
      exact ⟨Book.terminate_path quiet rfl, fun h => by cases h⟩

theorem tryCandidate_refines {pool : PoolRow} {ownerId : String} {candidate : Candidate}
    {root : RootRow} {op : OperationRow} {task : Task}
    (found : d.book.tasks candidate.operation.spec.operationId = some task)
    (waiting : task.state.waiting = true) (spec : task.spec = candidate.operation.spec)
    (epoch : d.book.epochs pool.poolId = some pool.engineEpoch) :
    (Store.tryCandidate env pool ownerId candidate root op).Ensures d fun _ d' =>
      Path quietly d.book d'.book := by
  unfold Store.tryCandidate
  refine Tx.Ensures.bind ((expireOperation_refines quietly_quiet _ _).mono ?_)
  rintro expired d' ⟨path, same⟩
  split
  · exact Tx.Ensures.ret path
  · next open_ =>
    have same : d'.book = d.book := same (by simpa using open_)
    clear path open_
    split
    · exact Tx.Ensures.ret (same ▸ Path.refl _)
    · refine ensures_offBook_bind (findBudget_offBook _ _) fun budget d'' same' => ?_
      have same : d''.book = d.book := same'.trans same
      cases budget with
      | none =>
        refine Tx.Ensures.bind ((terminal_refines quietly_quiet _ rfl _).mono fun _ d' path => ?_)
        exact Tx.Ensures.ret (same ▸ path)
      | some budget =>
        simp only
        split
        · refine Tx.Ensures.bind ((terminal_refines quietly_quiet _ rfl _).mono fun _ d' path => ?_)
          exact Tx.Ensures.ret (same ▸ path)
        · split
          · refine ensures_offBook_perform (offBook_awaitBudget _) fun _ d' same' => ?_
            exact Tx.Ensures.ret (same'.trans same ▸ Path.refl _)
          · rw [← same] at found epoch ⊢
            exact reserve_spec found waiting spec epoch

/-- What a candidate of an earlier scan still is: an operation with the same
specification. -/
def Candidate.Known (candidate : Candidate) (b : Book) : Prop :=
  ∃ task, b.tasks candidate.operation.operationId = some task ∧
    task.spec = candidate.operation.spec

theorem reserveCandidate_refines {pool : PoolRow} {ownerId : String} {candidate : Candidate}
    (valid : d.book.Valid) (known : candidate.Known d.book)
    (epoch : d.book.epochs pool.poolId = some pool.engineEpoch) :
    (Store.reserveCandidate env pool ownerId candidate).Ensures d fun _ d' =>
      Path quietly d.book d'.book := by
  obtain ⟨task, found, spec⟩ := known
  have named : candidate.operation.spec.operationId = candidate.operation.operationId :=
    spec ▸ (valid.linked.task _ _ found).2.1
  unfold Store.reserveCandidate
  simp only [Tx.bind_eq, Tx.stmt_bind]
  refine Tx.Ensures.selectForUpdate rfl ?_
  split
  · exact Tx.Ensures.ret (Path.refl _)
  · split
    · exact Tx.Ensures.ret (Path.refl _)
    · refine Tx.Ensures.selectForUpdate rfl ?_
      rw [Access.find?_true]
      split
      · exact Tx.Ensures.ret (Path.refl _)
      · next op found' =>
        split
        · exact Tx.Ensures.ret (Path.refl _)
        · next waiting =>
          have equal : op.task = task :=
            Option.some.inj ((Db.book_task_of_found (d := d) found').symm.trans found)
          refine tryCandidate_refines (named ▸ found) ?_ spec epoch
          subst equal
          simp only [Bool.or_eq_true, not_or] at waiting
          simpa using waiting.1

theorem reserveFrom_refines {pool : PoolRow} {ownerId : String} {candidates : List Candidate}
    (valid : d.book.Valid) (known : ∀ candidate ∈ candidates, candidate.Known d.book)
    (epoch : d.book.epochs pool.poolId = some pool.engineEpoch) :
    (Store.reserveFrom env pool ownerId candidates).Ensures d fun _ d' =>
      Path quietly d.book d'.book := by
  induction candidates generalizing d with
  | nil => exact Tx.Ensures.ret (Path.refl _)
  | cons candidate rest ih =>
    refine Tx.Ensures.bind ((reserveCandidate_refines valid
      (known candidate List.mem_cons_self) epoch).mono fun reserved d' path => ?_)
    cases reserved with
    | some reservation => exact Tx.Ensures.ret path
    | none =>
      refine (ih (path.valid valid) (fun other member => ?_) ?_).mono fun _ d'' rest =>
        path.trans rest
      · obtain ⟨task, found, spec⟩ := known other (List.mem_cons_of_mem _ member)
        obtain ⟨task', found', -, spec'⟩ := path.keeps_task found
        exact ⟨task', found', spec'.trans spec⟩
      · rw [path.keeps_epochs fun _ h => by cases h]
        exact epoch

theorem Db.candidates_known {pool : PoolRow} {now : Time} {ranking observed : String → Time}
    {candidate : Candidate} (member : candidate ∈ d.candidates pool now ranking observed) :
    candidate.Known d.book :=
  ⟨_, Db.book_task_of_found (Table.find?_of_mem (Db.mem_of_candidates member)), rfl⟩

theorem reserveNext_refines (valid : d.book.Valid) (poolId ownerId : String) :
    (Store.reserveNext env poolId ownerId).Ensures d fun _ d' =>
      Path quietly d.book d'.book := by
  unfold Store.reserveNext
  simp only [Tx.bind_eq, Tx.stmt_bind]
  refine Tx.Ensures.selectForUpdate rfl ?_
  rw [Access.find?_true]
  split
  · exact Tx.Ensures.ret (Path.refl _)
  · next pool found =>
    have named : pool.poolId = poolId := Table.key_of_find? found
    split
    · exact Tx.Ensures.ret (Path.refl _)
    · refine Tx.Ensures.read rfl ?_
      split
      · refine Tx.Ensures.read rfl ?_
        split
        · exact Tx.Ensures.raise
        · exact reserveFrom_refines valid (fun candidate member => Db.candidates_known member)
            (Db.book_epoch_of_found (d := d) (named ▸ found))
      · exact Tx.Ensures.ret (Path.refl _)

/-! ### Admission -/

theorem insertRoot_refines (valid : d.book.Valid) (spec : RootSpec) (limits : Authority) :
    (Store.insertRoot env spec limits).Ensures d fun _ d' => Path quietly d.book d'.book := by
  unfold Store.insertRoot
  simp only [Tx.bind_eq, Tx.stmt_bind]
  refine Tx.Ensures.read rfl (ensures_require fun _ => ensures_require fun _ => ?_)
  refine Tx.Ensures.insert rfl (fun fresh => ?_) Tx.Ensures.raise
  have unknown : d.book.running spec.rootId = none :=
    Option.map_eq_none_iff.mpr fresh
  have opened : Path quietly d.book
      (RowStore.apply (roots.write (Store.rootRow spec)) d : Db).book := by
    rw [book_write_root]
    exact Path.single quietly_quiet
      (.openRoot unknown (Int.natCast_pos.mpr spec.budgetLimit.pos))
  have unused : ∀ id task, d.book.tasks id = some task → task.rootId ≠ spec.rootId := by
    intro id task found same
    exact (valid.linked.task id task found).1 (same ▸ unknown)
  refine (Tx.Ensures.forEach (fun _ d' => Path quietly d.book d'.book ∧
    d'.book.tasks = d.book.tasks) ⟨opened, rfl⟩ fun budget _ d' reached => ?_).mono
      fun _ _ reached => reached.1
  refine Tx.Ensures.insert rfl (fun _ => Tx.Ensures.ret ⟨reached.1.trans ?_, reached.2⟩)
    Tx.Ensures.raise
  rw [book_write_budget]
  exact Path.single quietly_quiet (.openBudget (reached.2 ▸ unused)
    (Int.natCast_pos.mpr budget.2.pos))

theorem sameRoot_offBook (spec : RootSpec) (existing : RootRow) :
    (Store.sameRoot spec existing).Uses Sql.OffBook :=
  uses_require _ _

theorem root_refines (valid : d.book.Valid) (spec : RootSpec) :
    (Store.root env spec).Ensures d fun _ d' => Path quietly d.book d'.book := by
  have same : ∀ existing (d : Db), (Store.sameRoot spec existing).Ensures d
      fun _ d' => Path quietly d.book d'.book := fun existing d =>
    (ensures_offBook (sameRoot_offBook spec existing)).mono fun _ _ same => same ▸ Path.refl _
  unfold Store.root
  simp only [Tx.bind_eq, Tx.stmt_bind]
  refine Tx.Ensures.selectForUpdate rfl ?_
  split
  · exact same _ d
  · refine ensures_offBook_perform (offBook_other _) fun limits d' equal => ?_
    rw [← equal] at valid ⊢
    refine Tx.Ensures.selectForUpdate rfl ?_
    split
    · exact same _ d'
    · exact insertRoot_refines valid spec limits

theorem submitRun_refines (valid : d.book.Valid) (spec : RootSpec) (key inputDigest : String)
    (run : RunSpec) : (Store.submitRun env spec key inputDigest run).Ensures d
      fun _ d' => Path quietly d.book d'.book := by
  unfold Store.submitRun
  simp only [Tx.bind_eq, Tx.stmt_bind]
  refine ensures_offBook_perform (offBook_other _) fun _ d₁ same₁ => ?_
  refine ensures_offBook_perform (offBook_other _) fun old d₂ same₂ => ?_
  have same : d₂.book = d.book := same₂.trans same₁
  rw [← same] at valid ⊢
  cases old with
  | some old => exact ensures_require fun _ => Tx.Ensures.ret (Path.refl _)
  | none =>
    refine Tx.Ensures.bind ((root_refines valid spec).mono fun _ d₃ path => ?_)
    refine ensures_offBook_perform (offBook_other _) fun inserted d₄ same₄ => ?_
    refine ensures_offBook_bind (uses_accept _) fun _ d₅ same₅ => ?_
    refine ensures_offBook_bind (event_offBook ..) fun _ d₆ same₆ => Tx.Ensures.ret ?_
    rw [same₆, same₅, same₄]
    exact path

theorem acceptsUnit_offBook (root : RootRow) (unit : BudgetUnit) :
    (Store.acceptsUnit root unit).Uses Sql.OffBook := by
  cases unit with
  | tokens => trivial
  | resource unit => exact uses_require _ _

theorem admitOperation_refines {spec : OperationSpec} {root : RootRow}
    (known : d.book.running spec.rootId ≠ none) :
    (Store.admitOperation env spec root).Ensures d fun _ d' => Path quietly d.book d'.book := by
  unfold Store.admitOperation
  simp only [Tx.bind_eq, Tx.stmt_bind]
  refine ensures_require fun _ => ?_
  refine ensures_offBook_bind (acceptsUnit_offBook _ _) fun _ d₁ same₁ => ?_
  refine ensures_offBook_perform (offBook_other _) fun _ d₂ same₂ => ?_
  refine ensures_offBook_perform (offBook_other _) fun _ d₃ same₃ => ?_
  refine Tx.Ensures.read rfl ?_
  refine ensures_offBook_perform (offBook_other _) fun _ d₄ same₄ => ?_
  have same : d₄.book = d.book := ((same₄.trans same₃).trans same₂).trans same₁
  rw [← same] at known ⊢
  refine ensures_require fun _ => ensures_require fun _ => ?_
  refine Tx.Ensures.insert rfl (fun fresh => ?_) Tx.Ensures.raise
  have opened : Path quietly d₄.book
      (RowStore.apply (operations.write (Store.operationRow env spec)) d₄ : Db).book := by
    rw [book_write_operation]
    exact Path.single quietly_quiet
      (.openTask (Option.map_eq_none_iff.mpr fresh) known rfl rfl)
  refine ensures_offBook_perform (offBook_countOperation _) fun _ d₅ same₅ => ?_
  refine Tx.Ensures.bind ((expireOperation_refines quietly_quiet _ _).mono fun _ d₆ expired => ?_)
  exact Tx.Ensures.ret (opened.trans (same₅ ▸ expired.1))

theorem submitOperation_refines (spec : OperationSpec) :
    (Store.submitOperation sha256 env spec).Ensures d fun _ d' =>
      Path quietly d.book d'.book := by
  unfold Store.submitOperation
  simp only [Tx.bind_eq, Tx.stmt_bind]
  refine ensures_require fun _ => ?_
  refine ensures_offBook_perform (offBook_of_writes fun _ => rfl) fun _ d' same => ?_
  rw [← same]
  refine Tx.Ensures.read rfl ?_
  split
  · exact ensures_require fun _ => Tx.Ensures.ret (Path.refl _)
  · refine Tx.Ensures.selectForUpdate rfl ?_
    split
    · exact Tx.Ensures.raise
    · next root found =>
      have found := (Access.find?_eq_some_iff.mp found).1
      refine admitOperation_refines ?_
      rw [Db.book_running_of_found (d := d') found]
      simp

/-- What a configuration counts at a pool includes all compute held there. -/
theorem Db.unsettled_eq_zero {poolId : String} (settled : d.unsettled poolId = 0)
    {a : AttemptRow} (member : a ∈ d.attempts.rows) (here : a.poolId = poolId) :
    a.computeHeld = false := by
  simp only [Db.unsettled, Nat.add_eq_zero_iff, List.length_eq_zero_iff,
    List.filter_eq_nil_iff] at settled
  have := settled.1 a member
  simp only [here, decide_true, Bool.true_and, Bool.or_eq_true, not_or] at this
  simpa using this.1

theorem configurePool_refines (valid : d.book.Valid) (spec : PoolSpec) (groupCeiling : ℤ) :
    (Store.configurePool spec groupCeiling).Ensures d fun _ d' =>
      Path (fun label => label = .quiet ∨ label = .configure spec.poolId) d.book d'.book := by
  unfold Store.configurePool
  simp only [Tx.bind_eq, Tx.stmt_bind]
  refine ensures_require fun _ => ?_
  refine ensures_offBook_perform (offBook_configureGroup _ _) fun _ d₁ same => ?_
  rw [← same] at valid ⊢
  have configure : ∀ {row : PoolRow}, row.poolId = spec.poolId →
      row.engineEpoch = spec.engineEpoch →
      (d₁.book.epochs spec.poolId = some spec.engineEpoch ∨
        ∀ a ∈ d₁.attempts.rows, a.poolId = spec.poolId → a.computeHeld = false) →
      Path (fun label => label = .quiet ∨ label = .configure spec.poolId) d₁.book
        (RowStore.apply (pools.write row) d₁ : Db).book := by
    intro row poolId epoch free
    rw [book_write_pool, poolId, epoch]
    exact Path.single (Or.inr rfl) (.configure free)
  refine Tx.Ensures.selectForUpdate rfl ?_
  rw [Access.find?_true]
  refine ensures_when (fun _ => ?_) fun unchanged => ?_
  · refine Tx.Ensures.read rfl (ensures_require fun settled => ?_)
    have settled : d₁.unsettled spec.poolId = 0 := by simpa using settled
    have free := fun a member here => Db.unsettled_eq_zero settled (a := a) member here
    exact Tx.Ensures.upsert rfl
      (fun _ => Tx.Ensures.ret (configure rfl rfl (Or.inr free)))
      (fun old found _ => Tx.Ensures.ret
        (configure (Table.key_of_find? found) rfl (Or.inr free)))
      (fun _ _ never => nomatch never)
  · refine Tx.Ensures.upsert rfl (fun fresh => Tx.Ensures.ret (configure rfl rfl (Or.inr ?_)))
      (fun old found _ => Tx.Ensures.ret
        (configure (Table.key_of_find? found) rfl (Or.inl ?_)))
      (fun _ _ never => nomatch never)
    · intro a member here
      refine absurd ?_ (here ▸ valid.linked.pool a member)
      exact Option.map_eq_none_iff.mpr fresh
    · have found : d₁.pools.find? spec.poolId = some old := found
      have same : old.engineEpoch = spec.engineEpoch := by
        have kept : (d₁.pools.find? spec.poolId).any (fun pool =>
          decide (pool.engineEpoch ≠ spec.engineEpoch) || decide (pool.spec ≠ spec)) = false :=
            unchanged
        rw [found] at kept
        simp only [Option.any_some, Bool.or_eq_false_iff, decide_eq_false_iff_not,
          not_not] at kept
        exact kept.1
      rw [← same]
      exact Db.book_epoch_of_found found

end Methods

end IntramindRuntime.Ledger
