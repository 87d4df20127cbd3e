import IntramindRuntime.Ledger.Methods

/-!
# Methods that end and recover work are paths of moves

The methods that end roots, take back attempts whose owner is gone, and settle
attempts whose engine has stopped. Each of them works through a list that it has
read before: its loop carries that the rows still to come are as they were read.

## Main definitions

* `Pending` — an open attempt is still as it was read

## Main results

* `reconcileAttempt_spec`, `settleStoppedAttempt_spec` — one turn of a loop, with its frame
* `reconcile_refines`, `confirmEpochStopped_refines`, … — the methods
-/

namespace IntramindRuntime.Ledger

open Library

section Recovery

variable {sha256 : String → String} {env : Env} {d : Db}

/-! ### Ending a root -/

theorem terminalAll_refines {allowed : Label → Prop} (quiet : allowed .quiet)
    (operationIds : List String) {state : OperationState} (failed : state.failing = true)
    (reason : String) :
    (Store.terminalAll env operationIds state reason).Ensures d fun _ d' =>
      Path allowed d.book d'.book :=
  Tx.Ensures.forEach (fun _ (d' : Db) => Path allowed d.book d'.book) (Path.refl _)
    fun operationId _ _ path => (terminal_refines quiet operationId failed reason).mono
      fun _ _ step => path.trans step

theorem endRoot_path (root row : RootRow) (found : d.roots.find? row.rootId = some root)
    (ended : row.state ≠ .running) (budget : Budget.ofRoot row = Budget.ofRoot root) :
    Path quietly d.book (RowStore.apply (roots.write row) d : Db).book := by
  change Path quietly d.book (Db.book { d with roots := d.roots.put row })
  rw [Db.book_endRoot found ended budget]
  refine Path.single quietly_quiet (.endRoot ?_)
  rw [Db.book_running_of_found found]
  simp

theorem cancel_refines (rootId tenantId : String) :
    (Store.cancel env rootId tenantId).Ensures d fun _ d' => Path quietly d.book d'.book := by
  unfold Store.cancel
  simp only [Tx.bind_eq, Tx.stmt_bind]
  refine Tx.Ensures.read rfl ?_
  split
  · exact Tx.Ensures.raise
  · split
    · exact Tx.Ensures.ret (Path.refl _)
    · have rest : ∀ d₁ : Db, Path quietly d.book d₁.book → Tx.Ensures
          (.perform (Sql.operation (OperationSql.pendingOf rootId)) fun ops =>
            (Store.terminalAll env ops .cancelled "user_cancelled").bind fun _ =>
            Store.event env (.cancel rootId) .cancelWorkflow rootId (.run rootId)) d₁
          fun _ d' => Path quietly d.book d'.book := by
        intro d₁ path
        refine Tx.Ensures.read rfl (Tx.Ensures.bind
          ((terminalAll_refines quietly_quiet _ rfl _).mono fun _ d₂ step => ?_))
        refine (ensures_offBook (event_offBook ..)).mono fun _ d₃ same => ?_
        exact same ▸ path.trans step
      refine Tx.Ensures.update rfl (fun root found _ => ?_) fun _ => rest d (Path.refl _)
      have named : root.rootId = rootId := Table.key_of_find? found
      exact rest _ (endRoot_path root (root.cancel env.now) (named ▸ found)
        (by simp [RootRow.cancel]) rfl)

theorem finishRoot_refines (rootId : String) {state : RootState} (ended : state ≠ .running)
    (result : Option Artifact) (reason : Option String) :
    (Store.finishRoot env rootId state result reason).Ensures d fun _ d' =>
      Path quietly d.book d'.book := by
  unfold Store.finishRoot
  simp only [Tx.bind_eq, Tx.stmt_bind]
  refine Tx.Ensures.read rfl (ensures_require fun _ => ?_)
  refine Tx.Ensures.update rfl (fun root found _ => ?_) fun _ => Tx.Ensures.raise
  have named : root.rootId = rootId := Table.key_of_find? found
  have path := endRoot_path (d := d) root
    (root.finish (env.clock .completion rootId) state result reason) (named ▸ found)
    (by unfold RootRow.finish; dsimp only; split <;> simp [ended]) rfl
  simp only
  split
  · exact Tx.Ensures.ret path
  · refine Tx.Ensures.read rfl ?_
    exact (terminalAll_refines quietly_quiet _ rfl _).mono fun _ d' step => path.trans step

theorem finishRun_refines (rootId tenantId : String) (state : RootState)
    (result : Option Artifact) (reason : Option String) :
    (Store.finishRun sha256 env rootId tenantId state result reason).Ensures d fun _ d' =>
      Path quietly d.book d'.book := by
  unfold Store.finishRun
  split
  · exact ensures_require fun _ => cancel_refines rootId tenantId
  · simp only [Tx.bind_eq, Tx.stmt_bind]
    refine ensures_require fun ended => ensures_require fun _ => ensures_require fun _ => ?_
    refine Tx.Ensures.read rfl ?_
    split
    · exact Tx.Ensures.raise
    · split
      · exact (ensures_offBook (uses_require _ _)).mono fun _ _ same => same ▸ Path.refl _
      · split
        · exact finishRoot_refines rootId (by simp) none _
        · exact finishRoot_refines rootId (by simpa using ended) result reason

/-! ### Attempts that nobody serves any more -/

/-- The root of `a` is the one it was read with, and `a` is open and as it was read. -/
structure Expired.Pending (a : Expired) (b : Book) : Prop where
  attempt : b.attempts.find? a.attempt.attemptId = some a.attempt
  isOpen : a.attempt.isOpen
  rootId : ∃ task, b.tasks a.attempt.operationId = some task ∧ task.rootId = a.rootId

/-- Requeueing decides an operation: it has ended, or waits again. -/
theorem requeue_spec {operationId : String} {task : Task}
    (found : d.book.tasks operationId = some task) :
    Tx.Ensures ((OperationSql.requeue operationId).run.bind fun _ => .ret ()) d fun _ d' =>
      Decided operationId task .failedNotSent d.book d'.book := by
  refine Tx.Ensures.update rfl (fun op found' pending => Tx.Ensures.ret ?_)
    fun missing => Tx.Ensures.ret ?_
  · have named : op.operationId = operationId := Table.key_of_find? found'
    have equal : op.task = task :=
      Option.some.inj ((Db.book_task_of_found found').symm.trans found)
    subst equal
    rw [book_write_operation]
    exact ⟨_, congrArg (d.book.putTask · _) named, rfl, rfl, Or.inr rfl,
      .of_pending (by simpa using pending) nofun nofun⟩
  · refine .of_ended found ?_
    rw [Db.book_tasks, Option.map_eq_some_iff] at found
    obtain ⟨op, found, rfl⟩ := found
    simpa using missing op found

theorem neverSent_spec {a : Expired} (valid : d.book.Valid) (pending : a.Pending d.book)
    (reserved : a.attempt.state = .reserved) :
    Tx.Ensures ((Store.settle env a.attempt a.rootId (some 0)).bind fun _ =>
      (AttemptSql.neverSent a.attempt.attemptId).run.bind fun _ =>
      (OperationSql.requeue a.attempt.operationId).run.bind fun _ => .ret ()) d
      fun _ d' => Ends a.attempt .failedNotSent d.book d'.book := by
  obtain ⟨task, found, rootId⟩ := pending.rootId
  have idle : a.attempt.computeHeld = false := by
    cases held : a.attempt.computeHeld with
    | false => rfl
    | true =>
      have := (valid.consistent _ (Table.mem_of_find? pending.attempt)).compute held
      simp [reserved] at this
  exact end_spec (f := AttemptRow.neverSent) valid pending.attempt pending.isOpen found
    rootId.symm (fun _ => rfl)
    (fun _ => ⟨rfl, rfl, rfl, rfl, rfl, rfl, rfl, rfl⟩) .failedNotSent (fun _ => rfl) rfl
    (fun _ _ => rfl) (fun _ => rfl) (fun _ => rfl) fun _ _ task_found => requeue_spec task_found

theorem lost_spec {a : Expired} (valid : d.book.Valid) (pending : a.Pending d.book) :
    Tx.Ensures ((AttemptSql.lost a.attempt.attemptId env.now).run.bind fun _ =>
      (OperationSql.lose a.attempt.operationId).run.bind fun _ => .ret ()) d
      fun _ d' => Path quietly d.book d'.book ∧ ∀ id, id ≠ a.attempt.attemptId →
        d'.book.attempts.find? id = d.book.attempts.find? id := by
  have member := Table.mem_of_find? pending.attempt
  have consistent := valid.consistent _ member
  have first : Path quietly d.book (d.book.putAttempt (a.attempt.lost env.now)) :=
    quiet_progress pending.attempt ⟨rfl, rfl, rfl, rfl, rfl, rfl, rfl, rfl⟩ pending.isOpen rfl rfl
      rfl rfl ⟨fun _ => consistent.unsettled pending.isOpen, fun _ => Or.inr (Or.inr (Or.inl rfl)),
        fun held => ⟨(consistent.compute held).1, Or.inr (Or.inr rfl)⟩⟩ quietly_quiet
  refine Tx.Ensures.update rfl (fun row found _ => ?_) fun missing => ?_
  · have same : row = a.attempt := Option.some.inj (found.symm.trans pending.attempt)
    subst same
    have frame : ∀ id, id ≠ a.attempt.attemptId →
        (d.book.putAttempt (a.attempt.lost env.now)).attempts.find? id =
          d.book.attempts.find? id :=
      fun id different => Table.find?_put_of_ne (Ne.symm different)
    refine Tx.Ensures.update rfl (fun op found' isOpen => Tx.Ensures.ret ⟨?_, frame⟩)
      fun _ => Tx.Ensures.ret ⟨first, frame⟩
    have named : op.operationId = a.attempt.operationId := Table.key_of_find? found'
    have task_found : d.book.tasks op.operationId = some op.task :=
      named ▸ Db.book_task_of_found (d := d) found'
    have agrees := valid.opened _ _ task_found
    have busy : op.state = .executing ∨ op.state = .reconciling := by
      have idle := fun waiting => agrees.waiting waiting _ member named.symm pending.isOpen
      cases state : op.state <;>
        simp_all [OperationState.terminal, OperationState.waiting]
    rw [book_write_operation]
    exact first.trans (Path.single quietly_quiet
      (.reconcile (b := d.book.putAttempt (a.attempt.lost env.now)) task_found busy))
  · simpa using missing _ pending.attempt

theorem reconcileAttempt_spec {a : Expired} (valid : d.book.Valid) (pending : a.Pending d.book) :
    (Store.reconcileAttempt env a).Ensures d fun _ d' =>
      Path quietly d.book d'.book ∧ ∀ id, id ≠ a.attempt.attemptId →
        d'.book.attempts.find? id = d.book.attempts.find? id := by
  unfold Store.reconcileAttempt
  split
  · next reserved =>
    refine Tx.Ensures.mono (neverSent_spec valid pending reserved) fun _ d' ends =>
      ⟨ends.path quietly_quiet fun held => ?_, ends.attempts⟩
    have := (valid.consistent _ (Table.mem_of_find? pending.attempt)).compute held
    simp [reserved] at this
  · exact lost_spec valid pending

theorem reconcileAll_refines {expired : List Expired} (valid : d.book.Valid)
    (pending : ∀ a ∈ expired, a.Pending d.book)
    (nodup : (expired.map fun a => a.attempt.attemptId).Nodup) :
    (Tx.forEach expired (Store.reconcileAttempt env)).Ensures d fun _ d' =>
      Path quietly d.book d'.book := by
  refine (Tx.Ensures.forEach (fun rest (d' : Db) => Path quietly d.book d'.book ∧
    (∀ a ∈ rest, a.Pending d'.book) ∧ (rest.map fun a => a.attempt.attemptId).Nodup)
    ⟨Path.refl _, pending, nodup⟩ fun a rest d₁ reached => ?_).mono fun _ _ reached => reached.1
  obtain ⟨path, pending, nodup⟩ := reached
  rw [List.map_cons, List.nodup_cons] at nodup
  refine (reconcileAttempt_spec (path.valid valid) (pending a List.mem_cons_self)).mono
    fun _ d₂ after => ⟨path.trans after.1, fun other member => ?_, nodup.2⟩
  have before := pending other (List.mem_cons_of_mem _ member)
  obtain ⟨task, found, rootId⟩ := before.rootId
  obtain ⟨task', found', rootId', -⟩ := after.1.keeps_task found
  refine ⟨?_, before.isOpen, task', found', rootId'.trans rootId⟩
  rw [after.2 other.attempt.attemptId fun same => nodup.1 (same ▸ List.mem_map_of_mem member)]
  exact before.attempt

/-- What the selection of `reconcile_expired` returns is pending. -/
theorem Db.expired_pending {now : Time} {a : Expired} (member : a ∈ d.attempts.rows.filterMap
    fun a => ((d.operations.find? a.operationId).filter fun op => d.isExpired now a op).map
      fun op => (⟨a, op.rootId⟩ : Expired)) : a.Pending d.book := by
  obtain ⟨row, inTable, chosen⟩ := List.mem_filterMap.mp member
  obtain ⟨op, found, rfl⟩ := Option.map_eq_some_iff.mp chosen
  obtain ⟨found, expired⟩ := Option.filter_eq_some_iff.mp found
  refine ⟨Table.find?_of_mem inTable, ?_, op.task, Db.book_task_of_found found, rfl⟩
  simp only [Db.isExpired, Bool.and_eq_true] at expired
  have states := expired.1.2
  simp only [Bool.or_eq_true, decide_eq_true_eq] at states
  rcases states with ((state | state) | state) | state <;>
    simp [AttemptRow.isOpen, state, AttemptState.ended]

/-- Roots end one after the other in a single statement. -/
theorem expireRoots_path {now : Time} {expired : List RootRow}
    (found : ∀ root ∈ expired, d.roots.find? root.rootId = some root)
    (nodup : (expired.map RootRow.rootId).Nodup) :
    Path quietly d.book
      (RowStore.applyAll (expired.map (roots.write ∘ RootRow.expire now)) d : Db).book := by
  induction expired generalizing d with
  | nil => exact Path.refl _
  | cons root rest ih =>
    rw [List.map_cons, List.nodup_cons] at nodup
    have here := found root List.mem_cons_self
    rw [List.map_cons, RowStore.applyAll_cons]
    refine Path.trans (endRoot_path root (root.expire now) here (by simp [RootRow.expire]) rfl)
      (ih (fun other member => ?_) nodup.2)
    rw [← found other (List.mem_cons_of_mem _ member)]
    refine Table.find?_put_of_ne fun same => nodup.1 ?_
    have same : root.rootId = other.rootId := same
    exact same ▸ List.mem_map_of_mem member

theorem reconcile_refines (valid : d.book.Valid) :
    (Store.reconcile env).Ensures d fun _ d' => Path quietly d.book d'.book := by
  unfold Store.reconcile
  simp only [Tx.bind_eq, Tx.stmt_bind]
  refine ensures_offBook_perform (offBook_other _) fun _ d₁ same₁ => ?_
  refine ensures_offBook_perform (offBook_other _) fun direct d₂ same₂ => ?_
  refine ensures_offBook_perform (offBook_other _) fun _ d₃ same₃ => ?_
  have same : d₃.book = d.book := (same₃.trans same₂).trans same₁
  rw [← same] at valid ⊢
  clear same same₁ same₂ same₃
  refine Tx.Ensures.read rfl (Tx.Ensures.bind
    ((terminalAll_refines quietly_quiet _ rfl _).mono fun _ d₄ path₄ => ?_))
  refine Tx.Ensures.read rfl (Tx.Ensures.bind ((reconcileAll_refines (path₄.valid valid)
    (fun a member => Db.expired_pending member) ?_).mono fun _ d₅ path₅ => ?_))
  · refine Table.nodup_filterMap d₄.attempts.nodup fun row a chosen => ?_
    obtain ⟨op, -, rfl⟩ := Option.map_eq_some_iff.mp chosen
    rfl
  · refine Tx.Ensures.read rfl (Tx.Ensures.bind
      ((terminalAll_refines quietly_quiet _ rfl _).mono fun _ d₆ path₆ => ?_))
    refine Tx.Ensures.read rfl (Tx.Ensures.read rfl ?_)
    refine Tx.Ensures.bind ((Tx.Ensures.forEach
      (fun _ (d' : Db) => Path quietly d₆.book d'.book) (Path.refl _) ?_).mono
        fun _ d₇ path₇ => ?_)
    · intro op rest d' path
      split
      · exact (terminal_refines quietly_quiet _ rfl _).mono fun _ _ step => path.trans step
      · exact Tx.Ensures.ret path
    · refine Tx.Ensures.perform ?_
      refine Tx.Ensures.read rfl (Tx.Ensures.bind
        ((terminalAll_refines quietly_quiet _ rfl _).mono fun _ d₈ path₈ => Tx.Ensures.ret ?_))
      refine ((((path₄.trans path₅).trans path₆).trans path₇).trans ?_).trans path₈
      simp only [Engine.exec, RootSql.exec, Access.updateAll, Access.targets_self]
      refine expireRoots_path (fun root member => ?_) ?_
      · exact Table.find?_of_mem (List.mem_filter.mp member).1
      · exact d₇.roots.nodup.sublist (List.filter_sublist.map _)

/-! ### Attempts whose inference is proven over -/

/-- The attempt of `j` is open, and it and its operation are as they were read. -/
structure Joined.Pending (j : Joined) (b : Book) : Prop where
  attempt : b.attempts.find? j.attempt.attemptId = some j.attempt
  isOpen : j.attempt.isOpen
  task : b.tasks j.attempt.operationId = some j.operation.task
  rootId : j.root.rootId = j.operation.rootId

theorem Joins.pending {j : Joined} (joins : Joins d j) (isOpen : j.attempt.isOpen) :
    j.Pending d.book :=
  ⟨joins.attempt, isOpen, joins.task, joins.rootId⟩

theorem lockBudget_offBook (spec : OperationSpec) (root : RootRow) :
    (Store.lockBudget spec root).Uses Sql.OffBook := by
  unfold Store.lockBudget
  cases spec.budgetUnit with
  | tokens => trivial
  | resource unit => exact ⟨offBook_of_writes fun _ => rfl, fun _ => trivial⟩

theorem stopOperation_spec {j : Joined} {recover : Bool} {errorClass retryReason : String}
    (task : d.book.tasks j.attempt.operationId = some j.operation.task)
    (active : j.operation.activeAttempt = some j.attempt.attemptId)
    (pending : j.operation.state.terminal = false) :
    (Store.stopOperation env j recover errorClass retryReason).Ensures d fun _ d' =>
      Decided j.attempt.operationId j.operation.task .failed d.book d'.book := by
  unfold Store.stopOperation
  simp only [Tx.bind_eq, Tx.stmt_bind]
  refine Tx.Ensures.selectForUpdate rfl ?_
  split
  · exact Tx.Ensures.raise
  · refine ensures_offBook_bind (lockBudget_offBook _ _) fun budget d₁ same => ?_
    rw [← same] at task ⊢
    split
    · refine Tx.Ensures.update rfl (fun op found _ => Tx.Ensures.ret ?_) fun missing => ?_
      · have named : op.operationId = j.attempt.operationId := Table.key_of_find? found
        have equal : op.task = j.operation.task :=
          Option.some.inj ((Db.book_task_of_found (d := d₁) found).symm.trans task)
        have rootId := congrArg Task.rootId equal
        have spec := congrArg Task.spec equal
        rw [book_write_operation]
        exact ⟨_, congrArg (d₁.book.putTask · _) named, rootId, spec, Or.inr rfl,
          .of_pending pending nofun nofun⟩
      · rw [Db.book_tasks, Option.map_eq_some_iff] at task
        obtain ⟨op, found, equal⟩ := task
        have active' : op.activeAttempt = some j.attempt.attemptId :=
          (congrArg Task.active equal).trans active
        simpa [active'] using missing op found
    · exact (terminal_spec _ _ _).mono fun _ d₂ after => after ▸ .terminate task rfl

theorem settleStoppedAttempt_spec {j : Joined} {recover : Bool} {errorClass retryReason : String}
    (valid : d.book.Valid) (pending : j.Pending d.book) :
    (Store.settleStoppedAttempt env recover errorClass retryReason j).Ensures d fun _ d' =>
      Ends j.attempt .failed d.book d'.book := by
  have active : j.operation.activeAttempt = some j.attempt.attemptId :=
    (valid.opened _ _ pending.task).active _ (Table.mem_of_find? pending.attempt) rfl
      pending.isOpen
  unfold Store.settleStoppedAttempt
  refine end_spec (f := AttemptRow.stopped env.now errorClass) valid pending.attempt
    pending.isOpen pending.task pending.rootId (fun _ => rfl)
    (fun _ => ⟨rfl, rfl, rfl, rfl, rfl, rfl, rfl, rfl⟩) .failed (fun _ => rfl) rfl (fun _ _ => rfl)
    (fun _ => rfl) (fun _ => rfl) fun _ d' task => ?_
  split
  · next ended => exact Tx.Ensures.ret (.of_ended task ended)
  · next open_ => exact stopOperation_spec task active (by simpa using open_)

theorem settleAll_refines {stopped : List Joined} {recover : Bool}
    {errorClass retryReason : String} (allowed : Label → Prop) (valid : d.book.Valid)
    (pending : ∀ j ∈ stopped, j.Pending d.book)
    (nodup : (stopped.map fun j => j.attempt.attemptId).Nodup) (quiet : allowed .quiet)
    (release : ∀ j ∈ stopped, j.attempt.computeHeld = true →
      allowed (.release j.attempt.attemptId)) :
    (Tx.forEach stopped (Store.settleStoppedAttempt env recover errorClass retryReason)).Ensures d
      fun _ d' => Path allowed d.book d'.book := by
  refine (Tx.Ensures.forEach (fun rest (d' : Db) => Path allowed d.book d'.book ∧
    (∀ j ∈ rest, j ∈ stopped ∧ j.Pending d'.book) ∧
    (rest.map fun j => j.attempt.attemptId).Nodup)
    ⟨Path.refl _, fun j member => ⟨member, pending j member⟩, nodup⟩
    fun j rest d₁ reached => ?_).mono fun _ _ reached => reached.1
  obtain ⟨path, pending, nodup⟩ := reached
  rw [List.map_cons, List.nodup_cons] at nodup
  obtain ⟨chosen, here⟩ := pending j List.mem_cons_self
  have valid := path.valid valid
  refine (settleStoppedAttempt_spec valid here).mono fun _ d₂ ends =>
    ⟨path.trans (ends.path quiet (release j chosen)), fun other member => ?_, nodup.2⟩
  obtain ⟨chosen', before⟩ := pending other (List.mem_cons_of_mem _ member)
  have different : other.attempt.attemptId ≠ j.attempt.attemptId :=
    fun same => nodup.1 (same ▸ List.mem_map_of_mem member)
  have elsewhere : other.attempt.operationId ≠ j.attempt.operationId := by
    intro same
    have agrees := valid.opened _ _ here.task
    have first := agrees.active _ (Table.mem_of_find? here.attempt) rfl here.isOpen
    have second := agrees.active _ (Table.mem_of_find? before.attempt) same before.isOpen
    exact different (Option.some.inj (second.symm.trans first))
  refine ⟨chosen', ?_, before.isOpen, ?_, before.rootId⟩
  · rw [ends.attempts _ different]
    exact before.attempt
  · rw [ends.tasks _ elsewhere]
    exact before.task

/-- The rows that a joining, locking query returns are joined rows of the ledger, each
attempt once. -/
theorem sorted_joins {cond : AttemptRow → Bool} {stopped : List Joined}
    (result : stopped = ((attempts.targets cond d d).insertionSort
      fun a b => a.createdAt ≤ b.createdAt).filterMap d.join) :
    (∀ j ∈ stopped, Joins d j ∧ cond j.attempt = true) ∧
      (stopped.map fun j => j.attempt.attemptId).Nodup := by
  subst result
  rw [Access.targets_self]
  constructor
  · intro j member
    obtain ⟨a, inTable, joined⟩ := List.mem_filterMap.mp member
    rw [List.mem_insertionSort, List.mem_filter] at inTable
    obtain ⟨rfl, -, -⟩ := Db.join_eq_some joined
    exact ⟨Joins.of_join (Table.find?_of_mem inTable.1) joined, inTable.2⟩
  · refine Table.nodup_filterMap ?_ fun a j joined =>
      congrArg AttemptRow.attemptId (Db.join_eq_some joined).1
    refine ((List.perm_insertionSort _ _).map _).nodup_iff.mpr ?_
    exact d.attempts.nodup.sublist (List.filter_sublist.map _)

theorem Joined.open_of_held {j : Joined} (valid : d.book.Valid) (joins : Joins d j)
    (held : j.attempt.computeHeld = true ∨ j.attempt.budgetHeld = true) : j.attempt.isOpen := by
  have consistent := valid.consistent _ (Table.mem_of_find? joins.attempt)
  rcases held with compute | budget
  · exact consistent.open_of_budget (consistent.compute compute).1
  · exact consistent.open_of_budget budget

theorem settleLostResult_refines (valid : d.book.Valid) (attemptId : String) :
    (Store.settleLostResult env attemptId).Ensures d fun _ d' =>
      Path quietly d.book d'.book := by
  unfold Store.settleLostResult
  simp only [Tx.bind_eq, Tx.stmt_bind]
  refine Tx.Ensures.perform ?_
  have exec : Engine.exec (Sql.attempt (AttemptSql.lostResult attemptId env.now))
      (fun _ => false) d d =
        (attempts.selectForUpdate attemptId
          (fun a => d.isLost env.now a && (d.join a).isSome) d d).map
            fun found => found.bind d.join := rfl
  rw [exec]
  simp only [Outcome.map_result, Outcome.map_writes, Access.selectForUpdate, Access.target_self]
  cases here : attempts.find? attemptId
      (fun a => d.isLost env.now a && (d.join a).isSome) d with
  | none => exact Tx.Ensures.ret (Path.refl _)
  | some a =>
    obtain ⟨found, lost⟩ := Access.find?_eq_some_iff.mp here
    have named : a.attemptId = attemptId := Table.key_of_find? found
    cases joined : d.join a with
    | none => simp only [Option.bind_some, joined]; exact Tx.Ensures.ret (Path.refl _)
    | some j =>
      simp only [Option.bind_some, joined]
      have joins := Joins.of_join (named.symm ▸ found) joined
      obtain ⟨rfl, -, -⟩ := Db.join_eq_some joined
      simp only [Db.isLost, Bool.and_eq_true, Bool.or_eq_true, Bool.not_eq_true',
        decide_eq_true_eq] at lost
      have isOpen : j.attempt.isOpen := by
        rcases lost.1.2 with ⟨state, -⟩ | ⟨state, -⟩ <;>
          simp [AttemptRow.isOpen, state, AttemptState.ended]
      refine Tx.Ensures.bind ((settleStoppedAttempt_spec valid (joins.pending isOpen)).mono
        fun _ d' ends => Tx.Ensures.ret (ends.path quietly_quiet fun held => ?_))
      rw [lost.1.1.1] at held
      cases held

/-- The attempts whose compute `confirm_epoch_stopped` may release. -/
def Stops (d : Db) (poolId engineEpoch : String) (evidence : Store.Evidence)
    (attemptId : String) : Prop :=
  evidence.text.toList.all isSpace = false ∧
    ∃ a ∈ d.attempts.rows, a.attemptId = attemptId ∧ a.poolId = poolId ∧
      a.engineEpoch = engineEpoch

/-- The attempts whose compute `settle_idle_unknown` may release. -/
def Idles (d : Db) (poolId engineEpoch : String) (idleSince : Time) (attemptIds : List String)
    (attemptId : String) : Prop :=
  attemptId ∈ attemptIds ∧ ∃ a ∈ d.attempts.rows, a.attemptId = attemptId ∧ a.poolId = poolId ∧
    a.engineEpoch = engineEpoch ∧ a.state = .unknown ∧
      ∃ unknownAt, a.unknownAt = some unknownAt ∧ unknownAt < idleSince

theorem checkEvidence_text {poolId engineEpoch : String} {evidence : Store.Evidence}
    {recover : Bool}
    (accepted : Store.checkEvidence poolId engineEpoch evidence recover = .ok ()) :
    evidence.text.toList.all isSpace = false := by
  unfold Store.checkEvidence at accepted
  split at accepted
  · cases accepted
  · next text => simpa using text

theorem confirmEpochStopped_refines (valid : d.book.Valid) (poolId engineEpoch : String)
    (evidence : Store.Evidence) (recover : Bool) :
    (Store.confirmEpochStopped env poolId engineEpoch evidence recover).Ensures d fun _ d' =>
      Path (fun label => label = .quiet ∨ ∃ attemptId, label = .release attemptId ∧
        Stops d poolId engineEpoch evidence attemptId) d.book d'.book := by
  unfold Store.confirmEpochStopped
  cases checked : Store.checkEvidence poolId engineEpoch evidence recover with
  | error error => exact Tx.Ensures.raise
  | ok accepted =>
    have text := checkEvidence_text checked
    simp only [Tx.bind_eq, Tx.stmt_bind]
    refine Tx.Ensures.selectForUpdate rfl ?_
    split
    · exact Tx.Ensures.raise
    · refine ensures_require fun _ => ensures_require fun _ => ?_
      refine ensures_offBook_perform (offBook_stop _) fun _ d₁ same₁ => ?_
      refine ensures_offBook_perform (offBook_other _) fun direct d₂ same₂ => ?_
      have same : d₂.book = d.book := same₂.trans same₁
      have attempts : d₂.attempts = d.attempts := congrArg Book.attempts same
      rw [← same] at valid ⊢
      refine Tx.Ensures.perform ?_
      obtain ⟨chosen, nodup⟩ := sorted_joins (d := d₂) rfl
      refine Tx.Ensures.bind ((settleAll_refines (fun label => label = .quiet ∨ ∃ attemptId,
          label = .release attemptId ∧ Stops d poolId engineEpoch evidence attemptId) valid
        (fun j member => ?_) ?_ (Or.inl rfl)
        fun j member held => Or.inr ⟨j.attempt.attemptId, rfl, text, ?_⟩).mono
          fun _ d₃ path => ?_)
      · obtain ⟨joins, holds⟩ := chosen j (List.mem_filter.mp member).1
        simp only [Bool.and_eq_true, Bool.or_eq_true, decide_eq_true_eq] at holds
        exact joins.pending (Joined.open_of_held valid joins holds.1.2)
      · exact nodup.sublist (List.filter_sublist.map _)
      · obtain ⟨joins, holds⟩ := chosen j (List.mem_filter.mp member).1
        simp only [Bool.and_eq_true, Bool.or_eq_true, decide_eq_true_eq] at holds
        exact ⟨j.attempt, attempts ▸ Table.mem_of_find? joins.attempt, rfl, holds.1.1⟩
      · refine ensures_offBook_perform (offBook_other _) fun inserted d₄ same₄ => ?_
        refine ensures_offBook_bind (uses_accept _) fun _ d₅ same₅ => Tx.Ensures.ret ?_
        rw [same₅, same₄]
        exact path

theorem settleIdleUnknown_refines (valid : d.book.Valid) (poolId engineEpoch : String)
    (idleSince : Time) (attemptIds : List String) :
    (Store.settleIdleUnknown env poolId engineEpoch idleSince attemptIds).Ensures d fun _ d' =>
      Path (fun label => label = .quiet ∨ ∃ attemptId, label = .release attemptId ∧
        Idles d poolId engineEpoch idleSince attemptIds attemptId) d.book d'.book := by
  unfold Store.settleIdleUnknown
  simp only [Tx.bind_eq, Tx.stmt_bind]
  refine Tx.Ensures.selectForUpdate rfl ?_
  split
  · exact Tx.Ensures.ret (Path.refl _)
  · split
    · exact Tx.Ensures.ret (Path.refl _)
    · refine ensures_offBook_perform (offBook_other _) fun direct d₁ same => ?_
      have attempts : d₁.attempts = d.attempts := congrArg Book.attempts same
      rw [← same] at valid ⊢
      refine Tx.Ensures.perform ?_
      obtain ⟨chosen, nodup⟩ := sorted_joins (d := d₁) rfl
      refine Tx.Ensures.bind ((settleAll_refines (fun label => label = .quiet ∨ ∃ attemptId,
          label = .release attemptId ∧ Idles d poolId engineEpoch idleSince attemptIds attemptId)
        valid (fun j member => ?_) nodup (Or.inl rfl)
        fun j member held => Or.inr ⟨j.attempt.attemptId, rfl, ?_⟩).mono
          fun _ d₃ path => Tx.Ensures.ret path)
      · obtain ⟨joins, holds⟩ := chosen j member
        simp only [Bool.and_eq_true] at holds
        exact joins.pending (Joined.open_of_held valid joins (Or.inl holds.1.1.1.1.2))
      · obtain ⟨joins, holds⟩ := chosen j member
        simp only [Bool.and_eq_true, decide_eq_true_eq, Option.any_eq_true] at holds
        obtain ⟨⟨⟨⟨⟨here, compute⟩, state⟩, since⟩, listed⟩, -⟩ := holds
        exact ⟨listed, j.attempt, attempts ▸ Table.mem_of_find? joins.attempt, rfl, here.1, here.2,
          state, since⟩

/-! ### Engines, events and owners -/

theorem quiesceEngine_offBook (poolId engineEpoch token : String) :
    (Store.quiesceEngine poolId engineEpoch token).Uses Sql.OffBook := by
  unfold Store.quiesceEngine
  simp only [Tx.bind_eq, Tx.stmt_bind]
  refine (uses_require _ _).bind fun _ => ⟨offBook_of_writes fun _ => rfl, fun pool => ?_⟩
  cases pool with
  | none => trivial
  | some pool =>
    refine (uses_require _ _).bind fun _ => (uses_require _ _).bind fun _ => ?_
    split
    · trivial
    · exact (uses_require _ _).bind fun _ => ⟨offBook_quiesce _ _ _, fun _ => trivial⟩

theorem resumeEngine_offBook (poolId engineEpoch token : String) :
    (Store.resumeEngine poolId engineEpoch token).Uses Sql.OffBook := by
  unfold Store.resumeEngine
  simp only [Tx.bind_eq, Tx.stmt_bind]
  refine (uses_require _ _).bind fun _ => ⟨offBook_of_writes fun _ => rfl, fun pool => ?_⟩
  cases pool with
  | none => trivial
  | some pool =>
    refine (uses_require _ _).bind fun _ => ?_
    split
    · trivial
    · exact (uses_require _ _).bind fun _ => ⟨offBook_of_writes fun _ => rfl, fun _ =>
        (uses_require _ _).bind fun _ => ⟨offBook_resume _ _ _, fun _ => trivial⟩⟩

theorem updateTarget_offBook (poolId : String) (target : ℤ) (version : ℕ) (reason : String) :
    (Store.updateTarget env poolId target version reason).Uses Sql.OffBook := by
  unfold Store.updateTarget
  simp only [Tx.bind_eq, Tx.stmt_bind]
  refine ⟨offBook_of_writes fun _ => rfl, fun pool => ?_⟩
  cases pool with
  | none => trivial
  | some pool =>
    exact (uses_require _ _).bind fun _ => (uses_require _ _).bind fun _ =>
      ⟨offBook_retarget _ _, fun _ => ⟨offBook_other _, fun _ => uses_accept _⟩⟩

theorem bindCompletion_offBook (operationId tenantId taskToken : String) :
    (Store.bindCompletion sha256 env operationId tenantId taskToken).Uses Sql.OffBook := by
  unfold Store.bindCompletion
  simp only [Tx.bind_eq, Tx.stmt_bind]
  refine ⟨offBook_of_writes fun _ => rfl, fun op => ?_⟩
  cases op with
  | none => trivial
  | some op => exact ⟨offBook_binding _, fun _ => uses_when (completionEvents_offBook ..)⟩

theorem registerOwner_offBook (ownerId bootGeneration : String) :
    (Store.registerOwner env ownerId bootGeneration).Uses Sql.OffBook :=
  ⟨offBook_other _, fun _ => uses_require _ _⟩

theorem heartbeatOwner_offBook (ownerId bootGeneration : String) :
    (Store.heartbeatOwner env ownerId bootGeneration).Uses Sql.OffBook :=
  ⟨offBook_other _, fun _ => uses_require _ _⟩

theorem claimEvents_offBook (ownerId : String) (limit : ℕ) :
    (Store.claimEvents env ownerId limit).Uses Sql.OffBook :=
  ⟨offBook_outbox _, fun _ => trivial⟩

theorem delivered_offBook (eventId : EventId) (ownerId : String) (deliveryNumber : ℕ) :
    (Store.delivered env eventId ownerId deliveryNumber).Uses Sql.OffBook :=
  ⟨offBook_outbox _, fun _ => trivial⟩

theorem deferEvent_offBook (eventId : EventId) (ownerId : String) (deliveryNumber : ℕ)
    (delay : Time) : (Store.deferEvent env eventId ownerId deliveryNumber delay).Uses
      Sql.OffBook :=
  (uses_require _ _).bind fun _ => ⟨offBook_outbox _, fun _ => trivial⟩

theorem lostResults_offBook : (Store.lostResults env).Uses Sql.OffBook :=
  ⟨offBook_of_writes fun _ => rfl, fun _ => trivial⟩

end Recovery

end IntramindRuntime.Ledger
