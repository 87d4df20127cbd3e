import IntramindRuntime.Ledger.Budget

/-!
# When a reservation is found

`reserve_next` looks at the first sixty-four operations that its query ranks, and takes the
first one that passes the checks made under the locks. An operation that fails these checks
keeps its rank or ends, and in both cases it has used up one of the sixty-four places. So a
pool that could serve some waiting operation finds one exactly if fewer than sixty-four
others are ranked before some operation that it could serve, and the query does not raise. It
raises on a bound that is no `bigint`.

## Main definitions

* `PoolRow.Accepts` — what a pool asks of the specification of an operation
* `Db.Servable` — an operation that a pool can be given now
* `Db.rankedBefore` — the operations that the query ranks before another
* `Db.Apart` — two ledgers that differ in one operation and in events

## Main results

* `mem_take_insertionSort_iff` — who is among the first of a sorted list
* `reserveCandidate_returns` — a candidate is reserved exactly if it is servable
* `reserveNext_conserves` — when `reserve_next` finds a servable operation
-/

namespace IntramindRuntime.Ledger

open Library

section Candidates

variable {sha256 : String → String} {env : Env} {d d' d'' : Db} {pool : PoolRow}
  {op : OperationRow} {root : RootRow}

/-! ### The first of a sorted list -/

section Sorted

variable {α β : Type} [LinearOrder β] {key : α → β} {xs : List α} {x : α} {n : ℕ}

/-- In a list that is sorted by distinct keys, the place of an entry is the number of
smaller ones. -/
theorem mem_take_iff_of_pairwise (sorted : xs.Pairwise fun a b => key a < key b)
    (member : x ∈ xs) : x ∈ xs.take n ↔ (xs.filter fun y => key y < key x).length < n := by
  induction xs generalizing n with
  | nil => cases member
  | cons head tail ih =>
    obtain ⟨least, sorted⟩ := List.pairwise_cons.mp sorted
    cases n with
    | zero => simp
    | succ n =>
      rw [List.take_succ_cons, List.mem_cons]
      rcases List.mem_cons.mp member with rfl | later
      · -- nothing is smaller than the head
        have none : (tail.filter fun y => key y < key x) = [] :=
          List.filter_eq_nil_iff.mpr fun y here => by simpa using (least y here).le
        simp [none]
      · have here : key head < key x := least x later
        have different : x ≠ head := fun same => here.ne (congrArg key same).symm
        rw [List.filter_cons_of_pos (by simpa using here), List.length_cons, or_iff_right different,
          ih sorted later]
        omega

/-- Who is among the first of a sorted list. -/
theorem mem_take_insertionSort_iff (distinct : (xs.map key).Nodup) :
    x ∈ (xs.insertionSort fun a b => key a ≤ key b).take n ↔
      x ∈ xs ∧ (xs.filter fun y => key y < key x).length < n := by
  have perm := List.perm_insertionSort (fun a b => key a ≤ key b) xs
  have strict : (xs.insertionSort fun a b => key a ≤ key b).Pairwise fun a b => key a < key b := by
    have weak := List.pairwise_insertionSort (fun a b => key a ≤ key b) xs
    have unequal := List.pairwise_map.mp ((perm.map key).nodup_iff.mpr distinct)
    exact (weak.and unequal).imp fun both => lt_of_le_of_ne both.1 both.2
  have count := (perm.filter fun y => decide (key y < key x)).length_eq
  constructor
  · intro member
    have sorted := List.mem_of_mem_take member
    exact ⟨perm.mem_iff.mp sorted, count ▸ (mem_take_iff_of_pairwise strict sorted).mp member⟩
  · rintro ⟨member, few⟩
    exact (mem_take_iff_of_pairwise strict (perm.mem_iff.mpr member)).mpr (count ▸ few)

end Sorted

/-! ### What can be served -/

/-- What a pool asks of the specification of an operation. -/
structure PoolRow.Accepts (pool : PoolRow) (spec : OperationSpec) : Prop where
  model : spec.modelProfile = pool.modelProfile
  kind : spec.kind = pool.spec.kind
  profile : ∀ profile ∈ spec.capacityProfileId, profile = pool.spec.profileId
  size : spec.budgetBound ≤ pool.spec.requestLimit
  batch : pool.spec.kind = .embedding → spec.textsCount ≤ pool.spec.maxBatchSize
  revision : pool.spec.kind = .embedding → spec.modelRevision? = some pool.spec.modelRevision
  capabilities : spec.requiredCapabilities ⊆ pool.spec.capabilities

/-- The query accepts the operations that are waiting and due, whose root runs, and which
the pool accepts. -/
theorem Db.candidateRoot_eq_some_iff {now : Time} :
    d.candidateRoot pool now op = some root ↔
      d.roots.find? op.rootId = some root ∧ op.state.waiting = true ∧
      (∀ retryAt ∈ op.retryAt, retryAt ≤ now) ∧ root.state = .running ∧
      root.cancelRequested = false ∧ now < root.deadline ∧ pool.Accepts op.spec := by
  rw [candidateRoot, Option.filter_eq_some_iff]
  refine and_congr_right fun _ => ?_
  simp only [considers, Bool.and_eq_true, Bool.or_eq_true, decide_eq_true_eq, Option.all_eq_true,
    Bool.not_eq_true']
  constructor
  · rintro ⟨⟨⟨⟨⟨⟨⟨⟨⟨⟨⟨waiting, due⟩, running⟩, uncancelled⟩, deadline⟩, model⟩, kind⟩, profile⟩,
      size⟩, batch⟩, revision⟩, capabilities⟩
    exact ⟨waiting, due, running, uncancelled, deadline, model, kind, profile, size,
      fun embedding => batch.resolve_left fun other => other embedding,
      fun embedding => revision.resolve_left fun other => other embedding, capabilities⟩
  · rintro ⟨waiting, due, running, uncancelled, deadline, accepts⟩
    exact ⟨⟨⟨⟨⟨⟨⟨⟨⟨⟨⟨waiting, due⟩, running⟩, uncancelled⟩, deadline⟩, accepts.model⟩,
      accepts.kind⟩, accepts.profile⟩, accepts.size⟩, (Decidable.imp_iff_not_or).mp accepts.batch⟩,
      (Decidable.imp_iff_not_or).mp accepts.revision⟩, accepts.capabilities⟩

/-- The operation can be given to the pool now: at no clock reading of the transaction has a
deadline passed, and there is room for one more attempt and for its bound. -/
structure Db.Servable (d : Db) (env : Env) (pool : PoolRow) (op : OperationRow) (root : RootRow) :
    Prop where
  stored : d.operations.find? op.operationId = some op
  rooted : d.roots.find? op.rootId = some root
  waiting : op.state.waiting = true
  due : ∀ retryAt ∈ op.retryAt,
    retryAt ≤ env.now ∧ retryAt ≤ env.clock .candidateRetry op.operationId
  running : root.state = .running
  uncancelled : root.cancelRequested = false
  rootDeadline : env.now < root.deadline ∧ env.clock .candidateRoot op.operationId < root.deadline
  deadline : ∀ deadline ∈ op.spec.deadline, env.clock .candidate op.operationId < deadline
  accepted : pool.Accepts op.spec
  attempts : op.attempts < op.spec.maxAttempts
  rootAttempts : root.attempts < root.spec.maxAttempts
  affordable : ∃ budget, d.account op.rootId op.spec.budgetUnit = some budget ∧
    budget.spent + budget.reserved + op.spec.budgetBound ≤ budget.limit

theorem Db.Servable.candidateRoot (servable : d.Servable env pool op root) :
    d.candidateRoot pool env.now op = some root :=
  candidateRoot_eq_some_iff.mpr ⟨servable.rooted, servable.waiting,
    fun retryAt here => (servable.due retryAt here).1, servable.running, servable.uncancelled,
    servable.rootDeadline.1, servable.accepted⟩

/-! ### Ledgers that differ in one operation -/

/-- Beside one operation and the events, nothing has changed. -/
def Db.Apart (operationId : String) (d d' : Db) : Prop :=
  ∀ k : Key, k ≠ .operation operationId → (∀ id, k ≠ .event id) → d'.cell k = d.cell k

namespace Db.Apart

variable {operationId : String}

theorem refl (d : Db) : Apart operationId d d := fun _ _ _ => rfl

theorem trans (first : Apart operationId d d') (second : Apart operationId d' d'') :
    Apart operationId d d'' :=
  fun k other quiet => (second k other quiet).trans (first k other quiet)

theorem write_operation {row : OperationRow} (named : row.operationId = operationId) :
    Apart operationId d ((Write.operation row).apply d) := by
  intro k other _
  refine Db.cell_apply_of_ne d ?_
  rintro rfl
  exact other (congrArg Key.operation named)

theorem write_event {row : OutboxRow} : Apart operationId d ((Write.event row).apply d) := by
  intro k _ quiet
  exact Db.cell_apply_of_ne d (quiet row.eventId)

theorem find?_root (apart : Apart operationId d d') (id : String) :
    d'.roots.find? id = d.roots.find? id :=
  Cell.root.inj (apart (.root id) nofun nofun)

theorem find?_attempt (apart : Apart operationId d d') (id : String) :
    d'.attempts.find? id = d.attempts.find? id :=
  Cell.attempt.inj (apart (.attempt id) nofun nofun)

theorem find?_operation (apart : Apart operationId d d') {id : String} (other : id ≠ operationId) :
    d'.operations.find? id = d.operations.find? id :=
  Cell.operation.inj (apart (.operation id) (fun same => other (Key.operation.inj same)) nofun)

theorem account (apart : Apart operationId d d') (rootId : String) (unit : BudgetUnit) :
    d'.account rootId unit = d.account rootId unit := by
  cases unit with
  | tokens => exact congrArg (Option.map Budget.ofRoot) (apart.find?_root rootId)
  | resource unit =>
    exact congrArg (Option.map Budget.ofRow)
      (Cell.budget.inj (apart (.budget rootId unit) nofun nofun))

/-- The other operations are as servable as before. -/
theorem servable (apart : Apart operationId d d') (other : op.operationId ≠ operationId)
    (servable : d.Servable env pool op root) : d'.Servable env pool op root :=
  { servable with
    stored := (apart.find?_operation other).trans servable.stored
    rooted := (apart.find?_root op.rootId).trans servable.rooted
    affordable := (apart.account op.rootId op.spec.budgetUnit).symm ▸ servable.affordable }

theorem symm (apart : Apart operationId d d') : Apart operationId d' d :=
  fun k other quiet => (apart k other quiet).symm

end Db.Apart

/-- The end of an operation, and the events that tell of it. -/
theorem terminal_apart (operationId : String) (state : OperationState) (reason : String) :
    (Store.terminal env operationId state reason).Returns d fun _ d' =>
      Db.Apart operationId d d' := by
  have told (d₁ : Db) : (Store.completionEvents env operationId).Returns d₁ fun _ d' =>
      Db.Apart operationId d₁ d' := by
    refine Tx.Returns.read rfl ?_
    refine Tx.Returns.forEach (fun _ d' => Db.Apart operationId d₁ d') (.refl d₁) ?_
    intro bindingId _ d₂ apart
    refine Tx.Returns.perform (Tx.Returns.ret ?_)
    -- the event is inserted, or it is there already
    simp only [Engine.exec, OutboxSql.exec, Access.insertIgnore]
    split
    · exact apart
    · exact apart.trans .write_event
  refine Tx.Returns.update rfl (fun row found _ => ?_) fun _ => told d
  have named : (row.terminate state reason).operationId = operationId := Table.key_of_find? found
  exact (told _).mono fun _ d' apart => (Db.Apart.write_operation named).trans apart

/-- An operation whose deadline has passed ends, and nothing happens to any other. -/
theorem expireOperation_returns (spec : OperationSpec) (observedAt : Time) :
    (Store.expireOperation env spec observedAt).Returns d fun expired d' =>
      (expired = false ∧ d' = d ∧ ∀ deadline ∈ spec.deadline, observedAt < deadline) ∨
      (expired = true ∧ Db.Apart spec.operationId d d' ∧
        ¬ ∀ deadline ∈ spec.deadline, observedAt < deadline) := by
  unfold Store.expireOperation
  split
  · next punctual =>
    refine Tx.Returns.ret (Or.inl ⟨rfl, rfl, fun deadline here => ?_⟩)
    exact of_decide_eq_true ((Option.all_eq_true _ _).mp punctual deadline here)
  · next late =>
    refine Tx.Returns.bind ((terminal_apart _ _ _).mono fun _ d' apart => ?_)
    refine Tx.Returns.ret (Or.inr ⟨rfl, apart, fun punctual => late ?_⟩)
    exact (Option.all_eq_true _ _).mpr fun deadline here => decide_eq_true (punctual deadline here)

/-- The budget of an operation is read. -/
theorem findBudget_returns (spec : OperationSpec) (stored : d.roots.find? spec.rootId = some root) :
    (Store.findBudget spec root).Returns d fun budget d' =>
      d' = d ∧ budget = d.account spec.rootId spec.budgetUnit := by
  unfold Store.findBudget
  cases spec.budgetUnit with
  | tokens =>
    refine Tx.Returns.ret ⟨rfl, ?_⟩
    rw [Db.account, stored, Option.map_some]
  | resource unit => exact Tx.Returns.read rfl (Tx.Returns.ret ⟨rfl, rfl⟩)

theorem le_foldr_max {rows : List AttemptRow} {a : AttemptRow} (member : a ∈ rows) :
    a.attemptNumber ≤ rows.foldr (fun a number => max a.attemptNumber number) 0 := by
  induction rows with
  | nil => cases member
  | cons row rest ih =>
    rcases List.mem_cons.mp member with rfl | later
    · exact le_max_left _ _
    · exact (ih later).trans (le_max_right _ _)

/-- An attempt with a new identity and a new number is not refused. -/
theorem returns_insertAttempt {α : Type} {row : AttemptRow}
    {next : Except Violation Unit → Transaction α} {post : α → Db → Prop}
    (fresh : d.attempts.find? row.attemptId = none)
    (numbered : ∀ a ∈ d.attempts.rows, a.operationId = row.operationId →
      a.attemptNumber < row.attemptNumber)
    (rest : (next (.ok ())).Returns ((Write.attempt row).apply d) post) :
    Tx.Returns (.perform (Sql.attempt (.insert row)) next) d post := by
  have untaken : (d.attempts.rows.any fun a =>
      a.operationId = row.operationId && a.attemptNumber = row.attemptNumber) = false := by
    rw [List.any_eq_false]
    intro a member same
    obtain ⟨named, number⟩ := Bool.and_eq_true_iff.mp same
    exact (numbered a member (of_decide_eq_true named)).ne (of_decide_eq_true number)
  refine Tx.Returns.perform ?_
  simp only [Engine.exec, AttemptSql.exec, untaken, Bool.false_eq_true, if_false]
  have absent : ((attempts.table d).find? (Keyed.key row)).isSome = false :=
    Option.isSome_eq_false_iff.mpr (Option.isNone_iff_eq_none.mpr fresh)
  simp only [Access.insert, absent, Bool.false_eq_true, if_false]
  exact rest

/-- With a fresh identity, a candidate that passed all checks is reserved. -/
theorem reserve_returns {ownerId : String} {candidate : Candidate}
    (fresh : d.attempts.find? env.uuid = none) :
    (Store.reserve env pool ownerId candidate root op).Returns d fun reserved _ =>
      ∃ reservation, reserved = some reservation ∧
        reservation.operation = candidate.operation.spec := by
  unfold Store.reserve
  simp only [Tx.bind_eq, Tx.stmt_bind]
  refine Tx.Returns.read rfl (returns_insertAttempt fresh (fun a member named => ?_) ?_)
  · exact Nat.lt_succ_of_le (le_foldr_max (List.mem_filter.mpr ⟨member, decide_eq_true named⟩))
  · refine Tx.Returns.perform (Tx.Returns.perform ?_)
    exact Tx.Returns.ret ⟨_, rfl, rfl⟩

/-! ### One candidate -/

/-- What becomes of a candidate: it is reserved if it is servable, and otherwise only the
candidate itself may have changed. -/
def Db.Tried (d : Db) (env : Env) (pool : PoolRow) (op : OperationRow) (root : RootRow)
    (reserved : Option Reservation) (d' : Db) : Prop :=
  (d.Servable env pool op root ∧ ∃ reservation, reserved = some reservation ∧
    reservation.operation = op.spec) ∨
  (¬ d.Servable env pool op root ∧ reserved = none ∧ d.Apart op.operationId d')

/-- An operation is worn out if an attempt more is not allowed, or can never be paid. -/
theorem exhausted_eq_none_iff {budget : Budget} :
    Store.exhausted op.spec op root budget = none ↔
      op.attempts < op.spec.maxAttempts ∧ root.attempts < root.spec.maxAttempts ∧
      budget.spent + op.spec.budgetBound ≤ budget.limit := by
  unfold Store.exhausted
  split
  · next attempts => simp; omega
  · next attempts =>
    split
    · next rootAttempts => simp; omega
    · next rootAttempts =>
      split
      · next spent => simp; omega
      · next spent => simp; omega

/-- The checks made under the locks, for a candidate of the query. -/
theorem tryCandidate_returns {ownerId : String} (found : d.operations.find? op.operationId = some op)
    (accepted : d.candidateRoot pool env.now op = some root)
    (due : ∀ retryAt ∈ op.retryAt, retryAt ≤ env.clock .candidateRetry op.operationId)
    (rootDeadline : env.clock .candidateRoot op.operationId < root.deadline)
    (named : op.spec.operationId = op.operationId) (rooted : op.spec.rootId = op.rootId)
    (solvent : ∀ budget, d.account op.rootId op.spec.budgetUnit = some budget →
      0 ≤ budget.reserved)
    (fresh : d.attempts.find? env.uuid = none) :
    (Store.tryCandidate env pool ownerId
        ⟨op, root.priority, env.clock .candidate op.operationId⟩ root op).Returns d
      (d.Tried env pool op root) := by
  obtain ⟨rootFound, waiting, dueNow, running, uncancelled, rootDeadlineNow, accepts⟩ :=
    Db.candidateRoot_eq_some_iff.mp accepted
  unfold Store.tryCandidate
  refine Tx.Returns.bind ((expireOperation_returns _ _).mono fun expired d₁ outcome => ?_)
  rcases outcome with ⟨rfl, rfl, punctual⟩ | ⟨rfl, apart, late⟩
  · simp only [Bool.false_eq_true, if_false]
    split
    · next refused =>
      -- the query has checked this already
      have profile : (op.spec.capacityProfileId.any fun profile =>
          profile ≠ "" && profile ≠ pool.spec.profileId) = false := by
        cases profile : op.spec.capacityProfileId with
        | none => rfl
        | some profile => simp [accepts.profile _ profile]
      rw [profile, decide_eq_true accepts.capabilities,
        decide_eq_false (not_lt.mpr accepts.size)] at refused
      cases refused
    · refine Tx.Returns.bind ((findBudget_returns _ (rooted ▸ rootFound)).mono ?_)
      rintro _ d₂ ⟨rfl, rfl⟩
      rw [rooted]
      cases account : d₂.account op.rootId op.spec.budgetUnit with
      | none =>
        refine Tx.Returns.bind ((terminal_apart _ _ _).mono fun _ d₃ apart => Tx.Returns.ret ?_)
        refine Or.inr ⟨fun servable => ?_, rfl, named ▸ apart⟩
        obtain ⟨budget, backed, -⟩ := servable.affordable
        rw [account] at backed
        cases backed
      | some budget =>
        simp only
        have room := solvent budget account
        split
        · next reason worn =>
          refine Tx.Returns.bind ((terminal_apart _ _ _).mono fun _ d₃ apart => Tx.Returns.ret ?_)
          refine Or.inr ⟨fun servable => ?_, rfl, named ▸ apart⟩
          obtain ⟨budget', backed, affords⟩ := servable.affordable
          obtain rfl := Option.some.inj (account.symm.trans backed)
          have able : Store.exhausted op.spec op root budget = none :=
            exhausted_eq_none_iff.mpr ⟨servable.attempts, servable.rootAttempts, by omega⟩
          rw [able] at worn
          cases worn
        · next fit =>
          obtain ⟨attempts, rootAttempts, -⟩ := exhausted_eq_none_iff.mp fit
          split
          · next short =>
            refine Tx.Returns.update rfl (fun row found _ => Tx.Returns.ret ?_)
              fun missing => absurd (missing op (named.symm ▸ found)) (by simp)
            have key : row.operationId = op.operationId := (Table.key_of_find? found).trans named
            refine Or.inr ⟨fun servable => ?_, rfl, .write_operation key⟩
            obtain ⟨budget', backed, affords⟩ := servable.affordable
            obtain rfl := Option.some.inj (account.symm.trans backed)
            omega
          · next affords =>
            refine (reserve_returns fresh).mono fun reserved d₂ outcome => Or.inl ⟨?_, outcome⟩
            exact ⟨found, rootFound, waiting, fun retryAt here => ⟨dueNow _ here, due _ here⟩,
              running, uncancelled, ⟨rootDeadlineNow, rootDeadline⟩, punctual, accepts, attempts,
              rootAttempts, budget, account, by omega⟩
  · exact Tx.Returns.ret (Or.inr ⟨fun servable => late servable.deadline, rfl, named ▸ apart⟩)

/-- What a candidate of the query was read from. -/
structure Db.Lists (d : Db) (env : Env) (pool : PoolRow) (op : OperationRow) (root : RootRow) :
    Prop where
  stored : d.operations.find? op.operationId = some op
  accepted : d.candidateRoot pool env.now op = some root
  named : op.spec.operationId = op.operationId
  rooted : op.spec.rootId = op.rootId
  solvent : ∀ budget, d.account op.rootId op.spec.budgetUnit = some budget → 0 ≤ budget.reserved

/-- What happens to other candidates does not take a candidate off the list. -/
theorem Db.Lists.apart {operationId : String} (lists : d.Lists env pool op root)
    (apart : Db.Apart operationId d d') (other : op.operationId ≠ operationId) :
    d'.Lists env pool op root := by
  have rooted := (Db.candidateRoot_eq_some_iff.mp lists.accepted).1
  have same : d'.candidateRoot pool env.now op = d.candidateRoot pool env.now op := by
    rw [Db.candidateRoot, apart.find?_root, ← Db.candidateRoot]
  exact ⟨(apart.find?_operation other).trans lists.stored, same.trans lists.accepted, lists.named,
    lists.rooted, fun budget => apart.account op.rootId _ ▸ lists.solvent budget⟩

/-- A candidate is reserved exactly if it is servable. -/
theorem reserveCandidate_returns {ownerId : String} (lists : d.Lists env pool op root)
    (fresh : d.attempts.find? env.uuid = none) :
    (Store.reserveCandidate env pool ownerId
        ⟨op, root.priority, env.clock .candidate op.operationId⟩).Returns d
      (d.Tried env pool op root) := by
  obtain ⟨rootFound, waiting, dueNow, running, uncancelled, rootDeadlineNow, accepts⟩ :=
    Db.candidateRoot_eq_some_iff.mp lists.accepted
  unfold Store.reserveCandidate
  simp only [Tx.bind_eq, Tx.stmt_bind]
  refine Tx.Returns.selectForUpdate rfl ?_
  rw [Access.find?_true]
  simp only [roots, rootFound]
  split
  · next stopped =>
    refine Tx.Returns.ret (Or.inr ⟨fun servable => ?_, rfl, .refl d⟩)
    simp [running, uncancelled, not_le.mpr servable.rootDeadline.2] at stopped
  · next runs =>
    have rootDeadline : env.clock .candidateRoot op.operationId < root.deadline := by
      simpa [running, uncancelled] using runs
    refine Tx.Returns.selectForUpdate rfl ?_
    rw [Access.find?_true]
    simp only [operations, lists.stored]
    split
    · next early =>
      refine Tx.Returns.ret (Or.inr ⟨fun servable => ?_, rfl, .refl d⟩)
      rw [waiting, Bool.not_true, Bool.false_or, Option.any_eq_true] at early
      obtain ⟨retryAt, here, early⟩ := early
      exact not_lt.mpr (servable.due retryAt here).2 (of_decide_eq_true early)
    · next ready =>
      refine tryCandidate_returns lists.stored lists.accepted (fun retryAt here => ?_)
        rootDeadline lists.named lists.rooted lists.solvent fresh
      by_contra early
      refine ready (Bool.or_eq_true_iff.mpr (Or.inr ?_))
      exact (Option.any_eq_true _ _).mpr ⟨retryAt, here, decide_eq_true (not_le.mp early)⟩

/-! ### All candidates -/

/-- The candidates that a list of operations and their roots stands for. -/
def Env.candidates (env : Env) (found : List (OperationRow × RootRow)) : List Candidate :=
  found.map fun (op, root) => ⟨op, root.priority, env.clock .candidate op.operationId⟩

/-- The candidates are tried until one is servable. -/
theorem reserveFrom_returns {ownerId : String} {found : List (OperationRow × RootRow)}
    (lists : ∀ pair ∈ found, d.Lists env pool pair.1 pair.2)
    (distinct : (found.map fun pair => pair.1.operationId).Nodup)
    (fresh : d.attempts.find? env.uuid = none) :
    (Store.reserveFrom env pool ownerId (env.candidates found)).Returns d fun reserved _ =>
      (∃ pair ∈ found, d.Servable env pool pair.1 pair.2 ∧
        ∃ reservation, reserved = some reservation ∧ reservation.operation = pair.1.spec) ∨
      ((∀ pair ∈ found, ¬ d.Servable env pool pair.1 pair.2) ∧ reserved = none) := by
  induction found generalizing d with
  | nil => exact Tx.Returns.ret (Or.inr ⟨fun _ listed => (nomatch listed), rfl⟩)
  | cons pair rest ih =>
    obtain ⟨op, root⟩ := pair
    rw [List.map_cons, List.nodup_cons] at distinct
    have first : (Store.reserveCandidate env pool ownerId
        ⟨op, root.priority, env.clock .candidate op.operationId⟩).Returns d
          (d.Tried env pool op root) :=
      reserveCandidate_returns (lists _ List.mem_cons_self) fresh
    refine Tx.Returns.bind (first.mono fun reserved d₁ tried => ?_)
    rcases tried with ⟨servable, reservation, rfl, of⟩ | ⟨blocked, rfl, apart⟩
    · exact Tx.Returns.ret
        (Or.inl ⟨(op, root), List.mem_cons_self, servable, reservation, rfl, of⟩)
    · -- the rest of the list is as it was
      have others : ∀ pair ∈ rest, pair.1.operationId ≠ op.operationId := fun pair member same =>
        distinct.1 (List.mem_map.mpr ⟨pair, member, same⟩)
      have later := ih (d := d₁)
        (fun pair member => (lists pair (List.mem_cons_of_mem _ member)).apart apart
          (others pair member))
        distinct.2 ((apart.find?_attempt env.uuid).trans fresh)
      refine later.mono fun reserved d₂ outcome => ?_
      rcases outcome with ⟨pair, member, servable, returned⟩ | ⟨none, returned⟩
      · exact Or.inl ⟨pair, List.mem_cons_of_mem _ member,
          apart.symm.servable (others pair member) servable, returned⟩
      · refine Or.inr ⟨fun pair member servable => ?_, returned⟩
        rcases List.mem_cons.mp member with rfl | member
        · exact blocked servable
        · exact none pair member (apart.servable (others pair member) servable)

/-- The operations that the candidate query accepts, with their roots. -/
def Db.eligible (d : Db) (env : Env) (pool : PoolRow) : List (OperationRow × RootRow) :=
  d.operations.rows.filterMap fun op =>
    (d.candidateRoot pool env.now op).map fun root => (op, root)

/-- What the candidate query sorts by. -/
def Db.rank (d : Db) (env : Env) (pair : OperationRow × RootRow) : ℕ ×ₗ ℤ ×ₗ ℤ ×ₗ Time ×ₗ String :=
  d.candidateOrder (env.clock .ranking) pair.1 pair.2

/-- The operations that the candidate query ranks before another. -/
def Db.rankedBefore (d : Db) (env : Env) (pool : PoolRow) (pair : OperationRow × RootRow) :
    List (OperationRow × RootRow) :=
  (d.eligible env pool).filter fun other => d.rank env other < d.rank env pair

/-- The first operations of the candidate query. -/
def Db.shortlist (d : Db) (env : Env) (pool : PoolRow) : List (OperationRow × RootRow) :=
  ((d.eligible env pool).insertionSort fun a b => d.rank env a ≤ d.rank env b).take 64

theorem Db.candidates_eq :
    d.candidates pool env.now (env.clock .ranking) (env.clock .candidate) =
      env.candidates (d.shortlist env pool) := rfl

theorem Db.mem_eligible {pair : OperationRow × RootRow} :
    pair ∈ d.eligible env pool ↔
      pair.1 ∈ d.operations.rows ∧ d.candidateRoot pool env.now pair.1 = some pair.2 := by
  unfold Db.eligible
  rw [List.mem_filterMap]
  constructor
  · rintro ⟨op, stored, found⟩
    obtain ⟨root, accepted, rfl⟩ := Option.map_eq_some_iff.mp found
    exact ⟨stored, accepted⟩
  · rintro ⟨stored, accepted⟩
    exact ⟨pair.1, stored, by rw [accepted, Option.map_some]⟩

/-- No operation is a candidate twice. -/
theorem Db.eligible_distinct :
    ((d.eligible env pool).map fun pair => pair.1.operationId).Nodup := by
  have once : (d.eligible env pool).Nodup := by
    refine List.Nodup.filterMap (fun op op' pair found found' => ?_) (d.operations.nodup.of_map _)
    obtain ⟨root, -, rfl⟩ := Option.map_eq_some_iff.mp found
    obtain ⟨root', -, same⟩ := Option.map_eq_some_iff.mp found'
    exact (congrArg Prod.fst same).symm
  refine once.map_on fun pair member pair' member' same => ?_
  obtain ⟨stored, accepted⟩ := mem_eligible.mp member
  obtain ⟨stored', accepted'⟩ := mem_eligible.mp member'
  have ops : pair.1 = pair'.1 := Option.some.inj ((Table.find?_of_mem stored).symm.trans
    ((congrArg d.operations.find? same).trans (Table.find?_of_mem stored')))
  rw [ops, accepted'] at accepted
  exact Prod.ext ops (Option.some.inj accepted).symm

/-- The shortlist has the operations before which fewer than sixty-four are ranked. -/
theorem Db.mem_shortlist {pair : OperationRow × RootRow} :
    pair ∈ d.shortlist env pool ↔
      pair ∈ d.eligible env pool ∧ (d.rankedBefore env pool pair).length < 64 := by
  refine mem_take_insertionSort_iff ?_
  refine (List.Nodup.of_map (fun rank => ((((ofLex rank).2).2).2).2) ?_)
  rw [List.map_map]
  exact eligible_distinct

theorem Db.Servable.eligible (servable : d.Servable env pool op root) :
    (op, root) ∈ d.eligible env pool :=
  Db.mem_eligible.mpr ⟨Table.mem_of_find? servable.stored, servable.candidateRoot⟩

/-- In a reachable ledger, the query lists operations as they were submitted, and no budget
has a negative reservation. -/
theorem Reachable.lists {authority : Authority} (reached : Reachable sha256 authority d)
    {pair : OperationRow × RootRow} (member : pair ∈ d.eligible env pool) :
    d.Lists env pool pair.1 pair.2 := by
  obtain ⟨stored, accepted⟩ := Db.mem_eligible.mp member
  have found := Table.find?_of_mem stored
  have linked := reached.valid.linked
  obtain ⟨-, named, rooted⟩ := linked.task _ _ (Db.book_task_of_found found)
  refine ⟨found, accepted, named, rooted, fun budget account => ?_⟩
  rw [(reached.budget_conservation account).1]
  refine List.sum_nonneg fun bound listed => ?_
  obtain ⟨a, held, rfl⟩ := List.mem_map.mp listed
  obtain ⟨inTable, -⟩ := Db.mem_attemptsOf.mp (List.mem_filter.mp held).1
  obtain ⟨task, -, bound, -⟩ := linked.attempt a inTable
  rw [bound]
  exact task.spec.budgetBound_pos.le

/-- What `reserve_next` returns for a healthy pool, unless its query raises: it reserves the
operations of the shortlist that are servable, and nothing else. -/
theorem reserveNext_returns {authority : Authority} (reached : Reachable sha256 authority d)
    {group : GroupRow} (pooled : d.pools.find? pool.poolId = some pool)
    (healthy : pool.health = .healthy) (active : 0 < pool.target)
    (grouped : d.groups.find? pool.groupId = some group) (groupHealthy : group.health = .healthy)
    (calm : d.scanRaises pool env.now = false) (fresh : d.attempts.find? env.uuid = none)
    (ownerId : String) :
    (Store.reserveNext env pool.poolId ownerId).Returns d fun reserved _ =>
      (∃ pair ∈ d.shortlist env pool, d.Servable env pool pair.1 pair.2 ∧
        ∃ reservation, reserved = some reservation ∧ reservation.operation = pair.1.spec) ∨
      ((∀ pair ∈ d.shortlist env pool, ¬ d.Servable env pool pair.1 pair.2) ∧ reserved = none) := by
  unfold Store.reserveNext
  simp only [Tx.bind_eq, Tx.stmt_bind]
  refine Tx.Returns.selectForUpdate rfl ?_
  rw [Access.find?_true]
  simp only [pools, pooled]
  rw [if_neg (by simp [healthy, active.ne'])]
  refine Tx.Returns.read rfl ?_
  rw [grouped, Option.any_some, decide_eq_true groupHealthy, if_pos rfl]
  refine Tx.Returns.read rfl ?_
  rw [calm, if_neg Bool.false_ne_true, Db.candidates_eq]
  refine reserveFrom_returns (fun pair member => ?_) ?_ fresh
  · exact reached.lists (Db.mem_shortlist.mp member).1
  · refine List.Nodup.sublist ((List.take_sublist _ _).map _) ?_
    exact ((List.perm_insertionSort _ _).map _).nodup_iff.mpr Db.eligible_distinct

/-- Where the query raises, nothing is reserved. -/
theorem reserveNext_raises {group : GroupRow}
    (pooled : d.pools.find? pool.poolId = some pool)
    (healthy : pool.health = .healthy) (active : 0 < pool.target)
    (grouped : d.groups.find? pool.groupId = some group) (groupHealthy : group.health = .healthy)
    (raises : d.scanRaises pool env.now = true) (ownerId : String) :
    (Store.reserveNext env pool.poolId ownerId).Ensures d fun _ _ => False := by
  unfold Store.reserveNext
  simp only [Tx.bind_eq, Tx.stmt_bind]
  refine Tx.Ensures.selectForUpdate rfl ?_
  rw [Access.find?_true]
  simp only [pools, pooled]
  rw [if_neg (by simp [healthy, active.ne'])]
  refine Tx.Ensures.read rfl ?_
  rw [grouped, Option.any_some, decide_eq_true groupHealthy, if_pos rfl]
  refine Tx.Ensures.read rfl ?_
  rw [raises, if_pos rfl]
  exact Tx.Ensures.raise

/-- `reserve_next` on a healthy pool of a healthy group serves some operation whenever one is
servable, exactly if its query does not raise then, and fewer than sixty-four operations that
the query accepts are ranked before a servable one: the others that it looks at first may be
blocked by their budget, or only now be found out of time or of attempts. -/
theorem reserveNext_conserves {authority : Authority} (reached : Reachable sha256 authority d)
    {group : GroupRow} (pooled : d.pools.find? pool.poolId = some pool)
    (healthy : pool.health = .healthy) (active : 0 < pool.target)
    (grouped : d.groups.find? pool.groupId = some group) (groupHealthy : group.health = .healthy)
    (fresh : d.attempts.find? env.uuid = none) (ownerId : String) :
    ((∃ op root, d.Servable env pool op root) →
      ∃ reservation d', (Store.reserveNext env pool.poolId ownerId).run d =
          .ok (some reservation, d') ∧
        ∃ op root, d.Servable env pool op root ∧ reservation.operation = op.spec) ↔
    ((∃ op root, d.Servable env pool op root) →
      d.scanRaises pool env.now = false ∧ ∃ op root, d.Servable env pool op root ∧
        (d.rankedBefore env pool (op, root)).length < 64) := by
  refine imp_congr_right fun _ => ?_
  cases scan : d.scanRaises pool env.now with
  | true =>
    have raised := reserveNext_raises pooled healthy active grouped groupHealthy scan ownerId
    refine iff_of_false ?_ (by simp)
    rintro ⟨reservation, d', returned, -⟩
    exact raised _ _ returned
  | false =>
    obtain ⟨reserved, d', returned, outcome⟩ :=
      reserveNext_returns reached pooled healthy active grouped groupHealthy scan fresh ownerId
    constructor
    · rintro ⟨reservation, d'', returned', -⟩
      rw [returned'] at returned
      cases returned
      rcases outcome with ⟨pair, member, servable, -⟩ | ⟨-, none⟩
      · exact ⟨rfl, pair.1, pair.2, servable, (Db.mem_shortlist.mp member).2⟩
      · cases none
    · rintro ⟨-, op, root, servable, few⟩
      have listed := Db.mem_shortlist.mpr ⟨servable.eligible, few⟩
      rcases outcome with ⟨pair, -, served, reservation, rfl, of⟩ | ⟨none, -⟩
      · exact ⟨reservation, d', returned, pair.1, pair.2, served, of⟩
      · exact absurd servable (none _ listed)

end Candidates

/-! ### A crowded ledger -/

namespace Sample

/-- Bytes of a tenant whose digest is empty. -/
def bytes : Artifact where
  key := "tenants//"
  sha256 := "a"
  size := 1

/-- The operation of the sample, with these bytes. -/
def light : OperationSpec := { operation with payload := bytes }

/-- A root of the first class, with room for one attempt at a time. -/
def urgent : RootSpec :=
  { root with rootId := "q", budgetLimit := 40, maxPending := 100, priority := .qa }

/-- An operation of the urgent root, named by one letter. -/
def urgentOperation (n : ℕ) : OperationSpec :=
  { light with operationId := String.singleton (Char.ofNat (160 + n)), rootId := "q" }

/-- What the reservation of the first of them returns. -/
def urgentReservation : Reservation :=
  { reservation with operation := urgentOperation 0, workloadClass := .qa }

/-- An operation waits, and nothing else. -/
def calm : List Request :=
  [.call (env "") (.configurePool (pool "e") 4), .call (env "") (.createRoot root),
    .call (env "") (.submitOperation light)]

/-- One urgent operation is being sent, sixty-four wait for its budget, and behind them waits
an operation of another root. -/
def crowded : List Request :=
  [.call (env "") (.configurePool (pool "e") 4), .call (env "") (.createRoot urgent),
    .call (env "") (.submitOperation (urgentOperation 0)),
    .call (env "a") (.reserveNext "p" "w"), .call (env "") (.markSend urgentReservation)] ++
  (List.range 64).map (fun n => .call (env "") (.submitOperation (urgentOperation (n + 1)))) ++
  [.call (env "") (.createRoot root), .call (env "") (.submitOperation light)]

/-- The ledger after requests of a tenant whose digest is empty. -/
def reached (requests : List Request) : Db :=
  Request.afterAll (fun _ => "") requests (Db.empty {})

/-- The row of the sample's pool. -/
def poolRow : PoolRow := .ofSpec (pool "e")

/-- The row of the waiting operation. -/
def lightRow : OperationRow := Store.operationRow (env "") light

/-- The row of its root. -/
def rootRow : RootRow := { Store.rootRow root with operationCount := 1 }

/-- The waiting operation is servable, whatever else waits. -/
theorem servable {d : Db} (stored : d.operations.find? "o" = some lightRow)
    (rooted : d.roots.find? "r" = some rootRow) :
    d.Servable (env "b") poolRow lightRow rootRow where
  stored := stored
  rooted := rooted
  waiting := rfl
  due := nofun
  running := rfl
  uncancelled := rfl
  rootDeadline := by decide
  deadline := nofun
  accepted := ⟨rfl, rfl, nofun, by decide, nofun, nofun, by decide⟩
  attempts := by decide
  rootAttempts := by decide
  affordable := by
    refine ⟨⟨1000, 0, 0⟩, ?_, by decide⟩
    have account : d.account "r" .tokens = some ⟨1000, 0, 0⟩ := by
      rw [Db.account, rooted]
      rfl
    exact account

end Sample

/-- With one operation in the queue, it is found. -/
theorem reserveNext_conserves_calm :
    ∃ reservation d', (Store.reserveNext (Sample.env "b") "p" "w").run
        (Sample.reached Sample.calm) = .ok (some reservation, d') ∧
      ∃ op root, (Sample.reached Sample.calm).Servable (Sample.env "b") Sample.poolRow op root ∧
        reservation.operation = op.spec := by
  have servable : (Sample.reached Sample.calm).Servable (Sample.env "b") Sample.poolRow
      Sample.lightRow Sample.rootRow := Sample.servable (by decide +kernel) (by decide +kernel)
  have reached : Reachable (fun _ => "") {} (Sample.reached Sample.calm) :=
    Reachable.afterAll Sample.calm
  have pooled : (Sample.reached Sample.calm).pools.find? "p" = some Sample.poolRow := by
    decide +kernel
  have grouped : (Sample.reached Sample.calm).groups.find? "g" = some ⟨"g", 4, .healthy⟩ := by
    decide +kernel
  refine (reserveNext_conserves reached pooled rfl (by decide) grouped rfl ?_ "w").mpr
    (fun _ => ⟨?_, _, _, servable, ?_⟩) ⟨_, _, servable⟩
  · decide +kernel
  · decide +kernel
  · decide +kernel

/-- Behind sixty-four operations that wait for their budget, it is not. -/
theorem reserveNext_conserves_fails :
    ¬ ∀ (sha256 : String → String) (authority : Authority) (d : Db) (env : Env) (pool : PoolRow)
      (group : GroupRow) (ownerId : String), Reachable sha256 authority d →
      d.pools.find? pool.poolId = some pool → pool.health = .healthy → 0 < pool.target →
      d.groups.find? pool.groupId = some group → group.health = .healthy →
      d.attempts.find? env.uuid = none → (∃ op root, d.Servable env pool op root) →
      ∃ reservation d', (Store.reserveNext env pool.poolId ownerId).run d =
          .ok (some reservation, d') ∧
        ∃ op root, d.Servable env pool op root ∧ reservation.operation = op.spec := by
  intro conserves
  have facts : (Sample.reached Sample.crowded).operations.find? "o" = some Sample.lightRow ∧
      (Sample.reached Sample.crowded).roots.find? "r" = some Sample.rootRow ∧
      (Sample.reached Sample.crowded).pools.find? "p" = some Sample.poolRow ∧
      (Sample.reached Sample.crowded).groups.find? "g" = some ⟨"g", 4, .healthy⟩ ∧
      (Sample.reached Sample.crowded).attempts.find? "b" = none ∧
      ((Store.reserveNext (Sample.env "b") "p" "w").run (Sample.reached Sample.crowded)).toOption.map
        Prod.fst = some none := by
    decide +kernel
  obtain ⟨stored, rooted, pooled, grouped, fresh, returned⟩ := facts
  obtain ⟨reservation, d', served, -⟩ := conserves (fun _ => "") {} _ (Sample.env "b")
    Sample.poolRow ⟨"g", 4, .healthy⟩ "w" (Reachable.afterAll Sample.crowded) pooled rfl (by decide)
    grouped rfl fresh ⟨_, _, Sample.servable stored rooted⟩
  have served : (Store.reserveNext (Sample.env "b") "p" "w").run (Sample.reached Sample.crowded) =
    .ok (some reservation, d') := served
  rw [served] at returned
  cases returned

end IntramindRuntime.Ledger
