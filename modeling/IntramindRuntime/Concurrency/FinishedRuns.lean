import IntramindRuntime.Concurrency.TerminalOperations

/-!
# Succeeded roots have nothing left to do

A `finish_run` that makes a root succeed counts the pending operations of the root with
one statement and ends the root with another. It reads the root without a lock, and so
a submission can commit in between. From the `UPDATE` on the root is locked, and a
submission has to lock it too: what the `UPDATE` finds is what the commit finds.

## Main definitions

* `Db.Done` — the operations of succeeded roots have ended
* `SparesCount`, `Interleaved.CountsStand` — no commit gives a root pending operations that
  another transaction in flight has counted and not found
* `HasCounted` — the transaction has counted, and the root has no pending operation since
* `Orderly` — what a transaction has locked and checked of what it submits and finishes

## Main results

* `Interleaved.Run.done` — in every run without such commits, and in which no settlement is
  overtaken, the operations of a succeeded root have ended
-/

namespace IntramindRuntime.Ledger

open Library

/-! ### When the law is kept -/

/-- Every operation of a root has ended. -/
def Db.Concluded (rootId : String) (d : Db) : Prop :=
  ∀ id op, d.operations.find? id = some op → op.rootId = rootId → op.state.terminal = true

/-- The operations of succeeded roots have ended. -/
def Db.Done (d : Db) : Prop :=
  ∀ rootId root, d.roots.find? rootId = some root → root.state = .succeeded → d.Concluded rootId

theorem Db.concluded_of_pendingOf {d : Db} {rootId : String} (none : d.pendingOf rootId = []) :
    d.Concluded rootId := by
  intro id op found here
  by_contra pending
  have member : op ∈ d.pendingOf rootId :=
    List.mem_filter.mpr ⟨Table.mem_of_find? found, by simp [here, pending]⟩
  rw [none] at member
  cases member

/-! ### What transactions rely on -/

/-- The root whose pending operations a statement counts. -/
def OperationSql.counts {β : Type} : OperationSql β → Option String
  | .countPendingOf rootId => some rootId
  | _ => none

/-- The root whose pending operations a statement counts. -/
def Sql.counts {β : Type} : Sql β → Option String
  | .operation statement => statement.counts
  | _ => none

/-- The database may change to `d` while a transaction has come to `σ`: no root gets a pending
operation, when the transaction has counted the pending operations of the root and it had
none. -/
def SparesCount (σ : InFlight) (d : Db) : Prop :=
  ∀ statement ∈ σ.log, ∀ rootId ∈ statement.2.counts,
    σ.committed.pendingOf rootId = [] → d.pendingOf rootId = []

instance {σ : InFlight} {d : Db} : Decidable (SparesCount σ d) := by
  unfold SparesCount
  exact inferInstance

/-- Nobody else submits to a root that the transaction has locked, and its counts stand. -/
def closing : Discipline Sql Db Write Key where
  extra σ d := (∀ id op, d.operations.find? id = some op → op.state.terminal = false →
      σ.held (.root op.rootId) → ∃ old, σ.committed.operations.find? id = some old ∧
        old.rootId = op.rootId ∧ old.state.terminal = false) ∧ SparesCount σ d
  extra_refl σ := ⟨fun _ op found pending _ => ⟨op, found, rfl, pending⟩, fun _ _ _ _ none => none⟩
  extra_trans := by
    intro σ d d' first second
    constructor
    · intro id op found pending held
      obtain ⟨middle, found, same, pending⟩ := second.1 id op found pending held
      obtain ⟨old, found, same', pending⟩ := first.1 id middle found pending (same ▸ held)
      exact ⟨old, found, same'.trans same, pending⟩
    · intro statement logged rootId counts none
      exact second.2 statement logged rootId counts (first.2 statement logged rootId counts none)
  admits := Admits.all

/-- The transaction has counted the pending operations of a root, and the committed root has
none. -/
def HasCounted (rootId : String) (σ : InFlight) : Prop :=
  (∃ statement ∈ σ.log, statement.2.counts = some rootId) ∧ σ.committed.pendingOf rootId = []

theorem HasCounted.stable {rootId : String} : Wp.Stable closing (HasCounted rootId) := by
  rintro σ d ⟨⟨statement, logged, counts⟩, none⟩ rely
  exact ⟨⟨statement, logged, counts⟩, rely.2.2 statement logged rootId counts none⟩

/-- The transaction has locked a root that has not succeeded. -/
def HoldsOpen (rootId : String) (σ : InFlight) : Prop :=
  σ.held (.root rootId) ∧
    ∀ root, σ.view.roots.find? rootId = some root → root.state ≠ .succeeded

/-- A transaction submits operations only to roots that it has locked and that have not
succeeded. It makes a root succeed only if it has locked it and the operations of the root
have ended. -/
structure Orderly (σ : InFlight) : Prop where
  locked : ∀ w ∈ σ.writes, σ.held (RowStore.key Db w)
  submits : ∀ id op, σ.view.operations.find? id = some op →
    (∃ old, σ.committed.operations.find? id = some old ∧ old.rootId = op.rootId) ∨
      HoldsOpen op.rootId σ
  finishes : ∀ id root, σ.view.roots.find? id = some root → root.state = .succeeded →
    (∃ old, σ.committed.roots.find? id = some old ∧ old.state = .succeeded) ∨
      (σ.held (.root id) ∧ σ.committed.Concluded id)

namespace Orderly

variable {σ : InFlight} {β : Type}

theorem initial (d : Db) : Orderly (Local.initial d) where
  locked _ member := (List.not_mem_nil member).elim
  submits _ op found := Or.inl ⟨op, found, rfl⟩
  finishes _ root found ended := Or.inl ⟨root, found, ended⟩

theorem stable : Wp.Stable closing Orderly := by
  -- a row of the view is committed, or the transaction has written and locked it
  intro σ d orderly rely
  refine ⟨orderly.locked, fun id op found => ?_, fun id root found ended => ?_⟩
  · rcases trackedOperations.find?_over rely orderly.locked id with ⟨unchanged, same⟩ | moved
    · rcases orderly.submits id op (same.symm.trans found) with ⟨old, before, root⟩ | held
      · exact Or.inl ⟨old, unchanged.trans before, root⟩
      · refine Or.inr ⟨held.1, fun root there => held.2 root ?_⟩
        exact (trackedRoots.find?_held rely held.1).symm.trans there
    · exact Or.inl ⟨op, moved.symm.trans found, rfl⟩
  · rcases trackedRoots.find?_over rely orderly.locked id with ⟨unchanged, same⟩ | moved
    · rcases orderly.finishes id root (same.symm.trans found) ended with
        ⟨old, before, ended⟩ | ⟨held, concluded⟩
      · exact Or.inl ⟨old, unchanged.trans before, ended⟩
      · -- what others have submitted meanwhile does not belong to a locked root
        refine Or.inr ⟨held, fun id' op there here => ?_⟩
        by_contra pending
        obtain ⟨old, before, same, pending⟩ :=
          rely.2.1 id' op there (eq_false_of_ne_true pending) (here ▸ held)
        rw [concluded id' old before (same.trans here)] at pending
        cases pending
    · exact Or.inl ⟨root, moved.symm.trans found, ended⟩

/-- A write that submits nothing and makes no root succeed, or that submits to an open
root. -/
def Minds (σ : InFlight) : Write → Prop
  | .operation row => (∃ old, σ.view.operations.find? row.operationId = some old ∧
      old.rootId = row.rootId) ∨ HoldsOpen row.rootId σ
  | .root row => row.state = .succeeded →
      ∃ old, σ.view.roots.find? row.rootId = some old ∧ old.state = .succeeded
  | _ => True

theorem holdsOpen_after {rootId : String} {outcome : Outcome Write Key β}
    (held : HoldsOpen rootId σ) (minds : ∀ w ∈ outcome.writes, Minds σ w) :
    HoldsOpen rootId (σ.after outcome) := by
  refine ⟨Local.held_after _ _ held.1, fun root found => ?_⟩
  rw [Local.view_after] at found
  rcases trackedRoots.find?_applyAll outcome.writes σ.view rootId with
    same | ⟨row, member, here, now⟩
  · exact held.2 root (same.symm.trans found)
  · obtain rfl := Option.some.inj (now.symm.trans found)
    -- a write that makes a root succeed finds it succeeded already
    intro ended
    obtain ⟨old, before, ended⟩ := minds _ member ended
    have same : row.rootId = rootId := here
    exact held.2 old (same ▸ before) ended

theorem after (orderly : Orderly σ) {outcome : Outcome Write Key β}
    (minds : ∀ w ∈ outcome.writes, Minds σ w) : Orderly (σ.after outcome) := by
  have submitted : ∀ id op, σ.view.operations.find? id = some op →
      (∃ old, σ.committed.operations.find? id = some old ∧ old.rootId = op.rootId) ∨
        HoldsOpen op.rootId (σ.after outcome) := by
    intro id op found
    exact (orderly.submits id op found).imp_right fun held => holdsOpen_after held minds
  refine ⟨fun w member => ?_, fun id op found => ?_, fun id root found ended => ?_⟩
  · rcases List.mem_append.mp member with old | new
    · exact Local.held_after _ _ (orderly.locked w old)
    · exact Local.held_after_of_write _ _ new
  · rw [Local.view_after] at found
    rcases trackedOperations.find?_applyAll outcome.writes σ.view id with
      same | ⟨row, member, here, now⟩
    · exact submitted id op (same.symm.trans found)
    · obtain rfl := Option.some.inj (now.symm.trans found)
      have key : row.operationId = id := here
      rcases minds _ member with ⟨old, before, same⟩ | held
      · rw [key] at before
        exact same ▸ submitted id old before
      · exact Or.inr (holdsOpen_after held minds)
  · rw [Local.view_after] at found
    have before : ∃ old, σ.view.roots.find? id = some old ∧ old.state = .succeeded := by
      rcases trackedRoots.find?_applyAll outcome.writes σ.view id with
        same | ⟨row, member, here, now⟩
      · exact ⟨root, same.symm.trans found, ended⟩
      · obtain rfl := Option.some.inj (now.symm.trans found)
        have key : row.rootId = id := here
        exact key ▸ minds _ member ended
    obtain ⟨old, found, ended⟩ := before
    exact (orderly.finishes id old found ended).imp_right fun ⟨held, concluded⟩ =>
      ⟨Local.held_after _ _ held, concluded⟩

/-- A transaction that has written nothing yet may end a root whose operations have
ended. -/
theorem after_finish (nothing : σ.writes = [])
    {outcome : Outcome Write Key β} (only : ∀ w ∈ outcome.writes, ∃ row, w = .root row ∧
      (row.state = .succeeded → σ.view.Concluded row.rootId)) : Orderly (σ.after outcome) := by
  -- nothing is written yet, so the count has seen what is committed
  have committed : σ.view = σ.committed := by rw [Local.view, nothing, RowStore.applyAll_nil]
  refine ⟨fun w member => ?_, fun id op found => ?_, fun id root found ended => ?_⟩
  · rw [Local.after_writes, nothing] at member
    exact Local.held_after_of_write _ _ member
  · rw [Local.view_after] at found
    rcases trackedOperations.find?_applyAll outcome.writes σ.view id with
      same | ⟨row, member, -, -⟩
    · exact Or.inl ⟨op, committed ▸ same.symm.trans found, rfl⟩
    · obtain ⟨_, other, -⟩ := only _ member
      cases other
  · rw [Local.view_after] at found
    rcases trackedRoots.find?_applyAll outcome.writes σ.view id with
      same | ⟨row, member, here, now⟩
    · exact Or.inl ⟨root, committed ▸ same.symm.trans found, ended⟩
    · obtain rfl := Option.some.inj (now.symm.trans found)
      obtain ⟨_, same, concluded⟩ := only _ member
      obtain rfl := Write.root.inj same
      have key : row.rootId = id := here
      have held := Local.held_after_of_write σ outcome member
      rw [trackedRoots.key_write row, here] at held
      refine Or.inr ⟨held, ?_⟩
      rw [← key, Local.after_committed, ← committed]
      exact concluded ended

end Orderly

/-! ### Statements -/

section Statements

variable {β : Type} {σ : InFlight}

/-- Transactions that stay orderly. -/
abbrev KeepsOrder {α : Type} (p : Transaction α) : Prop := Wp.Preserves closing Orderly p

theorem keepsOrder_stmt {statement : Sql β}
    (minds : ∀ snapshot (σ : InFlight) busy,
      ∀ w ∈ (Engine.exec statement busy snapshot σ.view).writes, Orderly.Minds σ w) :
    KeepsOrder (Tx.stmt statement) :=
  Wp.Preserves.stmt Orderly.stable (fun _ orderly => ⟨orderly.locked, orderly.submits,
    orderly.finishes⟩) fun snapshot σ busy orderly _ => orderly.after (minds snapshot σ busy)

theorem keepsOrder_other {statement : Sql β} (operations : statement.mayWrite .operations = false)
    (roots : statement.mayWrite .roots = false) : KeepsOrder (Tx.stmt statement) := by
  refine keepsOrder_stmt fun snapshot σ busy w member => ?_
  cases w with
  | operation row =>
    exact absurd rfl (Sql.ne_write_of_mayWrite (T := trackedOperations) (fun _ => rfl) operations
      member row)
  | root row =>
    exact absurd rfl (Sql.ne_write_of_mayWrite (T := trackedRoots) (fun _ => rfl) roots member row)
  | _ => trivial

/-- All statements on operations but the one that submits. -/
def OperationSql.Settles : OperationSql β → Prop
  | .insert .. => False
  | _ => True

theorem keepsOrder_operation {statement : OperationSql β} (settles : statement.Settles) :
    KeepsOrder statement.run := by
  refine keepsOrder_stmt fun snapshot σ busy w member => ?_
  have member : w ∈ (statement.exec busy snapshot σ.view).writes := member
  cases statement with
  | lockIdentity | find | ofTenant | pendingCounts | candidates | forUpdate | pendingOf
  | countPendingOf | pastDeadline | pastRootDeadline | waiting | ofEndedRoots => cases member
  | claimable operationId =>
    rw [OperationSql.exec, Access.selectSkipLocked_writes] at member
    cases member
  | insert => exact settles.elim
  | _ =>
    obtain ⟨old, found, -, rfl⟩ := Access.mem_update_writes member
    refine Or.inl ⟨old, ?_, rfl⟩
    have key : old.operationId = _ := Table.key_of_find? found
    exact key ▸ found

/-- All statements on roots but the one with which `finish_run` ends them. -/
def RootSql.Opens : RootSql β → Prop
  | .insert row => row.Fresh
  | .finish .. => False
  | _ => True

theorem keepsOrder_root {statement : RootSql β} (opens : statement.Opens) :
    KeepsOrder statement.run := by
  refine keepsOrder_stmt fun snapshot σ busy w member => ?_
  have member : w ∈ (statement.exec snapshot σ.view).writes := member
  -- a root that has succeeded had succeeded before
  have keeps {row new : RootRow} {id : String} (found : σ.view.roots.find? id = some row)
      (same : new.rootId = row.rootId) (state : new.state = .succeeded → row.state = .succeeded) :
      Orderly.Minds σ (.root new) := by
    intro ended
    refine ⟨row, ?_, state ended⟩
    have key : row.rootId = id := Table.key_of_find? found
    rw [same, key]
    exact found
  cases statement with
  | forUpdate | forUpdateOfTenant | ofTenant | countRunning => cases member
  | insert row =>
    obtain ⟨rfl, -⟩ := Access.mem_insert_writes member
    intro ended
    rw [opens.1] at ended
    cases ended
  | finish => exact opens.elim
  | countOperation | serve | charge =>
    obtain ⟨row, found, -, rfl⟩ := Access.mem_update_writes member
    exact keeps found rfl id
  | settle =>
    obtain ⟨row, found, -, rfl⟩ := Access.mem_updateChecked_writes member
    exact keeps found rfl id
  | overspend | cancel =>
    obtain ⟨row, found, -, rfl⟩ := Access.mem_update_writes member
    exact keeps found rfl nofun
  | expire =>
    obtain ⟨row, found, -, rfl⟩ := Access.mem_updateAll_writes member
    exact keeps found rfl nofun

theorem keepsOrder_builds : Builds KeepsOrder := by
  refine .of_terminal (Wp.Preserves.closed Orderly.stable) (fun statement plain => ?_)
    fun _ _ _ _ => keepsOrder_operation trivial
  cases statement with
  | root statement =>
    refine keepsOrder_root ?_
    cases statement <;> first | exact plain | exact plain.elim
  | operation statement =>
    refine keepsOrder_operation ?_
    cases statement <;> first | exact plain | trivial
  | _ => exact keepsOrder_other rfl rfl

end Statements

/-! ### Submissions -/

section Submissions

variable {sha256 : String → String} {env : Env} {σ : InFlight} {β : Type}

/-- The transaction has locked a root that it has read. -/
abbrev Locking (root : RootRow) (σ : InFlight) : Prop :=
  Orderly σ ∧ trackedRoots.Pinned root.rootId (fun row => row = root) σ

theorem locking_closed (root : RootRow) :
    Tx.Closed fun {α} (p : Transaction α) => Wp.Preserves closing (Locking root) p :=
  Wp.Preserves.closed (Orderly.stable.and (Tracked.Pinned.stable _))

theorem locking_other {statement : Sql β} {root : RootRow}
    (keeps : KeepsOrder (Tx.stmt statement : Transaction β))
    (roots : statement.mayWrite .roots = false) :
    Wp.Preserves closing (Locking root) (Tx.stmt statement : Transaction β) :=
  keeps.and (Sql.pinned_of_mayWrite _ (fun _ => rfl) roots)

theorem lockRoot {rootId tenantId : String} (orderly : Orderly σ) :
    Wp closing (RootSql.forUpdateOfTenant rootId tenantId).run σ fun result σ' =>
      Orderly σ' ∧ ∀ root ∈ result, root.rootId = rootId ∧ Locking root σ' := by
  refine Wp.perform (fun _ => Orderly.stable) (fun d rely => ?_)
    fun snapshot σ busy orderly _ => Wp.ret fun d rely => ?_
  · -- the snapshot is taken
    have orderly := Orderly.stable σ d orderly rely
    exact ⟨orderly.locked, orderly.submits, orderly.finishes⟩
  · -- the lock is granted, and the row is read as it is now
    have reads : (Engine.exec (Sql.root (.forUpdateOfTenant rootId tenantId)) busy snapshot
        σ.view).writes = [] := rfl
    have orderly' : Orderly (σ.after (Engine.exec
        (Sql.root (.forUpdateOfTenant rootId tenantId)) busy snapshot σ.view)) :=
      orderly.after fun w member => (List.not_mem_nil (reads ▸ member)).elim
    refine ⟨Orderly.stable _ d orderly' rely, fun root selected => ?_⟩
    obtain ⟨locked, found, -⟩ := Access.locked_of_selectForUpdate selected
    have key : root.rootId = rootId := Table.key_of_find? found
    subst key
    exact ⟨rfl, Orderly.stable _ d orderly' rely,
      Tracked.Pinned.stable _ _ d (Tracked.Pinned.of_lock locked reads found rfl) rely⟩

/-- A new operation of a root that is locked and running. -/
theorem admitOperation_orderly {spec : OperationSpec} {root : RootRow}
    (same : root.rootId = spec.rootId) (locking : Locking root σ) :
    Wp closing (Store.admitOperation env spec root) σ fun _ σ' => Orderly σ' := by
  have builds := keepsOrder_builds
  have closed := locking_closed root
  unfold Store.admitOperation
  refine wp_require fun eligible => ?_
  have running : root.state = .running := by
    simp only [Bool.and_eq_true, decide_eq_true_eq] at eligible
    exact eligible.1.2
  have accepts : Wp.Preserves closing (Locking root) (Store.acceptsUnit root spec.budgetUnit) := by
    cases spec.budgetUnit with
    | tokens => exact closed.ret ()
    | resource unit =>
      change Wp.Preserves closing (Locking root) (Store.require _ _)
      unfold Store.require
      split
      · exact closed.ret ()
      · exact closed.raise _
  -- up to the insertion the statements write other tables, and the lock on the root stays
  refine (accepts σ locking).seq fun _ σ locking => ?_
  refine (locking_other (keepsOrder_other rfl rfl) rfl σ locking).seq fun _ σ locking => ?_
  refine (locking_other (keepsOrder_other rfl rfl) rfl σ locking).seq fun _ σ locking => ?_
  refine (locking_other (keepsOrder_operation (by trivial)) rfl σ locking).seq fun _ σ locking => ?_
  refine (locking_other (keepsOrder_other rfl rfl) rfl σ locking).seq fun _ σ locking => ?_
  refine wp_require fun _ => wp_require fun _ => ?_
  have submits : Wp closing (OperationSql.insert (Store.operationRow env spec)).run σ
      fun _ σ' => Orderly σ' := by
    have stable : Wp.Stable closing (Locking root) := Orderly.stable.and (Tracked.Pinned.stable _)
    refine Wp.perform (fun _ => stable) (fun d rely => ?_)
      fun snapshot σ busy locking _ => Wp.ret fun d rely => ?_
    · obtain ⟨orderly, pinned⟩ := stable σ d locking rely
      exact ⟨⟨orderly.locked, orderly.submits, orderly.finishes⟩, pinned⟩
    · refine Orderly.stable _ d (locking.1.after fun w member => ?_) rely
      obtain ⟨rfl, -⟩ := Access.mem_insert_writes member
      -- the root is locked, and still the running one that was read
      have held : HoldsOpen root.rootId σ := by
        refine ⟨locking.2.1, fun row found => ?_⟩
        have row_eq : row = root := locking.2.fact_of_find? found
        rw [row_eq, running]
        nofun
      rw [same] at held
      exact Or.inr held
  refine submits.seq fun _ σ orderly => ?_
  refine (builds.accept _ σ orderly).seq fun _ σ orderly => ?_
  refine (keepsOrder_root (by trivial) σ orderly).seq fun _ σ orderly => ?_
  exact (builds.expireOperation _ _ σ orderly).seq fun _ σ orderly => builds.ret _ σ orderly

theorem submitOperation_orderly (spec : OperationSpec) :
    KeepsOrder (Store.submitOperation sha256 env spec) := by
  intro σ orderly
  have builds := keepsOrder_builds
  unfold Store.submitOperation
  refine (builds.require _ _ σ orderly).seq fun _ σ orderly => ?_
  refine (builds.plain _ (by trivial) σ orderly).seq fun _ σ orderly => ?_
  refine (builds.plain _ (by trivial) σ orderly).seq fun old σ orderly => ?_
  cases old with
  | some old =>
    exact (builds.require _ _ σ orderly).seq fun _ σ orderly => builds.ret _ σ orderly
  | none =>
    refine (lockRoot orderly).seq fun root σ here => ?_
    cases root with
    | none => exact Wp.raise
    | some root =>
      obtain ⟨same, locking⟩ := here.2 root rfl
      exact admitOperation_orderly same locking

end Submissions

/-! ### The end of a root -/

section Finish

variable {sha256 : String → String} {env : Env} {σ : InFlight} {rootId tenantId : String}
  {state : RootState} {result : Option Artifact} {reason : Option String}

/-- The transaction has written nothing. -/
abbrev Unwritten (σ : InFlight) : Prop := Orderly σ ∧ σ.writes = []

theorem unwritten_stable : Wp.Stable closing Unwritten :=
  fun σ d here rely => ⟨Orderly.stable σ d here.1 rely, here.2⟩

theorem unwritten_read {β : Type} {statement : Sql β}
    (reads : ∀ busy snapshot d, (Engine.exec statement busy snapshot d).writes = []) :
    Wp.Preserves closing Unwritten (Tx.stmt statement : Transaction β) := by
  refine Wp.Preserves.stmt unwritten_stable (fun σ here => ⟨⟨here.1.locked, here.1.submits,
    here.1.finishes⟩, here.2⟩) fun snapshot σ busy here _ => ⟨?_, ?_⟩
  · exact here.1.after fun w member => (List.not_mem_nil (reads .. ▸ member)).elim
  · rw [Local.after_writes, here.2, reads]
    rfl

/-- Counting the pending operations of a root: when there is none, there is none until the
transaction ends. -/
theorem count_orderly (here : Unwritten σ) :
    Wp closing (OperationSql.countPendingOf rootId).run σ fun pending σ' =>
      Unwritten σ' ∧ (pending = 0 → HasCounted rootId σ') := by
  have waiting (snapshot : Db) : Wp.Stable closing fun σ =>
      Unwritten σ ∧ (snapshot.pendingOf rootId = [] → HasCounted rootId σ) :=
    fun σ d here rely => ⟨unwritten_stable σ d here.1 rely,
      fun none => HasCounted.stable σ d (here.2 none) rely⟩
  refine Wp.perform waiting (fun d rely => ?_) fun snapshot σ busy here _ => Wp.ret fun d rely => ?_
  · have here := unwritten_stable σ d here rely
    refine ⟨⟨⟨here.1.locked, here.1.submits, here.1.finishes⟩, here.2⟩, fun none => ⟨?_, ?_⟩⟩
    · exact ⟨⟨_, Sql.operation (.countPendingOf rootId)⟩,
        List.mem_append_right _ (List.mem_singleton_self _), rfl⟩
    · -- nothing is written yet, so the statement sees what is committed
      rw [Local.view, here.2, RowStore.applyAll_nil] at none
      exact none
  · obtain ⟨⟨orderly, nothing⟩, counted⟩ := here
    refine ⟨unwritten_stable _ d ⟨orderly.after fun w member => ?_, ?_⟩ rely, fun none => ?_⟩
    · exact (List.not_mem_nil member).elim
    · rw [Local.after_writes, nothing]
      rfl
    · exact HasCounted.stable _ d (counted (List.length_eq_zero_iff.mp none)) rely

/-- A root that succeeds had no pending operation when they were counted, and so has none when
it is written. -/
theorem finishRoot_orderly (here : Unwritten σ) :
    Wp closing (Store.finishRoot env rootId state result reason) σ fun _ σ' => Orderly σ' := by
  have builds := keepsOrder_builds
  unfold Store.finishRoot
  refine (count_orderly here).seq fun pending σ here => wp_require fun checked => ?_
  have known : Unwritten σ ∧ (state = .succeeded → HasCounted rootId σ) := by
    refine ⟨here.1, fun succeeds => here.2 ?_⟩
    simpa [succeeds] using checked
  have stable : Wp.Stable closing fun σ =>
      Unwritten σ ∧ (state = .succeeded → HasCounted rootId σ) :=
    fun σ d here rely => ⟨unwritten_stable σ d here.1 rely,
      fun succeeds => HasCounted.stable σ d (here.2 succeeds) rely⟩
  have finishes : Wp closing (RootSql.finish rootId (env.clock .completion rootId) state result
      reason).run σ fun _ σ' => Orderly σ' := by
    refine Wp.perform (fun _ => stable) (fun d rely => ?_)
      fun snapshot σ busy here _ => Wp.ret fun d rely => ?_
    · obtain ⟨⟨orderly, nothing⟩, counted⟩ := stable σ d known rely
      refine ⟨⟨⟨orderly.locked, orderly.submits, orderly.finishes⟩, nothing⟩, fun succeeds => ?_⟩
      obtain ⟨⟨statement, logged, counts⟩, none⟩ := counted succeeds
      exact ⟨⟨statement, List.mem_append_left _ logged, counts⟩, none⟩
    · refine Orderly.stable _ d (Orderly.after_finish here.1.2 fun w member => ?_) rely
      obtain ⟨row, found, -, rfl⟩ := Access.mem_update_writes member
      refine ⟨_, rfl, fun ended => ?_⟩
      have key : row.rootId = rootId := Table.key_of_find? found
      have succeeds : state = .succeeded := by
        simp only [RootRow.finish] at ended
        split at ended
        · cases ended
        · exact ended
      have committed : σ.view = σ.committed := by rw [Local.view, here.1.2, RowStore.applyAll_nil]
      rw [committed]
      exact Db.concluded_of_pendingOf (key ▸ (here.2 succeeds).2)
  refine finishes.seq fun finished σ orderly => ?_
  cases finished with
  | none => exact Wp.raise
  | some finished =>
    dsimp only
    split
    · exact builds.ret _ σ orderly
    · exact (builds.plain _ (by trivial) σ orderly).seq fun _ σ orderly =>
        builds.terminalAll _ _ _ rfl σ orderly

theorem finishRun_orderly (here : Unwritten σ) :
    Wp closing (Store.finishRun sha256 env rootId tenantId state result reason) σ
      fun _ σ' => Orderly σ' := by
  have builds := keepsOrder_builds
  unfold Store.finishRun
  split
  · exact wp_require fun _ => builds.cancel _ _ (keepsOrder_root (by trivial)) σ here.1
  · refine wp_require fun _ => wp_require fun _ => wp_require fun _ => ?_
    refine (unwritten_read (fun _ _ _ => rfl) σ here).seq fun root σ here => ?_
    cases root with
    | none => exact Wp.raise
    | some root =>
      dsimp only
      split
      · exact builds.require _ _ σ here.1
      · split
        · exact finishRoot_orderly here
        · exact finishRoot_orderly here

end Finish

/-! ### Every method -/

theorem call_orderly {sha256 : String → String} {env : Env} (asked : Call) (d : Db) :
    Wp closing (asked.code sha256 env) (Local.initial d) fun _ σ => Orderly σ := by
  have builds := keepsOrder_builds
  have attempt : ∀ {β : Type} (statement : AttemptSql β), KeepsOrder statement.run :=
    fun _ => keepsOrder_other rfl rfl
  by_cases finish : ∃ rootId tenantId state result reason,
      asked = .finishRun rootId tenantId state result reason
  · obtain ⟨rootId, tenantId, state, result, reason, rfl⟩ := finish
    exact (finishRun_orderly ⟨.initial d, rfl⟩).seq fun _ σ orderly => builds.ret _ σ orderly
  · refine builds.call_of_moves asked (fun _ => keepsOrder_root (by trivial))
      (fun _ _ _ => builds.configurePool _ _ (keepsOrder_other rfl rfl) (keepsOrder_other rfl rfl))
      (fun _ _ _ _ => builds.resumeEngine _ _ _ fun _ => keepsOrder_other rfl rfl)
      submitOperation_orderly attempt
      (fun _ => keepsOrder_operation (by trivial)) (fun _ _ => keepsOrder_root (by trivial))
      (fun _ => keepsOrder_other rfl rfl)
      (fun _ _ _ => builds.reserveNext _ _ fun _ _ => builds.reserveCandidate fun _ _ =>
        builds.reserve (fun _ _ => attempt _) fun _ _ => keepsOrder_operation (by trivial))
      (fun _ {_} statement back => keepsOrder_operation (by cases statement <;> trivial))
      (fun _ _ _ _ _ => builds.decideResult _ _ _ _ (keepsOrder_operation (by trivial)))
      (fun _ _ _ _ _ here => (finish ⟨_, _, _, _, _, here⟩).elim)
      (fun _ _ _ => builds.bindCompletion _ _ _ fun _ => keepsOrder_other rfl rfl)
      (fun _ _ _ => keepsOrder_other rfl rfl) _ (.initial d)

/-- What a transaction commits keeps the law. -/
theorem Orderly.concluded {σ : InFlight} (orderly : Orderly σ) (kept : endedPolicy.Kept σ)
    (done : σ.committed.Done) : σ.view.Done := by
  intro rootId root there succeeded id op found here
  -- an operation of the committed ledger that has ended is still so
  have ends {old : OperationRow} (before : σ.committed.operations.find? id = some old)
      (ended : old.state.terminal = true) : op.state.terminal = true := by
    obtain ⟨row, now, -, stays⟩ :=
      RowRule.stays_of_keeps (T := trackedOperations) kept.keeps before
    obtain rfl := Option.some.inj (now.symm.trans found)
    rw [(stays ended).1]
    exact ended
  rcases orderly.submits id op found with ⟨old, before, same⟩ | held
  · refine ends before ?_
    rcases orderly.finishes rootId root there succeeded with
      ⟨root', there', succeeded'⟩ | ⟨-, concluded⟩
    · exact done rootId root' there' succeeded' id old before (same.trans here)
    · exact concluded id old before (same.trans here)
  · exact absurd succeeded (held.2 root (here.symm ▸ there))

namespace Interleaved

/-- No commit gives a root pending operations, when another transaction in flight has counted
the pending operations of the root and it had none. -/
def CountsStand : Interleaved → Event Asked → Prop := System.Sparing fun _ => SparesCount

theorem sound_closing (sha256 : String → String) :
    Sound (Asked.code sha256) (fun sys event => Undisturbed sys event ∧ CountsStand sys event)
      (fun asked => (settling asked.1).both closing) (fun d => endedPolicy.Sound d ∧ d.Done)
      fun _ _ σ => (endedPolicy.Kept σ ∧ anchoredPolicy.Kept σ) ∧ Orderly σ where
  admits _ _ _ := ⟨trivial, trivial⟩
  code asked d invariant :=
    ((sound_ended sha256).code asked d invariant.1).both (call_orderly asked.1 d)
  commit := by
    rintro sys t session value active prog ok ⟨sane, done⟩ ⟨settled, orderly⟩
    obtain ⟨sound, extra⟩ := (sound_ended sha256).commit active prog ok.1 sane settled
    have kept := settled.1
    refine ⟨⟨sound, orderly.concluded kept done⟩, fun u other apart running => ?_⟩
    refine ⟨extra u other apart running, fun id op found pending held => ?_,
      ok.2 session active u other apart running⟩
    rcases orderly.submits id op found with ⟨old, before, same⟩ | mine
    · refine ⟨old, before, same, eq_false_of_ne_true fun ended => ?_⟩
      obtain ⟨row, now, -, stays⟩ :=
        RowRule.stays_of_keeps (T := trackedOperations) kept.keeps before
      obtain rfl := Option.some.inj (now.symm.trans found)
      rw [(stays ended).1, ended] at pending
      cases pending
    · exact absurd (Option.some.inj (held.symm.trans mine.1)) apart

/-- In every run in which no commit gives a root pending operations that a `finish_run` in
flight has counted and not found, and no commit ends an operation that a settlement in
flight has read, the operations of a root that has succeeded have all ended. -/
theorem Run.done {sha256 : String → String} {authority : Authority} {last : Interleaved}
    (run : Run sha256 (fun sys event => Undisturbed sys event ∧ CountsStand sys event)
      (empty authority) last) {rootId : String} {root : RootRow}
    (found : last.committed.roots.find? rootId = some root)
    (succeeded : root.state = .succeeded) :
    ∀ id op, last.committed.operations.find? id = some op → op.rootId = rootId →
      op.state.terminal = true := by
  have start : endedPolicy.Sound (Db.empty authority) ∧ (Db.empty authority).Done :=
    ⟨RowRule.sound_of_empty fun _ => rfl, fun _ _ none => by cases none⟩
  exact ((sound_closing sha256).invariant_of_run start run).2 rootId root found succeeded

/-- The root of the sample succeeds after its operation has. Another root is accepted between
the count and the `UPDATE`, while the operation is looked at. -/
theorem done_sample :
    ∃ (last : Interleaved) (root : RootRow) (op : OperationRow),
      Run Sample.sha256 (fun sys event => Undisturbed sys event ∧ CountsStand sys event)
        (empty {}) last ∧
      last.committed.roots.find? "r" = some root ∧ root.state = .succeeded ∧
      last.committed.operations.find? "o" = some op ∧ op.state.terminal = true := by
  have implies (sys : Interleaved) (event : Event Asked) (idle : sys.IdleFrom 9)
      (tested : System.SparingBelow (fun asked : Asked => asked.1.spares) 9 sys event ∧
        System.SparingBelow (fun _ => SparesCount) 9 sys event) :
      Undisturbed sys event ∧ CountsStand sys event :=
    ⟨tested.1.sparing idle, tested.2.sparing idle⟩
  obtain ⟨_, last, before, after, -, ended⟩ := exists_runs_below Sample.sha256 {} implies
    (computed ++ alone 6 result 7 ++
      .start 7 (.finishRun "r" "t" .succeeded (some Sample.artifact) none, Sample.env "") ::
        statements 7 2)
    (alone 8 (.createRoot { Sample.root with rootId := "q" }, Sample.env "") 5 ++
      statements 7 1 ++ [.commit 7])
    (fun _ => true)
    (fun sys => ((sys.committed.roots.find? "r").any fun root => root.state = .succeeded) &&
      (sys.committed.operations.find? "o").any fun op => op.rootId = "r") (by decide)
    (by decide +kernel)
  obtain ⟨root, op⟩ := Bool.and_eq_true_iff.mp ended
  obtain ⟨root, found, succeeded⟩ := (Option.any_eq_true _ _).mp root
  obtain ⟨op, there, here⟩ := (Option.any_eq_true _ _).mp op
  have run := before.trans after
  have ended :=
    Run.done run found (of_decide_eq_true succeeded) "o" op there (of_decide_eq_true here)
  exact ⟨last, root, op, run, found, of_decide_eq_true succeeded, there, ended⟩

/-- An operation that is submitted between the count of `finish_run` and its `UPDATE` is
left pending in a root that has succeeded. -/
theorem submits_after_count :
    ∃ (last : Interleaved) (root : RootRow) (op : OperationRow),
      Run Sample.sha256 (fun _ _ => True) (empty {}) last ∧
      last.committed.roots.find? "r" = some root ∧ root.state = .succeeded ∧
      last.committed.operations.find? "o" = some op ∧ op.rootId = "r" ∧
      op.state.terminal = false := by
  obtain ⟨_, last, before, after, -, ended⟩ := exists_runs Sample.sha256 {} (fun _ _ => True)
    (alone 0 (.configurePool (Sample.pool "e") 4, Sample.env "") 3 ++
      alone 1 (.createRoot Sample.root, Sample.env "") 5 ++
      .start 2 (.finishRun "r" "t" .succeeded (some Sample.artifact) none, Sample.env "") ::
        statements 2 2)
    (alone 3 (.submitOperation Sample.operation, Sample.env "") 9 ++ statements 2 1 ++ [.commit 2])
    (fun _ => true)
    (fun sys => ((sys.committed.roots.find? "r").any fun root => root.state = .succeeded) &&
      (sys.committed.operations.find? "o").any fun op =>
        op.rootId = "r" && op.state.terminal = false) (by decide +kernel)
  obtain ⟨root, op⟩ := Bool.and_eq_true_iff.mp ended
  obtain ⟨root, found, succeeded⟩ := (Option.any_eq_true _ _).mp root
  obtain ⟨op, there, here⟩ := (Option.any_eq_true _ _).mp op
  simp only [Bool.and_eq_true, decide_eq_true_eq] at here
  exact ⟨last, root, op, before.trans after, found, of_decide_eq_true succeeded, there, here⟩

end Interleaved

end IntramindRuntime.Ledger
