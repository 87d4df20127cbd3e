import IntramindRuntime.Ledger.CleanupPhases
import IntramindRuntime.Ledger.SentAttempts

/-!
# What a cleanup pass guarantees

`reconcile_expired` has a main transaction, and a transaction of its own for every lost
result that it settles after that. The main transaction leaves a clean ledger. A settlement
charges an attempt whose result is lost with its whole bound, which may take the root above
its limit: then the root fails, and its other operations stay open until the next pass.

## Main definitions

* `Db.Cleans` — what a pass guarantees, but for the roots of what is open
* `Db.Rooted` — what is open belongs to a root that runs
* `Db.Loses` — what the settlements of lost results do

## Main results

* `reconcile_cleans` — what holds when the main transaction commits
* `settleLost_loses` — the settlements one after the other
* `reconcileExpired_cleans` — what holds after the whole pass
-/

namespace IntramindRuntime.Ledger

open Library

/-! ### The guarantees -/

/-- All clocks of a transaction show one time. -/
structure Env.Shows (env : Env) (t : Time) : Prop where
  now : env.now = t
  clock : ∀ reading id, env.clock reading id = t

/-- The attempt is reserved, or may be sent or running. -/
def AttemptRow.Serving (a : AttemptRow) : Prop :=
  a.state = .reserved ∨ a.state = .sendIntent ∨ a.state = .active

/-- The root has failed because it was charged more than its limit. -/
def RootRow.Overspent (root : RootRow) : Prop :=
  root.state = .failed ∧ root.terminalReason = some "observed_usage_exceeds_budget"

/-- What a pass at the time `t` guarantees, where `d'` is what became of `d`: expired roots
and operations have ended, attempts that serve have an owner, every operation that ended is
told of, no compute was given or taken, and an operation that is open agrees with its
attempt if that was taken back. -/
structure Db.Cleans (t : Time) (d d' : Db) : Prop where
  roots : ∀ id root, d'.roots.find? id = some root → root.state = .running → t < root.deadline
  punctual : ∀ id op, d'.operations.find? id = some op → op.state.terminal = false →
    ∀ deadline ∈ op.spec.deadline, t < deadline
  served : ∀ id a, d'.attempts.find? id = some a → a.Serving → d'.leaseLost t a = false
  told : ∀ id op op', d.operations.find? id = some op → op.state.terminal = false →
    d'.operations.find? id = some op' → op'.state.terminal = true → d'.Tells id
  compute : ∀ id a, d.attempts.find? id = some a →
    ∃ a', d'.attempts.find? id = some a' ∧ a'.computeHeld = a.computeHeld
  agrees : ∀ id a a', d.attempts.find? id = some a → a.Serving →
    d'.attempts.find? id = some a' → a'.state ≠ a.state →
    ∀ op, d'.operations.find? a.operationId = some op → op.state.terminal = false →
      op.state = a.reclaimedTo

/-- What is open belongs to a root that runs. -/
def Db.Rooted (d : Db) : Prop :=
  ∀ id op, d.operations.find? id = some op → op.state.terminal = false →
    ∀ root, d.roots.find? op.rootId = some root → root.state = .running

/-- Every attempt is as it was, or was taken back. -/
def Db.Reclaimed (now : Time) (d d' : Db) : Prop :=
  ∀ id a, d.attempts.find? id = some a → d'.attempts.find? id = some a ∨
    d'.attempts.find? id = some (a.reclaimed now) ∧ a.Serving

/-! ### The main transaction -/

section Main

variable {env : Env} {d d' d'' : Db} {t : Time}

theorem Db.leaseLost_of_owners (owners : d'.owners = d.owners) (a : AttemptRow) :
    d'.leaseLost t a = d.leaseLost t a := by
  unfold leaseLost ownerAlive
  rw [owners]

/-- An attempt that is taken back keeps its compute: one that is reserved has none. -/
theorem AttemptRow.reclaimed_computeHeld {a : AttemptRow} (consistent : a.Consistent)
    (now : Time) : (a.reclaimed now).computeHeld = a.computeHeld := by
  unfold reclaimed
  split
  · next reserved =>
    refine (Bool.eq_false_iff.mpr fun held => ?_).symm
    rcases (consistent.compute held).2 with state | state | state <;>
      exact AttemptState.noConfusion (reserved.symm.trans state)
  · rfl

/-- What holds when the main transaction of a pass commits. -/
theorem reconcile_cleans (valid : d.book.Valid) (shows : env.Shows t) :
    (Store.reconcile env).Returns d fun _ d' =>
      d.Cleans t d' ∧ d'.Rooted ∧ d.Reclaimed env.now d' := by
  rw [Store.reconcile_eq]
  refine Tx.Returns.bind ((takeBack_returns env valid).mono fun _ d₁ taken => ?_)
  refine Tx.Returns.bind (failImpossible_returns.mono fun _ d₂ failed => ?_)
  refine Tx.Returns.bind (endRoots_returns.mono fun _ d₃ ended => Tx.Returns.ret ?_)
  have passes : d.Passes d₃ := (taken.toPasses.trans failed.1.toPasses).trans ended.toPasses
  have attempts : d₃.attempts = d₁.attempts := ended.attempts.trans failed.1.attempts
  -- what is open after the last phase was left alone by the last two
  have pending (id : String) (op : OperationRow) (found : d₃.operations.find? id = some op)
      (isOpen : op.state.terminal = false) : d₁.operations.find? id = some op :=
    failed.1.pending id op (ended.pending id op found isOpen) isOpen
  refine ⟨⟨fun id root found running => ?_, fun id op found isOpen deadline here => ?_,
    fun id a found serving => ?_, fun id op op' found isOpen found' closed => ?_,
    fun id a found => ?_, fun id a a' found serving found' moved op here isOpen => ?_⟩,
    ended.running, fun id a found => ?_⟩
  · exact shows.now ▸ ended.expired id root found running
  · have inTime := taken.punctual id op (pending id op found isOpen) isOpen deadline here
    rwa [shows.clock] at inTime
  · rw [attempts] at found
    rw [Db.leaseLost_of_owners passes.owners, ← shows.now]
    exact taken.served id a found serving
  · obtain ⟨old, here, -, -, -, told⟩ := passes.operation id op' found'
    obtain rfl := Option.some.inj (found.symm.trans here)
    exact told isOpen closed
  · rw [attempts]
    rcases taken.attempt id a found with same | ⟨reclaimed, -⟩
    · exact ⟨a, same, rfl⟩
    · exact ⟨_, reclaimed, AttemptRow.reclaimed_computeHeld
        (valid.consistent a (Table.mem_of_find? found)) env.now⟩
  · rw [attempts] at found'
    rcases taken.attempt id a found with same | ⟨-, -, agrees⟩
    · obtain rfl := Option.some.inj (same.symm.trans found')
      exact absurd rfl moved
    · exact agrees op (pending _ op here isOpen) isOpen
  · rw [attempts]
    exact (taken.attempt id a found).imp_right fun taken => ⟨taken.1, taken.2.1⟩

end Main

/-! ### Lost results: roots -/

/-- What a settlement does to a root: one that runs may turn out to be overspent. -/
def RootRow.Charged (old root : RootRow) : Prop :=
  root.deadline = old.deadline ∧
    (root.state = old.state ∧ root.terminalReason = old.terminalReason ∨
      old.state = .running ∧ root.Overspent)

theorem RootRow.Charged.trans {first middle last : RootRow} (before : first.Charged middle)
    (after : middle.Charged last) : first.Charged last := by
  refine ⟨after.1.trans before.1, ?_⟩
  rcases after.2 with ⟨state, reason⟩ | ⟨running, isOver⟩
  · rcases before.2 with ⟨state', reason'⟩ | ⟨running, isOver⟩
    · exact Or.inl ⟨state.trans state', reason.trans reason'⟩
    · exact Or.inr ⟨running, state.trans isOver.1, reason.trans isOver.2⟩
  · rcases before.2 with ⟨state', -⟩ | ⟨-, isOver'⟩
    · exact Or.inr ⟨state'.symm.trans running, isOver⟩
    · cases isOver'.1.symm.trans running

/-- The law of settlements for roots. -/
def charging : RowGrowth RootRow where
  follows := RootRow.Charged
  fresh _ := False
  refl _ := ⟨rfl, Or.inl ⟨rfl, rfl⟩⟩
  trans := RootRow.Charged.trans
  keeps fresh _ := fresh

/-- The statements that charge a root, and those that only read it. -/
def RootSql.Charging {β : Type} : RootSql β → Prop
  | .forUpdate .. | .settle .. | .overspend .. => True
  | _ => False

/-- All statements on other tables, and those that charge a root. -/
def Sql.Charging {β : Type} : Sql β → Prop
  | .root statement => statement.Charging
  | _ => True

/-- The statements with which `_settle` and `_settle_stopped_attempt` work, but for those on
operations. -/
def Sql.Settling {β : Type} : Sql β → Prop
  | .root statement => statement.Charging
  | .budget _ | .attempt _ | .pool _ => True
  | _ => False

theorem Sql.Settling.charging {β : Type} {statement : Sql β} (settling : statement.Settling) :
    statement.Charging := by
  cases statement with
  | root => exact settling
  | _ => trivial

section Charging

variable {β : Type} {env : Env} {d : Db}

theorem charging_keptBy (statement : Sql β) (charges : statement.Charging) :
    (charging.on trackedRoots).KeptBy (Tx.stmt statement : Transaction β) := by
  cases statement with
  | root statement =>
    refine RowChange.keptBy_stmt fun d w member => ?_
    have member : w ∈ (statement.exec d d).writes := member
    cases statement with
    | forUpdate => cases member
    | settle =>
      exact RowGrowth.of_updateChecked (T := trackedRoots) member (fun _ => rfl)
        fun _ _ _ => ⟨rfl, Or.inl ⟨rfl, rfl⟩⟩
    | overspend =>
      exact RowGrowth.of_update (T := trackedRoots) member (fun _ => rfl)
        fun _ _ running => ⟨rfl, Or.inr ⟨by simpa using running, rfl, rfl⟩⟩
    | _ => exact charges.elim
  | _ => exact keptBy_other (fun _ => rfl) rfl

theorem settle_settling (a : AttemptRow) (rootId : String) (usage : Option ℤ) :
    (Store.settle env a rootId usage).Uses Sql.Settling := by
  have charge : (Store.settleBudget a rootId (usage.getD a.budgetBound)).Uses Sql.Settling := by
    unfold Store.settleBudget
    cases a.budgetUnit with
    | tokens => exact ⟨trivial, fun _ => (uses_accept _).bind fun _ => trivial⟩
    | resource => exact ⟨trivial, fun _ => (uses_accept _).bind fun _ => trivial⟩
  unfold Store.settle
  simp only [Tx.bind_eq, Tx.stmt_bind]
  split
  · trivial
  · refine (uses_require _ _).bind fun _ => ⟨trivial, fun _ => charge.bind fun budget => ?_⟩
    cases budget with
    | none => trivial
    | some budget =>
      refine (uses_when ?_).bind fun _ => uses_when ?_
      · exact ⟨trivial, fun _ => trivial⟩
      · exact ⟨trivial, fun _ => trivial⟩

theorem lockBudget_settling (spec : OperationSpec) (root : RootRow) :
    (Store.lockBudget spec root).Uses Sql.Settling := by
  unfold Store.lockBudget
  split
  · trivial
  · exact ⟨trivial, fun _ => trivial⟩

theorem terminal_charging (operationId : String) (state : OperationState) (reason : String) :
    (Store.terminal env operationId state reason).Uses Sql.Charging :=
  ⟨trivial, fun _ => ⟨trivial, fun _ => Tx.Uses.forEach fun _ => ⟨trivial, fun _ => trivial⟩⟩⟩

theorem settleLostResult_charging (attemptId : String) :
    (Store.settleLostResult env attemptId).Uses Sql.Charging := by
  unfold Store.settleLostResult Store.settleStoppedAttempt Store.stopOperation
  simp only [Tx.bind_eq, Tx.stmt_bind]
  refine ⟨trivial, fun found => ?_⟩
  cases found with
  | none => trivial
  | some a =>
    refine Tx.Uses.bind ?_ fun _ => trivial
    refine ((settle_settling ..).mono fun _ => Sql.Settling.charging).bind fun _ => ?_
    refine ⟨trivial, fun _ => ?_⟩
    split
    · trivial
    · refine ⟨trivial, fun root => ?_⟩
      cases root with
      | none => trivial
      | some root =>
        refine ((lockBudget_settling ..).mono fun _ => Sql.Settling.charging).bind fun _ => ?_
        split
        · exact ⟨trivial, fun _ => trivial⟩
        · exact terminal_charging ..

/-- A settlement charges roots, and does nothing else to them. -/
theorem settleLostResult_charges (attemptId : String) :
    (charging.on trackedRoots).KeptBy (Store.settleLostResult env attemptId) :=
  RowChange.keptBy_of_uses (settleLostResult_charging attemptId) charging_keptBy

end Charging

/-! ### Lost results: operations -/

section Operations

variable {β : Type} {env : Env} {d d' d'' : Db}

/-- The tables that a settlement of an attempt leaves alone. -/
def Db.aside (d : Db) : Table OperationRow × Table OutboxRow × Table BindingRow × Table OwnerRow :=
  (d.operations, d.outbox, d.bindings, d.owners)

theorem Db.Passes.of_aside (same : d'.aside = d.aside) : d.Passes d' := by
  obtain ⟨operations, same⟩ := Prod.mk.inj same
  obtain ⟨outbox, same⟩ := Prod.mk.inj same
  obtain ⟨bindings, owners⟩ := Prod.mk.inj same
  refine ⟨bindings, owners, fun id here => outbox ▸ here, fun id here => operations ▸ here,
    fun id op found => ?_⟩
  rw [operations] at found
  exact ⟨op, found, rfl, rfl, fun _ => rfl, fun isOpen closed => by
    cases isOpen.symm.trans closed⟩

theorem aside_settling (statement : Sql β) (d : Db) (settling : statement.Settling) :
    (RowStore.applyAll (Engine.exec statement (fun _ => false) d d).writes d).aside = d.aside := by
  have unwritten : ∀ (writes : List Write) (d : Db), (∀ w ∈ writes, w.table = .roots ∨
      w.table = .budgets ∨ w.table = .attempts ∨ w.table = .groups ∨ w.table = .pools) →
      (RowStore.applyAll writes d).aside = d.aside := by
    intro writes
    induction writes with
    | nil => exact fun _ _ => rfl
    | cons w rest ih =>
      intro d written
      refine (ih _ fun w member => written w (List.mem_cons_of_mem _ member)).trans ?_
      cases w with
      | root | budget | attempt | group | pool => rfl
      | _ => simpa [Write.table] using written _ List.mem_cons_self
  refine unwritten _ d fun w member => ?_
  have may := Sql.mayWrite_of_mem member
  cases statement with
  | root | budget | attempt | pool => simp [Sql.mayWrite] at may; simp [may]
  | _ => exact settling.elim

theorem ensures_settling {α : Type} {p : Transaction α} (uses : p.Uses Sql.Settling) :
    p.Ensures d fun _ d' => d'.aside = d.aside :=
  Tx.Ensures.of_uses uses aside_settling

/-- An open operation is written, and stays open. -/
theorem Db.Passes.of_put (row row' : OperationRow)
    (found : d.operations.find? row.operationId = some row)
    (named : row'.operationId = row.operationId) (spec : row'.spec = row.spec)
    (rootId : row'.rootId = row.rootId) (isOpen : row.state.terminal = false)
    (isOpen' : row'.state.terminal = false) :
    d.Passes (RowStore.apply (Ledger.operations.write row') d) := by
  have here : (d.operations.put row').find? row.operationId = some row' := by
    rw [Table.find?_put]
    exact if_pos named
  have elsewhere (id : String) (other : id ≠ row.operationId) :
      (d.operations.put row').find? id = d.operations.find? id :=
    Table.find?_put_of_ne fun same => other (same.symm.trans named)
  refine ⟨rfl, rfl, fun _ => id, fun id known => ?_, fun id op' found' => ?_⟩
  · change (d.operations.put row').find? id ≠ none
    by_cases same : id = row.operationId
    · rw [same, here]
      exact Option.some_ne_none _
    · rwa [elsewhere id same]
  · change (d.operations.put row').find? id = some op' at found'
    by_cases same : id = row.operationId
    · rw [same, here] at found'
      obtain rfl := Option.some.inj found'
      refine ⟨row, same ▸ found, spec, rootId, fun closed => ?_, fun _ closed => ?_⟩
      · cases isOpen.symm.trans closed
      · cases isOpen'.symm.trans closed
    · rw [elsewhere id same] at found'
      exact ⟨op', found', rfl, rfl, fun _ => rfl, fun still closed => by
        cases still.symm.trans closed⟩

/-- An operation whose attempt has stopped waits again, or ends and is told of. -/
theorem stopOperation_passes {j : Joined} {recover : Bool} {errorClass retryReason : String}
    (found : d.operations.find? j.attempt.operationId = some j.operation)
    (isOpen : j.operation.state.terminal = false) :
    (Store.stopOperation env j recover errorClass retryReason).Ensures d fun _ d' =>
      d.Passes d' := by
  unfold Store.stopOperation
  simp only [Tx.bind_eq, Tx.stmt_bind]
  refine Tx.Ensures.selectForUpdate rfl ?_
  split
  · exact Tx.Ensures.raise
  · refine Tx.Ensures.bind ((ensures_settling (lockBudget_settling ..)).mono
      fun budget d₁ same => ?_)
    have first : d.Passes d₁ := .of_aside same
    have found : d₁.operations.find? j.attempt.operationId = some j.operation := by
      rw [(Prod.mk.inj same).1]
      exact found
    split
    · refine Tx.Ensures.update rfl (fun row found' _ => Tx.Ensures.ret ?_)
        fun _ => Tx.Ensures.ret first
      obtain rfl := Option.some.inj (found'.symm.trans found)
      have named : j.operation.operationId = j.attempt.operationId := Table.key_of_find? found
      exact first.trans (.of_put j.operation _ (named ▸ found) rfl rfl rfl isOpen rfl)
    · exact (terminal_ends _ rfl _).ensures.mono fun _ d₂ one => first.trans one.toPasses

/-- A settlement ends operations only with their events. -/
theorem settleStoppedAttempt_passes {j : Joined} {recover : Bool}
    {errorClass retryReason : String} (joins : Joins d j) :
    (Store.settleStoppedAttempt env recover errorClass retryReason j).Ensures d fun _ d' =>
      d.Passes d' := by
  unfold Store.settleStoppedAttempt
  simp only [Tx.bind_eq, Tx.stmt_bind]
  refine Tx.Ensures.bind ((ensures_settling (settle_settling ..)).mono fun _ d₁ same₁ => ?_)
  refine Tx.Ensures.perform ?_
  generalize last : RowStore.applyAll _ d₁ = d₂
  have same : d₂.aside = d.aside := by
    rw [← last, ← same₁]
    exact aside_settling (.attempt (.stopped j.attempt.attemptId env.now errorClass)) d₁ trivial
  have first : d.Passes d₂ := .of_aside same
  split
  · exact Tx.Ensures.ret first
  · next isOpen =>
    refine (stopOperation_passes ?_ (by simpa using isOpen)).mono fun _ d₃ => first.trans
    rw [(Prod.mk.inj same).1]
    exact joins.operation

end Operations

/-! ### Lost results: the settlements one after the other -/

/-- The inference of the attempt has ended. -/
def AttemptRow.Lost (a : AttemptRow) : Prop :=
  a.state = .backendFinished ∨ a.state = .unknown ∧ a.backendFinishedAt.isSome = true

/-- What settlements of lost results do: they charge roots, only a lost attempt changes, and
what stays open changes its state only with a lost attempt. -/
structure Db.Loses (d d' : Db) : Prop extends Passes d d' where
  root : ∀ id root, d'.roots.find? id = some root →
    ∃ old, d.roots.find? id = some old ∧ old.Charged root
  attempt : ∀ id, d'.attempts.find? id = d.attempts.find? id ∨ ∃ a a',
    d.attempts.find? id = some a ∧ d'.attempts.find? id = some a' ∧ a.Lost ∧
      a'.state = .failed ∧ a'.computeHeld = a.computeHeld
  pending : ∀ id op', d'.operations.find? id = some op' → op'.state.terminal = false →
    ∃ op, d.operations.find? id = some op ∧ (op'.state = op.state ∨
      ∃ a ∈ d.attempts.rows, a.Lost ∧ a.operationId = id)

section Losing

variable {sha256 : String → String} {authority : Authority} {env : Env} {d d' d'' : Db}

theorem Db.lost_of_isLost {now : Time} {a : AttemptRow} (lost : d.isLost now a = true) :
    a.Lost := by
  simp only [Db.isLost, Bool.and_eq_true, Bool.or_eq_true, decide_eq_true_eq] at lost
  exact lost.2.imp And.left id

theorem Db.unheld_of_isLost {now : Time} {a : AttemptRow} (lost : d.isLost now a = true) :
    a.computeHeld = false := by
  simp only [Db.isLost, Bool.and_eq_true, Bool.not_eq_true'] at lost
  exact lost.1.1

theorem AttemptRow.Lost.isOpen {a : AttemptRow} (lost : a.Lost) : a.isOpen := by
  rcases lost with state | ⟨state, -⟩ <;> simp [AttemptRow.isOpen, state, AttemptState.ended]

theorem AttemptRow.Lost.ne_failed {a : AttemptRow} (lost : a.Lost) : a.state ≠ .failed := by
  rcases lost with state | ⟨state, -⟩ <;> simp [state]

theorem Db.Loses.refl (d : Db) : d.Loses d where
  toPasses := .refl d
  root _ root found := ⟨root, found, charging.refl root⟩
  attempt _ := Or.inl rfl
  pending _ op found _ := ⟨op, found, Or.inl rfl⟩

/-- An attempt that is lost was there before. -/
theorem Db.Loses.lost_before (loses : d.Loses d') {a : AttemptRow} (member : a ∈ d'.attempts.rows)
    (lost : a.Lost) : a ∈ d.attempts.rows := by
  have found := Table.find?_of_mem member
  rcases loses.attempt a.attemptId with same | ⟨_, a', -, found', -, failed, -⟩
  · exact Table.mem_of_find? (same.symm.trans found)
  · obtain rfl := Option.some.inj (found.symm.trans found')
    exact absurd failed lost.ne_failed

theorem Db.Loses.trans (first : d.Loses d') (second : d'.Loses d'') : d.Loses d'' where
  toPasses := first.toPasses.trans second.toPasses
  root id root found := by
    obtain ⟨middle, found', after⟩ := second.root id root found
    obtain ⟨old, here, before⟩ := first.root id middle found'
    exact ⟨old, here, before.trans after⟩
  attempt id := by
    rcases second.attempt id with same | ⟨a', a'', found', found'', lost, failed, compute⟩
    · rw [same]
      exact first.attempt id
    · rcases first.attempt id with same | ⟨a, b, -, here, -, failed', -⟩
      · exact Or.inr ⟨a', a'', same.symm.trans found', found'', lost, failed, compute⟩
      · obtain rfl := Option.some.inj (here.symm.trans found')
        exact absurd failed' lost.ne_failed
  pending id op'' found isOpen := by
    obtain ⟨op', found', state⟩ := second.pending id op'' found isOpen
    have isOpen' : op'.state.terminal = false := by
      obtain ⟨old, here, wasOpen⟩ := second.open_before found isOpen
      obtain rfl := Option.some.inj (here.symm.trans found')
      exact wasOpen
    obtain ⟨op, here, before⟩ := first.pending id op' found' isOpen'
    refine ⟨op, here, ?_⟩
    rcases state with same | ⟨a, member, lost, named⟩
    · exact before.imp_left same.trans
    · exact Or.inr ⟨a, first.lost_before member lost, lost, named⟩

/-- A settlement of a lost result does nothing, or settles an attempt that is lost. -/
theorem settleLostResult_rule {post : Bool → Db → Prop} (attemptId : String) (none : post false d)
    (some : ∀ j, Joins d j → d.isLost env.now j.attempt = true →
      (Store.settleStoppedAttempt env true "result_lost_after_backend_finished"
        "result_lost_after_backend_finished" j).Ensures d fun _ d' => post true d') :
    (Store.settleLostResult env attemptId).Ensures d post := by
  unfold Store.settleLostResult
  simp only [Tx.bind_eq, Tx.stmt_bind]
  refine Tx.Ensures.perform ?_
  have exec : Engine.exec (Sql.attempt (AttemptSql.lostResult attemptId env.now))
      (fun _ => false) d d =
        (attempts.selectForUpdate attemptId
          (fun a => d.isLost env.now a && (d.join a).isSome) d d).map
            fun found => found.bind d.join := rfl
  rw [exec]
  simp only [Outcome.map_result, Outcome.map_writes, Access.selectForUpdate, Access.target_self]
  cases here : attempts.find? attemptId
      (fun a => d.isLost env.now a && (d.join a).isSome) d with
  | none => exact Tx.Ensures.ret none
  | some a =>
    obtain ⟨found, lost⟩ := Access.find?_eq_some_iff.mp here
    have named : a.attemptId = attemptId := Table.key_of_find? found
    cases joined : d.join a with
    | none =>
      simp only [Option.bind_some, joined]
      exact Tx.Ensures.ret none
    | some j =>
      simp only [Option.bind_some, joined]
      have joins := Joins.of_join (named.symm ▸ found) joined
      obtain ⟨rfl, -, -⟩ := Db.join_eq_some joined
      rw [Bool.and_eq_true] at lost
      exact Tx.Ensures.bind ((some j joins lost.1).mono fun _ _ settled => Tx.Ensures.ret settled)

/-- One settlement. -/
theorem settleLostResult_loses (valid : d.book.Valid) (attemptId : String) :
    (Store.settleLostResult env attemptId).Ensures d fun _ d' => d.Loses d' ∧ d'.book.Valid := by
  have passes : (Store.settleLostResult env attemptId).Ensures d fun _ d' => d.Passes d' :=
    settleLostResult_rule attemptId (.refl d) fun _ joins _ => settleStoppedAttempt_passes joins
  have ends : (Store.settleLostResult env attemptId).Ensures d fun _ d' => d' = d ∨
      ∃ a, d.attempts.find? a.attemptId = some a ∧ d.isLost env.now a = true ∧
        Ends a .failed d.book d'.book :=
    settleLostResult_rule attemptId (Or.inl rfl) fun j joins lost =>
      (settleStoppedAttempt_spec valid (joins.pending (Db.lost_of_isLost lost).isOpen)).mono
        fun _ _ ends => Or.inr ⟨j.attempt, joins.attempt, lost, ends⟩
  refine ((passes.and (settleLostResult_charges attemptId d)).and (ends.and
    (settleLostResult_refines valid attemptId))).mono fun _ d' reached => ?_
  obtain ⟨⟨passes, charges⟩, ends, path⟩ := reached
  have valid' := path.valid valid
  refine ⟨⟨passes, fun id root found => ?_, fun id => ?_, fun id op' found isOpen => ?_⟩, valid'⟩
  · rcases RowGrowth.cases_of_keeps (T := trackedRoots) charges found with before | ⟨-, none⟩
    · exact before
    · exact none.elim
  · rcases ends with rfl | ⟨a, found, lost, ends⟩
    · exact Or.inl rfl
    · by_cases same : id = a.attemptId
      · subst same
        obtain ⟨a', found', failed⟩ := ends.ended
        refine Or.inr ⟨a, a', found, found', Db.lost_of_isLost lost, failed, ?_⟩
        rw [Db.unheld_of_isLost lost]
        refine Bool.eq_false_iff.mpr fun held => ?_
        have states := ((valid'.consistent a' (Table.mem_of_find? found')).compute held).2
        simp [failed] at states
      · exact Or.inl (ends.attempts id same)
  · rcases ends with rfl | ⟨a, found', lost, ends⟩
    · exact ⟨op', found, Or.inl rfl⟩
    · obtain ⟨op, here, -⟩ := passes.operation id op' found
      refine ⟨op, here, ?_⟩
      by_cases same : id = a.operationId
      · exact Or.inr ⟨a, Table.mem_of_find? found', Db.lost_of_isLost lost, same.symm⟩
      · have tasks := ends.tasks id same
        rw [Db.book_task_of_found found, Db.book_task_of_found here] at tasks
        exact Or.inl (congrArg Task.state (Option.some.inj tasks))

/-- The settlements of a pass. -/
theorem settleLost_loses (settlement : String → Env) (attemptIds : List String)
    (valid : d.book.Valid) : d.Loses (Store.settleLost settlement attemptIds d).2 := by
  induction attemptIds generalizing d with
  | nil => exact .refl d
  | cons attemptId rest ih =>
    unfold Store.settleLost
    cases ran : (Store.settleLostResult (settlement attemptId) attemptId).run d with
    | error error => exact ih valid
    | ok settled =>
      obtain ⟨first, valid'⟩ := settleLostResult_loses valid attemptId settled.1 settled.2 ran
      exact first.trans (ih valid')

end Losing

/-! ### Attempts whose inference has not ended -/

section Unfinished

variable {sha256 : String → String} {authority : Authority} {env : Env} {d : Db}

/-- The inference of an attempt that serves has not ended. -/
def AttemptRow.Unfinished (a : AttemptRow) : Prop := a.Serving → a.backendFinishedAt = none

theorem AttemptRow.Turn.unfinished {old row : AttemptRow} (turn : old.Turn row)
    (before : old.Unfinished) : row.Unfinished := by
  cases turn with
  | renew | settle => exact before
  | fail _ final => rcases final with rfl | rfl <;> rintro (state | state | state) <;> cases state
  | _ => rintro (state | state | state) <;> cases state

/-- What attempts do not lose in any call but `mark_send`. -/
abbrev unfinishedKept : RowChange Db := (RowGrowth.lasting AttemptRow.Unfinished).on trackedAttempts

/-- An attempt that is reserved has not been sent. -/
theorem reserveNext_keepsUnfinished (poolId ownerId : String) :
    unfinishedKept.KeptBy (Store.reserveNext env poolId ownerId) := by
  have builds : Builds unfinishedKept.KeptBy := builds_of_turn fun _ _ => AttemptRow.Turn.unfinished
  refine builds.reserveNext _ _ fun _ _ => builds.reserveCandidate fun root op => ?_
  unfold Store.reserve
  simp only [Tx.bind_eq, Tx.stmt_bind]
  refine builds.perform trivial fun last => builds.closed.perform ?_ fun result =>
    builds.bind (builds.accept result) fun _ => ?_
  · refine RowChange.keptBy_stmt fun d w member => ?_
    simp only [Engine.exec, AttemptSql.exec] at member
    split at member
    · cases member
    · exact RowGrowth.of_insert (T := trackedAttempts) member fun _ => rfl
  · refine builds.closed.perform (keptBy_other (fun _ => rfl) rfl) fun _ => ?_
    exact builds.closed.perform (keptBy_other (fun _ => rfl) rfl) fun _ => builds.ret _

/-- The inference of an attempt that serves has not ended, in any reachable ledger. -/
theorem Reachable.unfinished (reached : Reachable sha256 authority d) :
    ∀ id a, d.attempts.find? id = some a → a.Unfinished := by
  induction reached with
  | empty =>
    intro id a found
    cases found
  | @step d _ request ih =>
    intro id a found
    by_cases send : ∃ env reservation, request = .call env (.markSend reservation)
    · obtain ⟨env, reservation, rfl⟩ := send
      have sends : ((Call.markSend reservation).code sha256 env).Ensures d fun _ d' =>
          ∃ a, d.attempts.find? reservation.attemptId = some a ∧ a.state = .reserved ∧
            d'.attempts = d.attempts.put (a.sendIntent env.now) :=
        ensures_reply (markSend_sends reservation)
      unfold Request.after at found
      split at found
      · rename_i reply d' ran
        obtain ⟨sent, here, reserved, put⟩ := sends reply d' ran
        rw [put, Table.find?_put] at found
        split at found
        · obtain rfl := Option.some.inj found
          exact fun _ => ih _ sent here (Or.inl reserved)
        · exact ih id a found
      · exact ih id a found
    · refine RowGrowth.sane_of_lasting (T := trackedAttempts)
        (request.keeps_of_code fun env asked asks => call_keepsTurns
          (fun _ _ => AttemptRow.Turn.unfinished) asked
          (fun poolId ownerId _ => reserveNext_keepsUnfinished poolId ownerId) ?_) ih found
      rintro reservation rfl
      obtain ⟨env', rfl⟩ := Request.eq_call_of_asks asks trivial
      exact absurd ⟨env', reservation, rfl⟩ send

end Unfinished

/-! ### The whole pass -/

section Pass

variable {sha256 : String → String} {authority : Authority} {env : Env} {d d' d'' : Db} {t : Time}

theorem AttemptRow.Lost.not_serving {a : AttemptRow} (lost : a.Lost) : ¬ a.Serving := by
  rintro (state | state | state) <;> rcases lost with state' | ⟨state', -⟩ <;>
    cases state.symm.trans state'

/-- No lost attempt belongs to an operation whose attempt was taken back. -/
theorem Db.not_lost_of_reclaimed {now : Time} {a b : AttemptRow} {op : OperationRow}
    (valid : d.book.Valid) (unfinished : a.Unfinished) (serving : a.Serving)
    (found : d.attempts.find? a.attemptId = some (a.reclaimed now))
    (here : d.operations.find? a.operationId = some op) (state : op.state = a.reclaimedTo)
    (member : b ∈ d.attempts.rows) (same : b.operationId = a.operationId) : ¬ b.Lost := by
  intro lost
  by_cases reserved : a.state = .reserved
  · -- the operation waits, and so none of its attempts is open
    refine (valid.opened _ _ (Db.book_task_of_found here)).waiting ?_ b member same lost.isOpen
    change op.state.waiting = true
    rw [state, AttemptRow.reclaimedTo, if_pos reserved]
    rfl
  · -- the attempt that was taken back is the open one, and its inference has not ended
    have back : a.reclaimed now = a.lost now := if_neg reserved
    rw [back] at found
    obtain rfl := Db.openAttempts_apart valid member (Table.mem_of_find? found) lost.isOpen
      (by simp [AttemptRow.isOpen, AttemptRow.lost, AttemptState.ended]) same
    rcases lost with state | ⟨-, finished⟩
    · cases state
    · have open_ : (a.lost now).backendFinishedAt = none := unfinished serving
      rw [open_] at finished
      cases finished

/-- Settlements of lost results leave what the main transaction guarantees. -/
theorem Db.Cleans.settled {now : Time} (cleans : d.Cleans t d') (loses : d'.Loses d'')
    (valid : d'.book.Valid) (reclaimed : d.Reclaimed now d')
    (unfinished : ∀ id a, d.attempts.find? id = some a → a.Unfinished) : d.Cleans t d'' where
  roots id root found running := by
    obtain ⟨old, here, deadline, ⟨state, -⟩ | ⟨-, failed, -⟩⟩ := loses.root id root found
    · exact deadline ▸ cleans.roots id old here (state.symm.trans running)
    · cases failed.symm.trans running
  punctual id op found isOpen deadline here := by
    obtain ⟨old, found', spec, -⟩ := loses.operation id op found
    obtain ⟨_, same, wasOpen⟩ := loses.open_before found isOpen
    obtain rfl := Option.some.inj (found'.symm.trans same)
    exact cleans.punctual id old found' wasOpen deadline (spec ▸ here)
  served id a found serving := by
    rw [Db.leaseLost_of_owners loses.owners]
    rcases loses.attempt id with same | ⟨_, a', -, found', -, failed, -⟩
    · exact cleans.served id a (same.symm.trans found) serving
    · obtain rfl := Option.some.inj (found.symm.trans found')
      rcases serving with state | state | state <;> cases failed.symm.trans state
  told id op op'' found isOpen found'' closed := by
    obtain ⟨op', found', -, -, kept, told⟩ := loses.operation id op'' found''
    cases middle : op'.state.terminal with
    | true =>
      exact (cleans.told id op op' found isOpen found' middle).later loses.bindings loses.events
    | false => exact told middle closed
  compute id a found := by
    obtain ⟨a', found', compute⟩ := cleans.compute id a found
    rcases loses.attempt id with same | ⟨b, a'', here, found'', -, -, compute'⟩
    · exact ⟨a', same.trans found', compute⟩
    · obtain rfl := Option.some.inj (here.symm.trans found')
      exact ⟨a'', found'', compute'.trans compute⟩
  agrees id a a'' found serving found'' moved op'' here'' isOpen := by
    obtain rfl : a.attemptId = id := Table.key_of_find? found
    obtain ⟨op', here', state⟩ := loses.pending _ op'' here'' isOpen
    obtain ⟨_, same, wasOpen⟩ := loses.open_before here'' isOpen
    obtain rfl := Option.some.inj (here'.symm.trans same)
    rcases reclaimed _ a found with found' | ⟨found', -⟩
    · -- an attempt that serves is not lost
      rcases loses.attempt a.attemptId with same | ⟨b, _, there, -, lost, -⟩
      · obtain rfl := Option.some.inj (found''.symm.trans (same.trans found'))
        exact absurd rfl moved
      · obtain rfl := Option.some.inj (there.symm.trans found')
        exact absurd serving lost.not_serving
    · have agrees := cleans.agrees _ a _ found serving found' (fun same =>
        a.reclaimed_states now (by rw [same]; exact serving)) op' here' wasOpen
      rcases state with same | ⟨b, member, lost, named⟩
      · exact same.trans agrees
      · exact absurd lost (Db.not_lost_of_reclaimed valid (unfinished _ a found) serving found'
          here' agrees member named)

/-- What a whole pass guarantees: at the commit of its main transaction all is clean, and
the settlements of lost results undo nothing but that what is open belongs to a root that
runs: a root that they find running may fail because it is overspent. -/
theorem reconcileExpired_cleans (reached : Reachable sha256 authority d) (shows : env.Shows t)
    (listing : Env) (settlement : String → Env) :
    ∃ count middle total d', (Store.reconcile env).run d = .ok (count, middle) ∧
      Store.reconcileExpired env listing settlement d = .ok (total, d') ∧
      d.Cleans t middle ∧ middle.Rooted ∧ d.Cleans t d' ∧
      ∀ id op, d'.operations.find? id = some op → op.state.terminal = false →
        ∀ root, d'.roots.find? op.rootId = some root → root.state = .running ∨ root.Overspent ∧
          ∃ old, middle.roots.find? op.rootId = some old ∧ old.state = .running := by
  obtain ⟨count, middle, main, cleans, rooted, reclaimed⟩ :=
    reconcile_cleans reached.valid shows
  have valid : middle.book.Valid :=
    (reconcile_refines reached.valid count middle main).valid reached.valid
  obtain ⟨lost, listed⟩ : ∃ lost, (Store.lostResults listing).run middle = .ok (lost, middle) :=
    ⟨_, rfl⟩
  have loses : middle.Loses (Store.settleLost settlement lost middle).2 :=
    settleLost_loses settlement lost valid
  refine ⟨count, middle, count + (Store.settleLost settlement lost middle).1,
    (Store.settleLost settlement lost middle).2, main, ?_, cleans, rooted,
    cleans.settled loses valid reclaimed reached.unfinished, fun id op found isOpen root here => ?_⟩
  · simp only [Store.reconcileExpired, main, listed, bind, Except.bind]
    rfl
  · obtain ⟨op', found', -, rootId, -⟩ := loses.operation id op found
    obtain ⟨_, same, wasOpen⟩ := loses.open_before found isOpen
    obtain rfl := Option.some.inj (found'.symm.trans same)
    obtain ⟨old, there, -, ⟨state, -⟩ | ⟨running, isOver⟩⟩ := loses.root _ root here
    · exact Or.inl (state.trans (rooted id op' found' wasOpen old (rootId ▸ there)))
    · exact Or.inr ⟨isOver, old, there, running⟩

end Pass

namespace Sample

/-- A root with sixty tokens. -/
def narrow : RootSpec := { root with budgetLimit := 60 }

/-- A second operation of the root. -/
def second : OperationSpec := { operation with operationId := "o2" }

/-- A third one. -/
def third : OperationSpec := { operation with operationId := "o3" }

/-- What the reservation of the second operation returns. -/
def secondReservation : Reservation := { reservation with attemptId := "b", operation := second }

/-- The first operation used ten tokens more than it might, the inference of the second has
ended, and the third waits. -/
def narrowly : List Request :=
  [.call (env "") (.configurePool (pool "e") 4), .call (env "") (.createRoot narrow),
    .call (env "") (.submitOperation operation), .call (env "") (.submitOperation second),
    .call (env "") (.submitOperation third), .call (env "a") (.reserveNext "p" "w"),
    .call (env "b") (.reserveNext "p" "w"), .call (env "") (.markSend reservation),
    .call (env "") (.markSend secondReservation), .call (env "") (.computeFinished reservation),
    .call (env "") (.commitResult reservation artifact (some 40) []),
    .call (env "") (.computeFinished secondReservation)]

/-- After all leases have expired. -/
def late : Env := { env "" with now := 90000000, clock := fun _ _ => 90000000 }

theorem late_shows : late.Shows 90000000 := ⟨rfl, fun _ _ => rfl⟩

end Sample

/-- The settlement of a lost result may end a root, and leave its other operations open. -/
example : (Store.reconcileExpired Sample.late Sample.late (fun _ => Sample.late)
    (Sample.after Sample.narrowly)).toOption.map (fun cleaned =>
      ((cleaned.2.operations.find? "o3").map fun op => (op.state, op.rootId),
        (cleaned.2.roots.find? "r").map RootRow.state)) =
    some (some (.ready, "r"), some .failed) := by decide +kernel

/-- An operation that was reserved, and not sent, waits again. -/
theorem reconcileExpired_cleans_reserved :
    ∃ total d', Store.reconcileExpired Sample.late Sample.late (fun _ => Sample.late)
        (Sample.after Sample.reserved) = .ok (total, d') ∧
      (Sample.after Sample.reserved).Cleans 90000000 d' := by
  obtain ⟨-, -, total, d', -, ran, -, -, cleans, -⟩ := reconcileExpired_cleans
    (Sample.reachable Sample.reserved) Sample.late_shows Sample.late fun _ => Sample.late
  exact ⟨total, d', ran, cleans⟩

end IntramindRuntime.Ledger
