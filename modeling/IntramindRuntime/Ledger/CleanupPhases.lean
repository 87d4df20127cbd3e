import IntramindRuntime.Ledger.Tracking
import IntramindRuntime.Ledger.WorkConservation

/-!
# The phases of a cleanup pass

`reconcile_expired` is a sequence of phases that feed each other: operations past their
deadline end, attempts that nobody serves are taken back, the operations of expired roots
end, requests that no pool can serve fail, and roots and what is left of them end. Most of
these only end operations. What a phase has established must survive the phases after it,
and so each phase is described by what it leaves alone.

## Main definitions

* `Store.takeBack`, `Store.failImpossible`, `Store.endRoots` — the phases
* `Db.Tells` — the completion events of an operation are there
* `Db.Passes` — what no part of a pass undoes
* `Db.OnlyEnds` — what a part does that only ends operations
* `Db.EndsAll` — what a loop does that ends operations
* `Db.Reclaims` — what becomes of an attempt that is taken back

## Main results

* `Store.reconcile_eq` — a pass is the sequence of its phases
* `terminal_ends`, `reconcileAttempt_reclaims` — what one operation, or attempt, undergoes
* `takeBack_returns`, `failImpossible_returns`, `endRoots_returns` — the phases
-/

namespace IntramindRuntime.Ledger

open Library

/-! ### The phases -/

namespace Store

/-- The phases that take attempts back, and end the operations whose time is over. -/
def takeBack (env : Env) : Transaction ℕ := do
  let _ ← (OtherSql.purgeDirect env.now).run
  let direct ← (OtherSql.expireDirect (env.clock .direct) env.now).run
  let _ ← (OtherSql.dropWaiters (env.clock .waiter)).run
  let expiredOperations ← (OperationSql.pastDeadline (env.clock .operationDeadline)).run
  terminalAll env expiredOperations .failed "operation_deadline_exceeded"
  let attempts ← (AttemptSql.expired env.now).run
  Tx.forEach attempts (reconcileAttempt env)
  let expired ← (OperationSql.pastRootDeadline env.now).run
  terminalAll env expired .failed "deadline_exceeded"
  return attempts.length + direct

/-- The phase that fails the requests that no configured pool can serve. -/
def failImpossible (env : Env) : Transaction Unit := do
  let ready ← OperationSql.waiting.run
  let pools ← PoolSql.specs.run
  Tx.forEach ready fun op =>
    match impossible pools op.spec with
    | some reason => terminal env op.operationId .failed reason
    | none => .ret ()

/-- The phase that ends roots, and what is left of their operations. -/
def endRoots (env : Env) : Transaction Unit := do
  let _ ← (RootSql.expire env.now).run
  let ended ← OperationSql.ofEndedRoots.run
  terminalAll env ended .cancelled "root_terminal"

/-- A pass is the sequence of its phases. -/
theorem reconcile_eq (env : Env) : reconcile env = (takeBack env).bind fun count =>
    (failImpossible env).bind fun _ => (endRoots env).bind fun _ => .ret count := by
  conv_rhs =>
    simp only [takeBack, failImpossible, endRoots, Tx.bind_eq, Tx.stmt_bind, Tx.perform_bind,
      Tx.bind_assoc, Tx.pure_eq, Tx.ret_bind]
  rfl

end Store

/-! ### What a part of a pass leaves alone -/

namespace Db

/-- The events that complete the bindings of an operation are in the outbox. -/
def Tells (d : Db) (operationId : String) : Prop :=
  ∀ bindingId ∈ d.bindingsOf operationId, d.outbox.find? (.complete bindingId) ≠ none

/-- What no part of a pass undoes: an operation that has ended stays as it is, and one that
ends is told of. -/
structure Passes (d d' : Db) : Prop where
  bindings : d'.bindings = d.bindings
  owners : d'.owners = d.owners
  events : ∀ id, d.outbox.find? id ≠ none → d'.outbox.find? id ≠ none
  known : ∀ id, d.operations.find? id ≠ none → d'.operations.find? id ≠ none
  operation : ∀ id op', d'.operations.find? id = some op' → ∃ op,
    d.operations.find? id = some op ∧ op'.spec = op.spec ∧ op'.rootId = op.rootId ∧
    (op.state.terminal = true → op' = op) ∧
    (op.state.terminal = false → op'.state.terminal = true → d'.Tells id)

/-- What a part of a pass does that only tells of operations. -/
structure Posts (d d' : Db) : Prop where
  same : d' = { d with outbox := d'.outbox }
  events : ∀ id, d.outbox.find? id ≠ none → d'.outbox.find? id ≠ none

/-- What a part of a pass does that only ends operations. -/
structure OnlyEnds (d d' : Db) : Prop extends Passes d d' where
  roots : d'.roots = d.roots
  attempts : d'.attempts = d.attempts
  pools : d'.pools = d.pools
  pending : ∀ id op, d'.operations.find? id = some op → op.state.terminal = false →
    d.operations.find? id = some op

variable {d d' d'' : Db}

theorem Tells.later {id : String} (tells : d.Tells id) (bindings : d'.bindings = d.bindings)
    (events : ∀ id, d.outbox.find? id ≠ none → d'.outbox.find? id ≠ none) : d'.Tells id := by
  intro bindingId member
  rw [bindingsOf, bindings, ← bindingsOf] at member
  exact events _ (tells bindingId member)

namespace Passes

theorem refl (d : Db) : Passes d d where
  bindings := rfl
  owners := rfl
  events _ := id
  known _ := id
  operation _ op found := ⟨op, found, rfl, rfl, fun _ => rfl, fun isOpen ended => by
    rw [isOpen] at ended
    cases ended⟩

theorem trans (first : Passes d d') (second : Passes d' d'') : Passes d d'' where
  bindings := second.bindings.trans first.bindings
  owners := second.owners.trans first.owners
  events id here := second.events id (first.events id here)
  known id here := second.known id (first.known id here)
  operation id op'' found := by
    obtain ⟨op', found', spec', rootId', kept', told'⟩ := second.operation id op'' found
    obtain ⟨op, found, spec, rootId, kept, told⟩ := first.operation id op' found'
    refine ⟨op, found, spec'.trans spec, rootId'.trans rootId, fun ended => ?_,
      fun isOpen ended => ?_⟩
    · have same := kept ended
      rw [← same] at ended ⊢
      exact kept' ended
    · cases middle : op'.state.terminal with
      | true => exact (told isOpen middle).later second.bindings second.events
      | false => exact told' middle ended

/-- An operation that is open was open. -/
theorem open_before (passes : Passes d d') {id : String} {op' : OperationRow}
    (found : d'.operations.find? id = some op') (isOpen : op'.state.terminal = false) :
    ∃ op, d.operations.find? id = some op ∧ op.state.terminal = false := by
  obtain ⟨op, found, -, -, kept, -⟩ := passes.operation id op' found
  refine ⟨op, found, Bool.eq_false_iff.mpr fun ended => ?_⟩
  rw [kept ended, ended] at isOpen
  cases isOpen

end Passes

namespace Posts

theorem refl (d : Db) : Posts d d := ⟨rfl, fun _ => id⟩

theorem trans (first : Posts d d') (second : Posts d' d'') : Posts d d'' where
  same := by
    rw [second.same, first.same]
  events id here := second.events id (first.events id here)

theorem operations (posts : Posts d d') : d'.operations = d.operations := by rw [posts.same]

theorem bindings (posts : Posts d d') : d'.bindings = d.bindings := by rw [posts.same]

end Posts

namespace OnlyEnds

theorem refl (d : Db) : OnlyEnds d d where
  toPasses := .refl d
  roots := rfl
  attempts := rfl
  pools := rfl
  pending _ _ found _ := found

theorem trans (first : OnlyEnds d d') (second : OnlyEnds d' d'') : OnlyEnds d d'' where
  toPasses := first.toPasses.trans second.toPasses
  roots := second.roots.trans first.roots
  attempts := second.attempts.trans first.attempts
  pools := second.pools.trans first.pools
  pending id op found isOpen := first.pending id op (second.pending id op found isOpen) isOpen

end OnlyEnds

end Db

/-! ### Ending an operation -/

section Ending

variable {env : Env} {d : Db}

/-- An event is there after it was posted. -/
theorem event_posts (eventId : EventId) (kind : EventKind) (aggregateId : String)
    (payload : EventPayload) :
    (Store.event env eventId kind aggregateId payload).Returns d fun _ d' =>
      d.Posts d' ∧ d'.outbox.find? eventId ≠ none := by
  refine Tx.Returns.perform (Tx.Returns.ret ?_)
  simp only [Engine.exec, OutboxSql.exec, Access.insertIgnore]
  split
  · next present => exact ⟨.refl d, Option.isSome_iff_ne_none.mp present⟩
  · refine ⟨⟨rfl, fun id here => ?_⟩, ?_⟩
    · change (d.outbox.put _).find? id ≠ none
      rw [Table.find?_put]
      split
      · exact Option.some_ne_none _
      · exact here
    · change (d.outbox.put _).find? _ ≠ none
      rw [Table.find?_put]
      exact (if_pos rfl).trans_ne (Option.some_ne_none _)

/-- All bindings of an operation are told. -/
theorem completionEvents_tells (operationId : String) :
    (Store.completionEvents env operationId).Returns d fun _ d' =>
      d.Posts d' ∧ d'.Tells operationId := by
  refine Tx.Returns.read rfl ?_
  -- a binding is still to come, or its event is there
  refine (Tx.Returns.forEach (fun rest (d' : Db) => d.Posts d' ∧
    ∀ bindingId ∈ d.bindingsOf operationId, bindingId ∈ rest ∨
      d'.outbox.find? (.complete bindingId) ≠ none)
    ⟨.refl d, fun _ => Or.inl⟩ fun bindingId rest d₁ reached => ?_).mono fun _ d' reached => ?_
  · obtain ⟨posts, done⟩ := reached
    refine (event_posts _ _ _ _).mono fun _ d₂ posted =>
      ⟨posts.trans posted.1, fun other member => ?_⟩
    rcases done other member with coming | told
    · rcases List.mem_cons.mp coming with rfl | later
      · exact Or.inr posted.2
      · exact Or.inl later
    · exact Or.inr (posted.1.events _ told)
  · refine ⟨reached.1, fun bindingId member => ?_⟩
    rw [Db.bindingsOf, reached.1.bindings, ← Db.bindingsOf] at member
    exact (reached.2 bindingId member).resolve_left List.not_mem_nil

/-- An operation after it was to end: one that had ended before is as it was. -/
def OperationRow.ended (state : OperationState) (reason : String) (op : OperationRow) :
    OperationRow := if op.state.terminal then op else op.terminate state reason

theorem OperationRow.ended_terminal {state : OperationState} (terminal : state.terminal = true)
    (reason : String) (op : OperationRow) : (op.ended state reason).state.terminal = true := by
  unfold ended
  split
  · next already => exact already
  · exact terminal

/-- What `_terminal` does to one operation. -/
structure Db.EndsOne (operationId : String) (state : OperationState) (reason : String)
    (d d' : Db) : Prop extends OnlyEnds d d' where
  ended : ∀ op, d.operations.find? operationId = some op →
    d'.operations.find? operationId = some (op.ended state reason)
  others : ∀ id, id ≠ operationId → d'.operations.find? id = d.operations.find? id

/-- An operation that was not open is told of again. -/
theorem Db.Posts.endsOne {operationId reason : String} {state : OperationState} {d' : Db}
    (posts : d.Posts d')
    (ended : ∀ op, d.operations.find? operationId = some op → op.state.terminal = true) :
    d.EndsOne operationId state reason d' where
  bindings := posts.bindings
  owners := by rw [posts.same]
  events := posts.events
  known id here := by rwa [posts.operations]
  operation id op found := by
    rw [posts.operations] at found
    exact (Passes.refl d).operation id op found |>.imp fun old same =>
      ⟨same.1, same.2.1, same.2.2.1, same.2.2.2.1, fun isOpen closed => by
        obtain rfl := Option.some.inj (found.symm.trans same.1)
        rw [isOpen] at closed
        cases closed⟩
  roots := by rw [posts.same]
  attempts := by rw [posts.same]
  pools := by rw [posts.same]
  pending id op found _ := by rwa [posts.operations] at found
  ended op found := by
    rw [posts.operations, found, OperationRow.ended, if_pos (ended op found)]
  others id _ := by rw [posts.operations]

/-- `_terminal` ends an operation that is open, and tells of it. -/
theorem terminal_ends (operationId : String) {state : OperationState}
    (terminal : state.terminal = true) (reason : String) :
    (Store.terminal env operationId state reason).Returns d fun _ d' =>
      d.EndsOne operationId state reason d' := by
  refine Tx.Returns.update rfl (fun row found isOpen => ?_) fun ended => ?_
  · have named : row.operationId = operationId := Table.key_of_find? found
    have isOpen : row.state.terminal = false := by simpa using isOpen
    refine (completionEvents_tells operationId).mono fun _ d' told => ?_
    obtain ⟨posts, tells⟩ := told
    have written : d'.operations = d.operations.put (row.terminate state reason) :=
      posts.operations
    have here : d'.operations.find? operationId = some (row.terminate state reason) := by
      rw [written, Table.find?_put]
      exact if_pos named
    have elsewhere (id : String) (other : id ≠ operationId) :
        d'.operations.find? id = d.operations.find? id := by
      rw [written]
      exact Table.find?_put_of_ne fun same => other (same.symm.trans named)
    exact
      { bindings := posts.bindings
        owners := by rw [posts.same]; rfl
        events := posts.events
        known := fun id known => by
          by_cases same : id = operationId
          · rw [same, here]
            nofun
          · rwa [elsewhere id same]
        operation := fun id op' found' => by
          by_cases same : id = operationId
          · subst same
            obtain rfl := Option.some.inj (here.symm.trans found')
            refine ⟨row, found, rfl, rfl, fun closed => ?_, fun _ _ => tells⟩
            rw [isOpen] at closed
            cases closed
          · rw [elsewhere id same] at found'
            refine ⟨op', found', rfl, rfl, fun _ => rfl, fun still closed => ?_⟩
            rw [still] at closed
            cases closed
        roots := by rw [posts.same]; rfl
        attempts := by rw [posts.same]; rfl
        pools := by rw [posts.same]; rfl
        pending := fun id op' found' still => by
          by_cases same : id = operationId
          · subst same
            obtain rfl := Option.some.inj (here.symm.trans found')
            cases terminal.symm.trans still
          · rwa [elsewhere id same] at found'
        ended := fun op found' => by
          obtain rfl := Option.some.inj (found.symm.trans found')
          rw [here, OperationRow.ended, isOpen]
          rfl
        others := elsewhere }
  · refine (completionEvents_tells operationId).mono fun _ d' told => ?_
    exact told.1.endsOne fun op found => by simpa using ended op found

/-- What a loop does that ends operations for one reason. -/
structure Db.EndsAll (operationIds : List String) (state : OperationState) (d d' : Db) : Prop
    extends OnlyEnds d d' where
  ended : ∀ id ∈ operationIds, ∀ op, d'.operations.find? id = some op →
    op.state.terminal = true
  outcome : ∀ id op', d'.operations.find? id = some op' → ∃ op,
    d.operations.find? id = some op ∧ (op' = op ∨ op'.state = state)

theorem Db.EndsOne.outcome {operationId reason : String} {state : OperationState} {d' : Db}
    (one : d.EndsOne operationId state reason d') {id : String} {op' : OperationRow}
    (found : d'.operations.find? id = some op') :
    ∃ op, d.operations.find? id = some op ∧ (op' = op ∨ op'.state = state) := by
  obtain ⟨op, found', -⟩ := one.operation id op' found
  refine ⟨op, found', ?_⟩
  by_cases same : id = operationId
  · subst same
    obtain rfl := Option.some.inj ((one.ended op found').symm.trans found)
    unfold OperationRow.ended
    split
    · exact Or.inl rfl
    · exact Or.inr rfl
  · rw [one.others id same, found'] at found
    exact Or.inl (Option.some.inj found).symm

/-- All listed operations end, and only these. -/
theorem terminalAll_ends (operationIds : List String) {state : OperationState}
    (terminal : state.terminal = true) (reason : String) :
    (Store.terminalAll env operationIds state reason).Returns d fun _ d' =>
      d.EndsAll operationIds state d' := by
  refine (Tx.Returns.forEach (fun rest (d' : Db) => d.OnlyEnds d' ∧
    (∀ id ∈ operationIds, id ∈ rest ∨ ∀ op, d'.operations.find? id = some op →
      op.state.terminal = true) ∧
    ∀ id op', d'.operations.find? id = some op' → ∃ op,
      d.operations.find? id = some op ∧ (op' = op ∨ op'.state = state))
    ⟨.refl d, fun _ => Or.inl, fun _ op found => ⟨op, found, Or.inl rfl⟩⟩
    fun operationId rest d₁ reached => ?_).mono fun _ d' reached => ?_
  · obtain ⟨ends, done, outcome⟩ := reached
    refine (terminal_ends operationId terminal reason).mono fun _ d₂ one =>
      ⟨ends.trans one.toOnlyEnds, fun id member => ?_, fun id op' found => ?_⟩
    -- an operation that has ended stays so
    · have stays (before : ∀ op, d₁.operations.find? id = some op → op.state.terminal = true)
          (op : OperationRow) (found : d₂.operations.find? id = some op) :
          op.state.terminal = true := by
        obtain ⟨old, found', -, -, kept, -⟩ := one.operation id op found
        have closed := before old found'
        rw [kept closed]
        exact closed
      rcases done id member with coming | closed
      · rcases List.mem_cons.mp coming with rfl | later
        · refine Or.inr fun op found => ?_
          obtain ⟨old, found', -⟩ := one.operation id op found
          obtain rfl := Option.some.inj ((one.ended old found').symm.trans found)
          exact OperationRow.ended_terminal terminal reason old
        · exact Or.inl later
      · exact Or.inr (stays closed)
    · obtain ⟨middle, found₁, rfl | state'⟩ := one.outcome found
      · exact outcome id op' found₁
      · obtain ⟨op, found, -⟩ := outcome id middle found₁
        exact ⟨op, found, Or.inr state'⟩
  · exact { reached.1 with
      ended := fun id member => (reached.2.1 id member).resolve_left List.not_mem_nil
      outcome := reached.2.2 }

end Ending

/-! ### Taking attempts back -/

namespace AttemptRow

/-- The attempt after it was taken back. -/
def reclaimed (now : Time) (a : AttemptRow) : AttemptRow :=
  if a.state = .reserved then a.neverSent else a.lost now

/-- The state of the operation of an attempt that was taken back. -/
def reclaimedTo (a : AttemptRow) : OperationState :=
  if a.state = .reserved then .ready else .reconciling

/-- An attempt that was taken back is not sent any more. -/
theorem reclaimed_states (now : Time) (a : AttemptRow) :
    ¬ ((a.reclaimed now).state = .reserved ∨ (a.reclaimed now).state = .sendIntent ∨
      (a.reclaimed now).state = .active) := by
  unfold reclaimed
  split <;> simp [neverSent, lost]

theorem reclaimed_id (now : Time) (a : AttemptRow) : (a.reclaimed now).attemptId = a.attemptId := by
  unfold reclaimed
  split <;> rfl

end AttemptRow

/-- What becomes of attempts that are taken back, and of their operations. -/
structure Db.Reclaims (now : Time) (taken : List AttemptRow) (d d' : Db) : Prop
    extends Passes d d' where
  roots : d'.roots = d.roots
  pools : d'.pools = d.pools
  attempt : ∀ a ∈ taken, d'.attempts.find? a.attemptId = some (a.reclaimed now)
  attempts : ∀ id, (∀ a ∈ taken, a.attemptId ≠ id) →
    d'.attempts.find? id = d.attempts.find? id
  operation' : ∀ a ∈ taken, ∀ op, d'.operations.find? a.operationId = some op →
    op.state.terminal = false → op.state = a.reclaimedTo
  operations : ∀ id, (∀ a ∈ taken, a.operationId ≠ id) →
    d'.operations.find? id = d.operations.find? id

section Reclaiming

variable {env : Env} {d d' d'' : Db} {now : Time}

theorem Db.Reclaims.nil (d : Db) : d.Reclaims now [] d where
  toPasses := .refl d
  roots := rfl
  pools := rfl
  attempt _ member := (List.not_mem_nil member).elim
  attempts _ _ := rfl
  operation' _ member := (List.not_mem_nil member).elim
  operations _ _ := rfl

/-- Attempts of different operations are taken back one after the other. -/
theorem Db.Reclaims.cons {a : AttemptRow} {rest : List AttemptRow} (first : d.Reclaims now [a] d')
    (second : d'.Reclaims now rest d'') (others : ∀ b ∈ rest, b.attemptId ≠ a.attemptId)
    (apart : ∀ b ∈ rest, b.operationId ≠ a.operationId) : d.Reclaims now (a :: rest) d'' where
  toPasses := first.toPasses.trans second.toPasses
  roots := second.roots.trans first.roots
  pools := second.pools.trans first.pools
  attempt b member := by
    rcases List.mem_cons.mp member with rfl | later
    · rw [second.attempts _ others]
      exact first.attempt b (List.mem_singleton_self b)
    · exact second.attempt b later
  attempts id other := by
    rw [second.attempts id fun b member => other b (List.mem_cons_of_mem a member)]
    exact first.attempts id fun b member =>
      List.mem_singleton.mp member ▸ other a List.mem_cons_self
  operation' b member op found isOpen := by
    rcases List.mem_cons.mp member with rfl | later
    · rw [second.operations _ apart] at found
      exact first.operation' b (List.mem_singleton_self b) op found isOpen
    · exact second.operation' b later op found isOpen
  operations id other := by
    rw [second.operations id fun b member => other b (List.mem_cons_of_mem a member)]
    exact first.operations id fun b member =>
      List.mem_singleton.mp member ▸ other a List.mem_cons_self

/-- An attempt is taken back, and its operation is written if it is open. -/
theorem reclaims_of_writes {a : AttemptRow} {f : OperationRow → OperationRow}
    (statement : OperationSql (Option OperationRow))
    (exec : ∀ d, Engine.exec (Sql.operation statement) (fun _ => false) d d =
      operations.update a.operationId (fun op => !op.state.terminal) f d d)
    (key : ∀ op, (f op).operationId = op.operationId) (spec : ∀ op, (f op).spec = op.spec)
    (rootId : ∀ op, (f op).rootId = op.rootId) (state : ∀ op, (f op).state = a.reclaimedTo) :
    Tx.Returns (statement.run.bind fun _ => .ret ())
      (RowStore.apply (attempts.write (a.reclaimed now)) d) fun _ d' =>
        d.Reclaims now [a] d' := by
  have isOpen : a.reclaimedTo.terminal = false := by
    unfold AttemptRow.reclaimedTo
    split <;> rfl
  have attempt : (d.attempts.put (a.reclaimed now)).find? a.attemptId =
      some (a.reclaimed now) := by
    rw [Table.find?_put]
    exact if_pos (a.reclaimed_id now)
  have attempts (id : String) (other : ∀ b ∈ [a], b.attemptId ≠ id) :
      (d.attempts.put (a.reclaimed now)).find? id = d.attempts.find? id :=
    Table.find?_put_of_ne fun same =>
      other a (List.mem_singleton_self a) ((a.reclaimed_id now).symm.trans same)
  refine Tx.Returns.update (exec _) (fun row found pending => Tx.Returns.ret ?_)
    fun missing => Tx.Returns.ret ?_
  · have named : row.operationId = a.operationId := Table.key_of_find? found
    have here : (d.operations.put (f row)).find? a.operationId = some (f row) := by
      rw [Table.find?_put]
      exact if_pos ((key row).trans named)
    have elsewhere (id : String) (other : id ≠ a.operationId) :
        (d.operations.put (f row)).find? id = d.operations.find? id :=
      Table.find?_put_of_ne fun same => other (same.symm.trans ((key row).trans named))
    exact
      { bindings := rfl
        owners := rfl
        events := fun _ => id
        known := fun id known => by
          change (d.operations.put (f row)).find? id ≠ none
          by_cases same : id = a.operationId
          · rw [same, here]
            nofun
          · rwa [elsewhere id same]
        operation := fun id op' found' => by
          change (d.operations.put (f row)).find? id = some op' at found'
          by_cases same : id = a.operationId
          · rw [same, here] at found'
            obtain rfl := Option.some.inj found'
            refine ⟨row, same ▸ found, spec row, rootId row, fun ended => ?_, fun _ ended => ?_⟩
            · simp [ended] at pending
            · rw [state, isOpen] at ended
              cases ended
          · rw [elsewhere id same] at found'
            refine ⟨op', found', rfl, rfl, fun _ => rfl, fun still closed => ?_⟩
            rw [still] at closed
            cases closed
        roots := rfl
        pools := rfl
        attempt := fun b member => List.mem_singleton.mp member ▸ attempt
        attempts := attempts
        operation' := fun b member op found' _ => by
          obtain rfl := List.mem_singleton.mp member
          obtain rfl := Option.some.inj (here.symm.trans found')
          exact state row
        operations := fun id other => elsewhere id fun same =>
          other a (List.mem_singleton_self a) same.symm }
  · exact
      { bindings := rfl
        owners := rfl
        events := fun _ => id
        known := fun _ => id
        operation := (Db.Passes.refl d).operation
        roots := rfl
        pools := rfl
        attempt := fun b member => List.mem_singleton.mp member ▸ attempt
        attempts := attempts
        operation' := fun b member op found pending => by
          obtain rfl := List.mem_singleton.mp member
          have closed := missing op found
          simp [pending] at closed
        operations := fun _ _ => rfl }

/-- One turn of the loop that takes attempts back. -/
theorem reconcileAttempt_reclaims {a : Expired}
    (found : d.attempts.find? a.attempt.attemptId = some a.attempt)
    (unheld : a.attempt.state = .reserved → a.attempt.budgetHeld = false) :
    (Store.reconcileAttempt env a).Returns d fun _ d' => d.Reclaims env.now [a.attempt] d' := by
  unfold Store.reconcileAttempt
  by_cases reserved : a.attempt.state = .reserved
  · rw [if_pos reserved]
    have uncharged : Store.settle env a.attempt a.rootId (some 0) = .ret () := by
      unfold Store.settle
      rw [unheld reserved]
      rfl
    have back : a.attempt.reclaimed env.now = a.attempt.neverSent := if_pos reserved
    simp only [Tx.bind_eq, uncharged, Tx.ret_bind, Tx.stmt_bind]
    refine Tx.Returns.update rfl (fun row found' _ => ?_) fun missing => ?_
    · obtain rfl := Option.some.inj (found'.symm.trans found)
      rw [← back]
      exact reclaims_of_writes (f := OperationRow.requeue)
        (.requeue a.attempt.operationId) (fun _ => rfl) (fun _ => rfl) (fun _ => rfl)
        (fun _ => rfl) fun _ => (if_pos reserved).symm
    · simpa using missing _ found
  · rw [if_neg reserved]
    have back : a.attempt.reclaimed env.now = a.attempt.lost env.now := if_neg reserved
    simp only [Tx.bind_eq, Tx.stmt_bind]
    refine Tx.Returns.update rfl (fun row found' _ => ?_) fun missing => ?_
    · obtain rfl := Option.some.inj (found'.symm.trans found)
      rw [← back]
      exact reclaims_of_writes (f := OperationRow.reconcile "unknown_compute_or_result")
        (.lose a.attempt.operationId) (fun _ => rfl) (fun _ => rfl) (fun _ => rfl)
        (fun _ => rfl) fun _ => (if_neg reserved).symm
    · simpa using missing _ found

/-- All listed attempts are taken back. -/
theorem reconcileAll_reclaims (taken : List Expired)
    (found : ∀ a ∈ taken, d.attempts.find? a.attempt.attemptId = some a.attempt)
    (unheld : ∀ a ∈ taken, a.attempt.state = .reserved → a.attempt.budgetHeld = false)
    (distinct : (taken.map fun a => a.attempt.attemptId).Nodup)
    (apart : (taken.map fun a => a.attempt.operationId).Nodup) :
    (Tx.forEach taken (Store.reconcileAttempt env)).Returns d fun _ d' =>
      d.Reclaims env.now (taken.map Expired.attempt) d' := by
  induction taken generalizing d with
  | nil => exact Tx.Returns.ret (.nil d)
  | cons a rest ih =>
    rw [List.map_cons, List.nodup_cons] at distinct apart
    have others (b : Expired) (member : b ∈ rest) : b.attempt.attemptId ≠ a.attempt.attemptId :=
      fun same => distinct.1 (List.mem_map.mpr ⟨b, member, same⟩)
    refine Tx.Returns.bind ((reconcileAttempt_reclaims (found a List.mem_cons_self)
      (unheld a List.mem_cons_self)).mono fun _ d₁ first => ?_)
    refine (ih (fun b member => ?_) (fun b member => unheld b (List.mem_cons_of_mem a member))
      distinct.2 apart.2).mono fun _ d₂ second => first.cons second ?_ ?_
    · rw [first.attempts _ fun c here => List.mem_singleton.mp here ▸ (others b member).symm]
      exact found b (List.mem_cons_of_mem a member)
    · intro b member
      obtain ⟨b, listed, rfl⟩ := List.mem_map.mp member
      exact others b listed
    · intro b member same
      obtain ⟨b, listed, rfl⟩ := List.mem_map.mp member
      exact apart.1 (List.mem_map.mpr ⟨b, listed, same⟩)

end Reclaiming

/-! ### The phases, one after the other -/

/-- Only direct attempts and their waiters have changed. -/
def Db.Beside (d d' : Db) : Prop :=
  d' = { d with directAttempts := d'.directAttempts, directWaiters := d'.directWaiters }

/-- What the phases that take attempts back leave: open operations are in time, no attempt
that may be sent or running is without an owner, and an attempt is as it was or taken back. -/
structure Db.TakesBack (env : Env) (d d' : Db) : Prop extends Passes d d' where
  roots : d'.roots = d.roots
  pools : d'.pools = d.pools
  punctual : ∀ id op, d'.operations.find? id = some op → op.state.terminal = false →
    ∀ deadline ∈ op.spec.deadline, env.clock .operationDeadline id < deadline
  served : ∀ id a, d'.attempts.find? id = some a →
    a.state = .reserved ∨ a.state = .sendIntent ∨ a.state = .active →
    d.leaseLost env.now a = false
  attempt : ∀ id a, d.attempts.find? id = some a → d'.attempts.find? id = some a ∨
    d'.attempts.find? id = some (a.reclaimed env.now) ∧
      (a.state = .reserved ∨ a.state = .sendIntent ∨ a.state = .active) ∧
      ∀ op, d'.operations.find? a.operationId = some op → op.state.terminal = false →
        op.state = a.reclaimedTo

/-- What the phase that ends roots leaves: an expired root has ended, and what is open
belongs to a root that runs. -/
structure Db.EndsRoots (now : Time) (d d' : Db) : Prop extends Passes d d' where
  attempts : d'.attempts = d.attempts
  pools : d'.pools = d.pools
  pending : ∀ id op, d'.operations.find? id = some op → op.state.terminal = false →
    d.operations.find? id = some op
  expired : ∀ id root, d'.roots.find? id = some root → root.state = .running →
    now < root.deadline
  running : ∀ id op, d'.operations.find? id = some op → op.state.terminal = false →
    ∀ root, d'.roots.find? op.rootId = some root → root.state = .running
  outcome : ∀ id op', d'.operations.find? id = some op' → ∃ op,
    d.operations.find? id = some op ∧ (op' = op ∨ op'.state = .cancelled)

section Phases

variable {env : Env} {d d' d'' : Db}

theorem Db.Beside.trans (first : d.Beside d') (second : d'.Beside d'') : d.Beside d'' := by
  unfold Beside at *
  rw [second, first]

theorem Db.Beside.onlyEnds (beside : d.Beside d') : d.OnlyEnds d' := by
  rw [beside]
  exact { Db.OnlyEnds.refl d with }

theorem beside_applyAll {writes : List Write}
    (direct : ∀ w ∈ writes, w.table = .directAttempts ∨ w.table = .directWaiters) :
    d.Beside (RowStore.applyAll writes d) := by
  induction writes generalizing d with
  | nil => rfl
  | cons w rest ih =>
    have first : d.Beside (w.apply d) := by
      have here := direct w List.mem_cons_self
      cases w with
      | directAttempt | dropDirectAttempt | dropDirectWaiter => rfl
      | _ => rcases here with here | here <;> cases here
    exact first.trans (ih fun v member => direct v (List.mem_cons_of_mem w member))

/-- A statement on direct attempts or waiters. -/
theorem returns_beside {α β : Type} {statement : OtherSql β} {next : β → Transaction α}
    {post : α → Db → Prop}
    (direct : ∀ w ∈ (statement.exec d d).writes,
      w.table = .directAttempts ∨ w.table = .directWaiters)
    (rest : ∀ value d', d.Beside d' → (next value).Returns d' post) :
    Tx.Returns (.perform (Sql.other statement) next) d post :=
  Tx.Returns.perform (rest _ _ (beside_applyAll direct))

/-- Attempts that are open together belong to different operations. -/
theorem Db.openAttempts_apart (valid : d.book.Valid) {a b : AttemptRow}
    (here : a ∈ d.attempts.rows) (there : b ∈ d.attempts.rows) (isOpen : a.isOpen)
    (isOpen' : b.isOpen) (same : a.operationId = b.operationId) : a = b := by
  obtain ⟨task, found, -⟩ := valid.linked.attempt a here
  have agrees := valid.opened _ _ found
  have first := agrees.active a here rfl isOpen
  have second := agrees.active b there same.symm isOpen'
  have named : a.attemptId = b.attemptId := Option.some.inj (first.symm.trans second)
  exact Option.some.inj ((Table.find?_of_mem here).symm.trans
    ((congrArg d.attempts.find? named).trans (Table.find?_of_mem there)))

theorem AttemptRow.isOpen_of_states {a : AttemptRow}
    (states : a.state = .reserved ∨ a.state = .sendIntent ∨ a.state = .active) : a.isOpen := by
  rcases states with state | state | state <;> simp [isOpen, state, AttemptState.ended]

/-- The states of the attempts that are taken back. -/
theorem Db.states_of_isExpired {now : Time} {a : AttemptRow} {op : OperationRow}
    (consistent : a.Consistent) (expired : d.isExpired now a op = true) :
    a.state = .reserved ∨ a.state = .sendIntent ∨ a.state = .active := by
  simp only [isExpired, Bool.and_eq_true, Bool.or_eq_true, decide_eq_true_eq,
    Bool.not_eq_true'] at expired
  obtain ⟨⟨-, states⟩, computing⟩ := expired
  rcases states with ((state | state) | state) | state
  · exact Or.inl state
  · exact Or.inr (Or.inl state)
  · exact Or.inr (Or.inr state)
  · -- an engine that has finished does not compute
    have held : a.computeHeld = true := by simpa [state] using computing
    simpa [state] using (consistent.compute held).2

/-- The attempts that the pass takes back. -/
def Db.expiredAttempts (d : Db) (now : Time) : List Expired := d.attempts.rows.filterMap fun a =>
  ((d.operations.find? a.operationId).filter fun op => d.isExpired now a op).map
    fun op => ⟨a, op.rootId⟩

theorem Db.expired_of_mem {now : Time} {a : Expired} (member : a ∈ d.expiredAttempts now) :
    a.attempt ∈ d.attempts.rows ∧ ∃ op, d.operations.find? a.attempt.operationId = some op ∧
      d.isExpired now a.attempt op = true := by
  obtain ⟨row, inTable, chosen⟩ := List.mem_filterMap.mp member
  obtain ⟨op, found, rfl⟩ := Option.map_eq_some_iff.mp chosen
  exact ⟨inTable, op, Option.filter_eq_some_iff.mp found⟩

/-- The attempts that the pass takes back, and the others. -/
theorem takeBack_returns (env : Env) (valid : d.book.Valid) :
    (Store.takeBack env).Returns d fun _ d' => d.TakesBack env d' := by
  unfold Store.takeBack
  simp only [Tx.bind_eq, Tx.stmt_bind]
  refine returns_beside (fun w member => ?_) fun _ d₁ beside₁ => ?_
  · obtain ⟨row, -, rfl⟩ := List.mem_map.mp member
    exact Or.inl rfl
  refine returns_beside (fun w member => ?_) fun direct d₂ beside₂ => ?_
  · obtain ⟨row, -, -, rfl⟩ := Access.mem_updateAll_writes member
    exact Or.inl rfl
  refine returns_beside (fun w member => ?_) fun _ d₃ beside₃ => ?_
  · obtain ⟨row, -, rfl⟩ := List.mem_map.mp member
    exact Or.inr rfl
  have before := ((beside₁.trans beside₂).trans beside₃).onlyEnds
  -- operations past their own deadline end
  refine Tx.Returns.read rfl (Tx.Returns.bind
    ((terminalAll_ends _ rfl _).mono fun _ d₄ ended => ?_))
  have punctual (id : String) (op : OperationRow) (found : d₄.operations.find? id = some op)
      (isOpen : op.state.terminal = false) :
      ∀ deadline ∈ op.spec.deadline, env.clock .operationDeadline id < deadline := by
    intro deadline here
    by_contra late
    have found₃ := ended.pending id op found isOpen
    obtain rfl : op.operationId = id := Table.key_of_find? found₃
    refine Bool.false_ne_true (isOpen.symm.trans (ended.ended _ ?_ op found))
    refine List.mem_map.mpr ⟨op, List.mem_filter.mpr ⟨Table.mem_of_find? found₃, ?_⟩, rfl⟩
    simp only [isOpen, Bool.not_false, Bool.true_and, Option.any_eq_true, decide_eq_true_eq]
    exact ⟨deadline, here, not_lt.mp late⟩
  have before₄ := before.trans ended.toOnlyEnds
  -- attempts are taken back
  have listed {a : Expired} (member : a ∈ d₄.expiredAttempts env.now) :
      a.attempt ∈ d.attempts.rows ∧ (a.attempt.state = .reserved ∨
        a.attempt.state = .sendIntent ∨ a.attempt.state = .active) := by
    obtain ⟨here, op, -, expired⟩ := Db.expired_of_mem member
    rw [before₄.attempts] at here
    exact ⟨here, Db.states_of_isExpired (valid.consistent _ here) expired⟩
  have distinct : ((d₄.expiredAttempts env.now).map fun a => a.attempt.attemptId).Nodup := by
    refine Table.nodup_filterMap d₄.attempts.nodup fun row a chosen => ?_
    obtain ⟨op, -, rfl⟩ := Option.map_eq_some_iff.mp chosen
    rfl
  refine Tx.Returns.read rfl (Tx.Returns.bind ((reconcileAll_reclaims (d₄.expiredAttempts env.now)
    (fun a member => Table.find?_of_mem (Db.expired_of_mem member).1)
    (fun a member reserved => ((valid.consistent _ (listed member).1).uncharged reserved).1)
    distinct (List.Nodup.map_on (fun a member b member' same => ?_) distinct.of_map)).mono
      fun _ d₅ reclaims => ?_))
  · refine List.inj_on_of_nodup_map distinct member member' ?_
    obtain ⟨here, state⟩ := listed member
    obtain ⟨there, state'⟩ := listed member'
    rw [Db.openAttempts_apart valid here there (AttemptRow.isOpen_of_states state)
      (AttemptRow.isOpen_of_states state') same]
  -- the operations of roots past their deadline end
  refine Tx.Returns.read rfl (Tx.Returns.bind
    ((terminalAll_ends _ rfl _).mono fun _ d₆ last => Tx.Returns.ret ?_))
  have owners : d₄.owners = d.owners := before₄.owners
  refine { ((before₄.toPasses.trans reclaims.toPasses).trans last.toPasses) with
    roots := last.roots.trans (reclaims.roots.trans before₄.roots)
    pools := last.pools.trans (reclaims.pools.trans before₄.pools)
    punctual := fun id op found isOpen deadline here => ?_
    served := fun id a found states => ?_
    attempt := fun id a found => ?_ }
  · obtain ⟨op₅, found₅, open₅⟩ := last.open_before found isOpen
    obtain rfl := Option.some.inj ((last.pending id op found isOpen).symm.trans found₅)
    obtain ⟨op₄, found₄, spec, -, kept, -⟩ := reclaims.operation id _ found₅
    have open₄ : op₄.state.terminal = false := by
      refine Bool.eq_false_iff.mpr fun closed => ?_
      rw [kept closed, closed] at isOpen
      cases isOpen
    exact punctual id op₄ found₄ open₄ deadline (spec ▸ here)
  · rw [last.attempts] at found
    by_cases taken : ∃ b ∈ (d₄.expiredAttempts env.now).map Expired.attempt, b.attemptId = id
    · obtain ⟨b, member, rfl⟩ := taken
      obtain rfl := Option.some.inj ((reclaims.attempt b member).symm.trans found)
      exact absurd states (AttemptRow.reclaimed_states env.now b)
    · rw [reclaims.attempts id fun b member same => taken ⟨b, member, same⟩] at found
      obtain rfl : a.attemptId = id := Table.key_of_find? found
      refine Bool.eq_false_iff.mpr fun lost => taken ⟨a, ?_, rfl⟩
      have here := Table.mem_of_find? found
      rw [before₄.attempts] at here
      obtain ⟨task, linked, -⟩ := valid.linked.attempt a here
      obtain ⟨op, stored, -⟩ := Option.map_eq_some_iff.mp linked
      have known : d.operations.find? a.operationId ≠ none := by
        rw [stored]
        nofun
      obtain ⟨op₄, stored₄⟩ := Option.ne_none_iff_exists'.mp (before₄.known _ known)
      have expired : d₄.isExpired env.now a op₄ = true := by
        have lost₄ : d₄.leaseLost env.now a = true := by
          rw [← lost, Db.leaseLost, Db.leaseLost, Db.ownerAlive, Db.ownerAlive, owners]
        rcases states with state | state | state <;> simp [Db.isExpired, lost₄, state]
      refine List.mem_map.mpr ⟨⟨a, op₄.rootId⟩, List.mem_filterMap.mpr ⟨a, ?_, ?_⟩, rfl⟩
      · rw [before₄.attempts]
        exact here
      · rw [stored₄, Option.filter_some, if_pos expired]
        rfl
  · rw [last.attempts]
    rw [← before₄.attempts] at found
    by_cases taken : ∃ b ∈ (d₄.expiredAttempts env.now).map Expired.attempt, b.attemptId = id
    · obtain ⟨_, member, rfl⟩ := taken
      obtain ⟨b, chosen, rfl⟩ := List.mem_map.mp member
      have stored := Table.find?_of_mem (Db.expired_of_mem chosen).1
      obtain rfl : b.attempt = a := Option.some.inj (stored.symm.trans found)
      refine Or.inr ⟨reclaims.attempt _ member, (listed chosen).2, fun op found' isOpen => ?_⟩
      exact reclaims.operation' _ member op (last.pending _ op found' isOpen) isOpen
    · exact Or.inl ((reclaims.attempts id fun b member same => taken ⟨b, member, same⟩).trans found)

/-- The waiting operations that the pass looks at: the oldest ones. -/
def Db.examined (d : Db) : List OperationRow :=
  ((d.operations.rows.filter fun op => op.state.waiting).insertionSort
    fun a b => a.createdAt ≤ b.createdAt).take 256

theorem Db.mem_of_examined {op : OperationRow} (member : op ∈ d.examined) :
    d.operations.find? op.operationId = some op ∧ op.state.waiting = true := by
  have listed := List.mem_of_mem_take member
  rw [List.mem_insertionSort, List.mem_filter] at listed
  exact ⟨Table.find?_of_mem listed.1, listed.2⟩

theorem Db.nodup_examined : (d.examined.map OperationRow.operationId).Nodup := by
  refine List.Nodup.sublist ((List.take_sublist _ _).map _) ?_
  refine ((List.perm_insertionSort _ _).map _).nodup_iff.mpr ?_
  exact d.operations.nodup.sublist (List.filter_sublist.map _)

/-- A waiting operation after the pass has looked at it. -/
def OperationRow.judged (pools : List PoolSpec) (op : OperationRow) : OperationRow :=
  match Store.impossible pools op.spec with
  | some reason => op.terminate .failed reason
  | none => op

/-- The operations that the pass looks at end if no pool can serve them. -/
theorem failImpossible_returns :
    (Store.failImpossible env).Returns d fun _ d' => d.OnlyEnds d' ∧
      ∀ op ∈ d.examined, d'.operations.find? op.operationId =
        some (op.judged (d.pools.rows.map PoolRow.spec)) := by
  unfold Store.failImpossible
  simp only [Tx.bind_eq, Tx.stmt_bind]
  refine Tx.Returns.read rfl (Tx.Returns.read rfl ?_)
  -- an operation is still to come, and is as it was, or has been judged
  refine (Tx.Returns.forEach (fun rest (d' : Db) => d.OnlyEnds d' ∧
    (rest.map OperationRow.operationId).Nodup ∧
    (∀ op ∈ rest, op ∈ d.examined ∧ d'.operations.find? op.operationId = some op) ∧
    ∀ op ∈ d.examined, op ∈ rest ∨ d'.operations.find? op.operationId =
      some (op.judged (d.pools.rows.map PoolRow.spec)))
    ⟨.refl d, d.nodup_examined, fun op member => ⟨member, (Db.mem_of_examined member).1⟩,
      fun _ => Or.inl⟩ fun op rest d₁ reached => ?_).mono fun _ d' reached => ?_
  · obtain ⟨ends, distinct, coming, done⟩ := reached
    rw [List.map_cons, List.nodup_cons] at distinct
    obtain ⟨listed, stored⟩ := coming op List.mem_cons_self
    have apart (other : OperationRow) (later : other ∈ rest) :
        other.operationId ≠ op.operationId :=
      fun same => distinct.1 (List.mem_map.mpr ⟨other, later, same⟩)
    -- what holds after the turn, if it leaves other operations alone
    have turn (d₂ : Db) (one : d₁.OnlyEnds d₂)
        (judged : d₂.operations.find? op.operationId =
          some (op.judged (d.pools.rows.map PoolRow.spec)))
        (others : ∀ id, id ≠ op.operationId →
          d₂.operations.find? id = d₁.operations.find? id) : d.OnlyEnds d₂ ∧
        (rest.map OperationRow.operationId).Nodup ∧
        (∀ op ∈ rest, op ∈ d.examined ∧ d₂.operations.find? op.operationId = some op) ∧
        ∀ op ∈ d.examined, op ∈ rest ∨ d₂.operations.find? op.operationId =
          some (op.judged (d.pools.rows.map PoolRow.spec)) := by
      refine ⟨ends.trans one, distinct.2, fun other later => ?_, fun other member => ?_⟩
      · obtain ⟨listed', stored'⟩ := coming other (List.mem_cons_of_mem op later)
        exact ⟨listed', (others _ (apart other later)).trans stored'⟩
      · by_cases same : other.operationId = op.operationId
        · obtain rfl := List.inj_on_of_nodup_map d.nodup_examined member listed same
          exact Or.inr judged
        · rcases done other member with later | told
          · rcases List.mem_cons.mp later with rfl | later
            · exact absurd rfl same
            · exact Or.inl later
          · exact Or.inr ((others _ same).trans told)
    cases verdict : Store.impossible (d.pools.rows.map PoolRow.spec) op.spec with
    | none =>
      refine Tx.Returns.ret (turn d₁ (.refl d₁) ?_ fun _ _ => rfl)
      rw [OperationRow.judged, verdict]
      exact stored
    | some reason =>
      refine (terminal_ends op.operationId rfl reason).mono fun _ d₂ one =>
        turn d₂ one.toOnlyEnds ?_ one.others
      have isOpen : op.state.terminal = false :=
        OperationState.not_terminal_of_waiting (Db.mem_of_examined listed).2
      rw [one.ended op stored, OperationRow.judged, verdict, OperationRow.ended, isOpen]
      rfl
  · exact ⟨reached.1, fun op member => (reached.2.2.2 op member).resolve_left List.not_mem_nil⟩

/-- Only roots have changed. -/
def Db.BesideRoots (d d' : Db) : Prop := d' = { d with roots := d'.roots }

theorem Db.BesideRoots.trans (first : d.BesideRoots d') (second : d'.BesideRoots d'') :
    d.BesideRoots d'' := by
  unfold BesideRoots at *
  rw [second, first]

theorem besideRoots_applyAll {writes : List Write} (roots : ∀ w ∈ writes, w.table = .roots) :
    d.BesideRoots (RowStore.applyAll writes d) := by
  induction writes generalizing d with
  | nil => rfl
  | cons w rest ih =>
    have first : d.BesideRoots (w.apply d) := by
      have here := roots w List.mem_cons_self
      cases w with
      | root => rfl
      | _ => cases here
    exact first.trans (ih fun v member => roots v (List.mem_cons_of_mem w member))

/-- The roots that have expired end. -/
theorem expire_returns {α : Type} {next : ℕ → Transaction α} {post : α → Db → Prop}
    (rest : ∀ count d', d.BesideRoots d' → (∀ id root, d'.roots.find? id = some root →
      root.state = .running → env.now < root.deadline) → (next count).Returns d' post) :
    Tx.Returns (.perform (Sql.root (.expire env.now)) next) d post := by
  refine Tx.Returns.perform (rest _ _ (besideRoots_applyAll fun w member => ?_)
    fun id root found running => ?_)
  · obtain ⟨row, -, -, rfl⟩ := Access.mem_updateAll_writes member
    rfl
  · -- a root that still runs was not written, and so it did not fit the condition
    have writes : (Engine.exec (Sql.root (.expire env.now)) (fun _ => false) d d).writes =
        ((d.roots.rows.filter fun root => root.state = .running &&
          decide (root.deadline ≤ env.now)).map (RootRow.expire env.now)).map
            trackedRoots.write := by
      simp only [Engine.exec, RootSql.exec, Access.updateAll, Access.targets_self, List.map_map]
      rfl
    rw [writes] at found
    rcases trackedRoots.find?_applyAll_map ((d.roots.rows.filter fun root =>
        root.state = .running && decide (root.deadline ≤ env.now)).map
          (RootRow.expire env.now)) d id with ⟨row, member, -, written⟩ | ⟨unwritten, same⟩
    · obtain ⟨old, -, rfl⟩ := List.mem_map.mp member
      obtain rfl := Option.some.inj (written.symm.trans found)
      cases running
    · have here : d.roots.find? id = some root := same.symm.trans found
      have named : root.rootId = id := Table.key_of_find? here
      by_contra late
      refine unwritten (root.expire env.now) (List.mem_map_of_mem (List.mem_filter.mpr
        ⟨Table.mem_of_find? here, ?_⟩)) named
      simp [running, not_lt.mp late]

/-- The roots that have expired, and what is open below ended roots. -/
theorem endRoots_returns :
    (Store.endRoots env).Returns d fun _ d' => d.EndsRoots env.now d' := by
  unfold Store.endRoots
  simp only [Tx.bind_eq, Tx.stmt_bind]
  refine expire_returns fun _ d₁ beside expired => ?_
  refine Tx.Returns.read rfl ((terminalAll_ends _ rfl _).mono fun _ d₂ ended => ?_)
  have passes : d.Passes d₁ := by
    rw [beside]
    exact { Db.Passes.refl d with }
  refine { (passes.trans ended.toPasses) with
    attempts := by rw [ended.attempts, beside]
    pools := by rw [ended.pools, beside]
    pending := fun id op found isOpen => ?_
    expired := fun id root found => ?_
    running := fun id op found isOpen root rooted => ?_
    outcome := fun id op' found => ?_ }
  · have found₁ := ended.pending id op found isOpen
    rwa [beside] at found₁
  · rw [ended.roots] at found
    exact expired id root found
  · by_contra stopped
    rw [ended.roots] at rooted
    have found₁ := ended.pending id op found isOpen
    obtain rfl : op.operationId = id := Table.key_of_find? found₁
    refine Bool.false_ne_true (isOpen.symm.trans (ended.ended _ ?_ op found))
    refine List.mem_map.mpr ⟨op, List.mem_filter.mpr ⟨Table.mem_of_find? found₁, ?_⟩, rfl⟩
    simp [isOpen, rooted, stopped]
  · obtain ⟨op, found₁, same⟩ := ended.outcome id op' found
    rw [beside] at found₁
    exact ⟨op, found₁, same⟩

end Phases

end IntramindRuntime.Ledger
