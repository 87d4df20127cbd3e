import IntramindRuntime.Ledger.CleanupPhases

/-!
# No completion is lost

An activity that waits for an operation leaves a binding, and the publishers wake it up with the
event that completes the binding. Whatever ends an operation posts these events in the same
transaction, and whoever leaves a binding with an operation that has ended posts the event itself.
So every binding of an operation that has ended has its event, whatever requests were served
before, as long as they are served one at a time.

## Main definitions

* `Db.Told` — the operations that have ended are told of
* `KeepsTold` — a transaction after which they still are

## Main results

* `call_keepsTold` — every call is such a transaction
* `Reachable.tells` — every reachable ledger tells of all operations that have ended
-/

namespace IntramindRuntime.Ledger

open Library

/-! ### Invariants of the ledger -/

section Invariants

variable {sha256 : String → String} {authority : Authority} {d : Db} {invariant : Db → Prop}

/-- A transaction keeps an invariant of the ledger. -/
def Maintains (invariant : Db → Prop) {α : Type} (p : Transaction α) : Prop :=
  ∀ d, invariant d → p.Ensures d fun _ d' => invariant d'

theorem maintains_closed (invariant : Db → Prop) : Tx.Closed (Maintains invariant) where
  ret _ _ holds := Tx.Ensures.ret holds
  raise _ _ _ := Tx.Ensures.raise
  bind first rest d holds := Tx.Ensures.bind ((first d holds).mono fun value d' => rest value d')

theorem settleLost_maintains {settlement : String → Env}
    (settles : ∀ env attemptId, Maintains invariant (Store.settleLostResult env attemptId))
    (attemptIds : List String) (holds : invariant d) :
    invariant (Store.settleLost settlement attemptIds d).2 := by
  induction attemptIds generalizing d with
  | nil => exact holds
  | cons attemptId rest ih =>
    unfold Store.settleLost
    cases ran : (Store.settleLostResult (settlement attemptId) attemptId).run d with
    | error error => exact ih holds
    | ok settled => exact ih (settles _ _ d holds settled.1 settled.2 ran)

theorem maintains_of_reply {α : Type} {wrap : α → Reply} {p : Transaction α}
    (kept : Maintains invariant (Store.reply wrap p)) : Maintains invariant p := by
  intro d holds value d' ran
  refine kept d holds (wrap value) d' ?_
  rw [Store.reply, Tx.run_bind, ran]
  rfl

/-- A request keeps an invariant if all its transactions do. -/
theorem Request.maintains_of_code (request : Request)
    (kept : ∀ env asked, request.asks asked → Maintains invariant (asked.code sha256 env))
    (holds : invariant d) : invariant (request.after sha256 d) := by
  unfold Request.after
  split
  · next reply d' ran =>
    cases request with
    | call env asked => exact kept env asked rfl d holds reply d' ran
    | reconcileExpired env listing settlement =>
      have settles : ∀ env attemptId,
          Maintains invariant (Store.settleLostResult env attemptId) := fun env attemptId =>
        maintains_of_reply (kept env (.settleLostResult attemptId) (Or.inr (Or.inr ⟨_, rfl⟩)))
      simp only [Request.perform, Store.reconcileExpired] at ran
      cases main : (Store.reconcile env).run d with
      | error error =>
        rw [main] at ran
        cases ran
      | ok reconciled =>
        have first := maintains_of_reply (kept env .reconcile (Or.inl rfl)) d holds _ _ main
        rw [main] at ran
        cases listed : (Store.lostResults listing).run reconciled.2 with
        | error error => simp [bind, Except.bind, listed, Except.map] at ran
        | ok lost =>
          have second := maintains_of_reply (kept listing .lostResults (Or.inr (Or.inl rfl)))
            _ first _ _ listed
          simp only [bind, Except.bind, listed, Except.map] at ran
          cases ran
          exact settleLost_maintains settles lost.1 second
  · exact holds

/-- What every call keeps, every reachable ledger has. -/
theorem Reachable.maintained (reached : Reachable sha256 authority d)
    (empty : invariant (Db.empty authority))
    (kept : ∀ env (asked : Call), Maintains invariant (asked.code sha256 env)) : invariant d := by
  induction reached with
  | empty => exact empty
  | step _ request ih => exact request.maintains_of_code (fun env asked _ => kept env asked) ih

end Invariants

/-! ### Bindings -/

/-- The binding of a cell. -/
def Cell.binding? : Cell → Option BindingRow
  | .binding row => row
  | _ => none

/-- `runtime_completion_bindings`. -/
def trackedBindings : Tracked Db Write Key BindingRow where
  toAccess := bindings
  get := Cell.binding?
  get_lock _ _ := rfl
  get_write _ _ := Table.find?_put_self
  key_write _ := rfl
  lock_injective := Key.binding.inj
  cells k := by
    cases k with
    | binding id => exact Or.inl ⟨id, rfl⟩
    | _ => exact Or.inr fun _ => rfl
  other w := by
    cases w with
    | binding row => exact Or.inl ⟨row, rfl⟩
    | _ => exact Or.inr fun _ same => by cases same

namespace Db

variable {d d' : Db} {operationId bindingId : String}

theorem mem_bindingsOf : bindingId ∈ d.bindingsOf operationId ↔
    ∃ row, d.bindings.find? bindingId = some row ∧ row.operationId = operationId := by
  rw [bindingsOf, List.mem_map]
  constructor
  · rintro ⟨row, member, rfl⟩
    obtain ⟨member, named⟩ := List.mem_filter.mp member
    exact ⟨row, Table.find?_of_mem member, of_decide_eq_true named⟩
  · rintro ⟨row, found, named⟩
    refine ⟨row, List.mem_filter.mpr ⟨Table.mem_of_find? found, decide_eq_true named⟩, ?_⟩
    exact Table.key_of_find? found

/-- The operations that have ended are told of. -/
def Told (d : Db) : Prop :=
  ∀ id op, d.operations.find? id = some op → op.state.terminal = true → d.Tells id

/-- The operations that have ended are told of, but for one. -/
def ToldBut (d : Db) (operationId : String) : Prop :=
  ∀ id op, id ≠ operationId → d.operations.find? id = some op → op.state.terminal = true →
    d.Tells id

theorem Told.but (told : d.Told) (operationId : String) : d.ToldBut operationId :=
  fun id op _ => told id op

/-- Once the last one is told of, all are. -/
theorem ToldBut.told (but : d.ToldBut operationId)
    (last : ∀ op, d.operations.find? operationId = some op → op.state.terminal = true →
      d.Tells operationId) : d.Told := by
  intro id op found ended
  by_cases same : id = operationId
  · subst same
    exact last op found ended
  · exact but id op same found ended

theorem ToldBut.passes (but : d.ToldBut operationId) (passes : d.Passes d') :
    d'.ToldBut operationId := by
  intro id op' other found ended
  obtain ⟨op, here, -, -, kept, told⟩ := passes.operation id op' found
  cases before : op.state.terminal with
  | true => exact (but id op other here before).later passes.bindings passes.events
  | false => exact told before ended

theorem Told.passes (told : d.Told) (passes : d.Passes d') : d'.Told := by
  intro id op' found ended
  obtain ⟨op, here, -, -, kept, closes⟩ := passes.operation id op' found
  cases before : op.state.terminal with
  | true => exact (told id op here before).later passes.bindings passes.events
  | false => exact closes before ended

theorem ToldBut.posts (but : d.ToldBut operationId) (posts : d.Posts d') :
    d'.ToldBut operationId := by
  intro id op other found ended
  rw [posts.operations] at found
  exact (but id op other found ended).later posts.bindings posts.events

end Db

/-! ### Statements -/

/-- No operation ends, and new ones have not ended. -/
def unending : RowGrowth OperationRow where
  follows old row := row.state.terminal = true → old.state.terminal = true
  fresh row := row.state.terminal = false
  refl _ := id
  trans first second := first ∘ second
  keeps fresh follows := Bool.eq_false_iff.mpr fun ended =>
    Bool.eq_false_iff.mp fresh (follows ended)

/-- The law under which operations stay told of: none ends, no event is lost, and no binding is
added. -/
abbrev toldKept : RowChange Db :=
  (unending.on trackedOperations).both (((RowGrowth.lasting fun _ => True).on trackedOutbox).both
    ((RowGrowth.frozen BindingRow).on trackedBindings))

/-- A transaction after which the operations that have ended are still told of. -/
abbrev KeepsTold {α : Type} (p : Transaction α) : Prop := Maintains Db.Told p

theorem Db.Told.of_keeps {d d' : Db} (told : d.Told) (keeps : toldKept.Keeps d d') : d'.Told := by
  intro id op found ended bindingId member
  rcases RowGrowth.cases_of_keeps (T := trackedOperations) keeps.left found with
    ⟨old, before, follows⟩ | ⟨-, fresh⟩
  · obtain ⟨row, bound, named⟩ := Db.mem_bindingsOf.mp member
    have bound : d.bindings.find? bindingId = some row :=
      (RowGrowth.find?_of_frozen (T := trackedBindings) keeps.right.right).symm.trans bound
    obtain ⟨event, here⟩ := Option.ne_none_iff_exists'.mp
      (told id old before (follows ended) bindingId (Db.mem_bindingsOf.mpr ⟨row, bound, named⟩))
    obtain ⟨event', after, -⟩ :=
      RowGrowth.follows_of_keeps (T := trackedOutbox) keeps.right.left here
    exact fun absent => Option.some_ne_none event' (after.symm.trans absent)
  · cases fresh.symm.trans ended

theorem keepsTold_of_kept {α : Type} {p : Transaction α} (kept : toldKept.KeptBy p) :
    KeepsTold p :=
  fun d told => (kept d).mono fun _ _ => told.of_keeps

section Statements

variable {β : Type}

/-- All statements on operations but those that end one. -/
def OperationSql.Unending {β : Type} : OperationSql β → Prop
  | .insert row => row.Fresh
  | .succeed .. | .terminal .. => False
  | _ => True

theorem unending_operation {statement : OperationSql β} (plain : statement.Unending) :
    (unending.on trackedOperations).KeptBy statement.run := by
  refine RowChange.keptBy_stmt fun d w member => ?_
  have member : w ∈ (statement.exec (fun _ => false) d d).writes := member
  cases statement with
  | lockIdentity | find | ofTenant | pendingCounts | candidates | forUpdate | pendingOf
  | countPendingOf | pastDeadline | pastRootDeadline | waiting | ofEndedRoots => cases member
  | claimable operationId =>
    rw [OperationSql.exec, Access.selectSkipLocked_writes] at member
    cases member
  | insert row =>
    refine RowGrowth.of_insert (T := trackedOperations) member ?_
    have ready : row.state = .ready := plain.2.1
    change row.state.terminal = false
    rw [ready]
    rfl
  | succeed | terminal => exact plain.elim
  | awaitBudget | countAttempt =>
    exact RowGrowth.of_update (T := trackedOperations) member (fun _ => rfl) fun _ _ _ => id
  | _ =>
    exact RowGrowth.of_update (T := trackedOperations) member (fun _ => rfl)
      fun _ _ _ ended => by cases ended

theorem lasting_outbox (statement : OutboxSql β) :
    ((RowGrowth.lasting fun _ => True).on trackedOutbox).KeptBy statement.run := by
  refine RowChange.keptBy_stmt fun d w _ => ?_
  by_cases event : ∃ row, w = .event row
  · obtain ⟨row, rfl⟩ := event
    exact RowGrowth.of_write (T := trackedOutbox) (fun _ _ _ => trivial) fun _ => trivial
  · exact RowGrowth.of_other (T := trackedOutbox) fun row same => event ⟨row, same⟩

/-- What is neither an operation nor an event nor a binding does not matter. -/
theorem toldKept_other {statement : Sql β} (operations : statement.mayWrite .operations = false)
    (outbox : statement.mayWrite .outbox = false)
    (bindings : statement.mayWrite .bindings = false) :
    toldKept.KeptBy (Tx.stmt statement : Transaction β) :=
  (keptBy_other (fun _ => rfl) operations).both
    ((keptBy_other (fun _ => rfl) outbox).both (keptBy_other (fun _ => rfl) bindings))

theorem toldKept_operation {statement : OperationSql β} (plain : statement.Unending) :
    toldKept.KeptBy statement.run :=
  (unending_operation plain).both
    ((keptBy_other (fun _ => rfl) rfl).both (keptBy_other (fun _ => rfl) rfl))

theorem toldKept_outbox (statement : OutboxSql β) : toldKept.KeptBy statement.run :=
  (keptBy_other (fun _ => rfl) rfl).both
    ((lasting_outbox statement).both (keptBy_other (fun _ => rfl) rfl))

theorem toldKept_plain (statement : Sql β) (plain : statement.Plain) :
    toldKept.KeptBy (Tx.stmt statement : Transaction β) := by
  cases statement with
  | operation statement =>
    refine toldKept_operation ?_
    cases statement <;> first | exact plain.elim | trivial
  | outbox => exact plain.elim
  | binding statement =>
    cases statement with
    | insert => exact plain.elim
    | ofOperation operationId =>
      refine RowChange.keptBy_stmt fun d w member => ?_
      have none : w ∈ ([] : List Write) := member
      cases none
  | _ => exact toldKept_other rfl rfl rfl

end Statements

/-! ### Calls -/

section Calls

variable {sha256 : String → String} {env : Env}

theorem keepsTold_builds : Builds KeepsTold where
  closed := maintains_closed Db.Told
  plain statement plain := keepsTold_of_kept (toldKept_plain statement plain)
  terminal _ operationId _ reason failing _ told :=
    (terminal_ends operationId (OperationState.terminal_of_failing failing) reason).ensures.mono
      fun _ _ ends => told.passes ends.toPasses
  post row _ := keepsTold_of_kept (toldKept_outbox (.insert row))

/-- An operation that succeeds is told of in the end. -/
theorem decideResult_keepsTold (operationId : String) (artifact : Artifact)
    (cancelled terminated : Bool) :
    KeepsTold (Store.decideResult env operationId artifact cancelled terminated) := by
  intro d told
  unfold Store.decideResult
  have last {d : Db} (but : d.ToldBut operationId) :
      (Store.completionEvents env operationId).Ensures d fun _ d' => d'.Told :=
    (completionEvents_tells operationId).ensures.mono fun _ _ told =>
      (but.posts told.1).told fun _ _ _ => told.2
  have ends {d : Db} (but : d.ToldBut operationId) :
      ((Store.when (cancelled && !terminated)
        (Store.terminal env operationId .failed "root_terminal")).bind fun _ =>
          Store.completionEvents env operationId).Ensures d fun _ d' => d'.Told :=
    ensures_when (fun _ => Tx.Ensures.bind ((terminal_ends operationId rfl _).ensures.mono
      fun _ _ ends => last (but.passes ends.toPasses))) fun _ => last but
  refine ensures_when (fun _ => ?_) fun _ => ends (told.but operationId)
  refine Tx.Ensures.update rfl (fun row found _ => ends ?_) fun _ => ends (told.but operationId)
  -- the operation that succeeds is the only one that is not told of yet
  intro id op other found' ended
  have named : row.operationId = operationId := Table.key_of_find? found
  have elsewhere : (d.operations.put (row.succeed artifact)).find? id = d.operations.find? id :=
    Table.find?_put_of_ne fun same => other (same.symm.trans named)
  exact told id op (elsewhere.symm.trans found') ended

/-- Whoever leaves a binding with an operation that has ended tells of it. -/
theorem bindCompletion_keepsTold (operationId tenantId taskToken : String) :
    KeepsTold (Store.bindCompletion sha256 env operationId tenantId taskToken) := by
  intro d told
  unfold Store.bindCompletion
  simp only [Tx.bind_eq, Tx.stmt_bind]
  refine Tx.Ensures.read rfl ?_
  cases here : operations.find? operationId (fun op => op.tenantId = tenantId) d with
  | none => exact Tx.Ensures.raise
  | some op =>
    obtain ⟨found, -⟩ := Access.find?_eq_some_iff.mp here
    have posts {d₁ : Db} (but : d₁.ToldBut operationId)
        (same : d₁.operations = d.operations) :
        (Store.when op.state.terminal (Store.completionEvents env operationId)).Ensures d₁
          fun _ d' => d'.Told := by
      unfold Store.when
      split
      · exact (completionEvents_tells operationId).ensures.mono fun _ _ told =>
          (but.posts told.1).told fun _ _ _ => told.2
      · next isOpen =>
        refine Tx.Ensures.ret (but.told fun op' found' ended => ?_)
        rw [same] at found'
        obtain rfl := Option.some.inj (found.symm.trans found')
        exact absurd ended isOpen
    refine Tx.Ensures.perform ?_
    simp only [Engine.exec, BindingSql.exec, Access.insertIgnore]
    split
    · exact posts (told.but operationId) rfl
    · next absent =>
      refine posts (fun id op' other found' ended bindingId member => ?_) rfl
      obtain ⟨row, bound, named⟩ := Db.mem_bindingsOf.mp member
      refine told id op' found' ended bindingId (Db.mem_bindingsOf.mpr ⟨row, ?_, named⟩)
      -- the new binding belongs to the operation
      have bound : (d.bindings.put _).find? bindingId = some row := bound
      rw [Table.find?_put] at bound
      split at bound
      · cases bound
        exact absurd named.symm other
      · exact bound

theorem call_keepsTold (asked : Call) : KeepsTold (asked.code sha256 env) := by
  have builds := keepsTold_builds
  have other {β : Type} {statement : Sql β} (operations : statement.mayWrite .operations = false)
      (outbox : statement.mayWrite .outbox = false)
      (bindings : statement.mayWrite .bindings = false) :
      KeepsTold (Tx.stmt statement : Transaction β) :=
    keepsTold_of_kept (toldKept_other operations outbox bindings)
  refine builds.call_of_moves asked (fun _ => other rfl rfl rfl) (fun _ _ _ => ?_)
    (fun _ _ _ _ => ?_) (fun _ => ?_)
    (fun _ => other rfl rfl rfl) (fun _ => ?_) (fun _ _ => other rfl rfl rfl)
    (fun _ => other rfl rfl rfl) (fun _ _ _ => ?_) (fun _ {_} statement puts => ?_)
    (fun _ _ _ _ _ => decideResult_keepsTold _ _ _ _) (fun _ _ _ _ _ _ => ?_)
    (fun _ _ _ => bindCompletion_keepsTold _ _ _)
    fun _ {_} statement => keepsTold_of_kept (toldKept_outbox statement)
  · exact builds.configurePool _ _ (other rfl rfl rfl) (other rfl rfl rfl)
  · exact builds.resumeEngine _ _ _ fun _ => other rfl rfl rfl
  · exact builds.submitOperation _ fun _ fresh => keepsTold_of_kept (toldKept_operation fresh)
  · exact keepsTold_of_kept (toldKept_operation trivial)
  · refine builds.reserveNext _ _ fun _ _ => builds.reserveCandidate fun _ _ => ?_
    exact builds.reserve (fun _ _ => other rfl rfl rfl)
      fun _ _ => keepsTold_of_kept (toldKept_operation trivial)
  · refine keepsTold_of_kept (toldKept_operation ?_)
    cases statement <;> trivial
  · refine builds.finishRun _ _ _ _ _ (other rfl rfl rfl) fun _ _ _ => ?_
    exact builds.finishRoot _ _ _ _ fun _ => other rfl rfl rfl

end Calls

/-- In every reachable ledger, every binding of an operation that has ended has its event. -/
theorem Reachable.tells {sha256 : String → String} {authority : Authority} {d : Db}
    (reached : Reachable sha256 authority d) : d.Told := by
  refine reached.maintained ?_ fun env asked => call_keepsTold asked
  intro id op found
  cases found

/-- An activity waits for an operation, which succeeds then. -/
def Sample.awaited : List Request :=
  Sample.sent ++ [.call (Sample.env "") (.bindCompletion "o" "t" "k"),
    .call (Sample.env "") (.computeFinished Sample.reservation),
    .call (Sample.env "") (.commitResult Sample.reservation Sample.artifact (some 20) [])]

/-- The activity that waits for the operation is told. -/
theorem Reachable.tells_awaited :
    (∃ op, (Sample.after Sample.awaited).operations.find? "o" = some op ∧
      op.state = .succeeded) ∧
    (Sample.after Sample.awaited).bindingsOf "o" = [""] ∧
    (Sample.after Sample.awaited).outbox.find? (.complete "") ≠ none := by
  have ended : ((Sample.after Sample.awaited).operations.find? "o").map OperationRow.state =
      some .succeeded := by decide +kernel
  have bound : (Sample.after Sample.awaited).bindingsOf "o" = [""] := by decide +kernel
  obtain ⟨op, found, state⟩ := Option.map_eq_some_iff.mp ended
  refine ⟨⟨op, found, state⟩, bound, ?_⟩
  refine (Sample.reachable Sample.awaited).tells "o" op found ?_ "" ?_
  · rw [state]
    rfl
  · rw [bound]
    exact List.mem_singleton_self ""

end IntramindRuntime.Ledger
