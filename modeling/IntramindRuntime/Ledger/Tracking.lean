import IntramindRuntime.Library.TablePolicy
import IntramindRuntime.Ledger.Assembly
import IntramindRuntime.Ledger.Calls

/-!
# Laws about the rows of a table

The tables that laws about rows speak of, and what it takes for a whole request to
keep such a law when it runs alone.

## Main definitions

* `trackedRoots`, `trackedPools`, `trackedOperations`, `trackedAttempts`, `trackedArtifacts`,
  `trackedOutbox`, `trackedUpdates` — tables that laws are about
* `Request.asks` — the calls that a request consists of

## Main results

* `Sql.ne_write_of_mayWrite` — statements on other tables write no row of a table
* `Request.keeps_of_code` — a request changes rows only as all its transactions do
-/

namespace IntramindRuntime.Ledger

open Library

/-! ### Tables -/

/-- The root of a cell. -/
def Cell.root? : Cell → Option RootRow
  | .root row => row
  | _ => none

/-- The pool of a cell. -/
def Cell.pool? : Cell → Option PoolRow
  | .pool row => row
  | _ => none

/-- The controller update of a cell. -/
def Cell.update? : Cell → Option ControllerUpdateRow
  | .controllerUpdate row => row
  | _ => none

/-- The operation of a cell. -/
def Cell.operation? : Cell → Option OperationRow
  | .operation row => row
  | _ => none

/-- The attempt of a cell. -/
def Cell.attempt? : Cell → Option AttemptRow
  | .attempt row => row
  | _ => none

/-- The event of a cell. -/
def Cell.event? : Cell → Option OutboxRow
  | .event row => row
  | _ => none

/-- The artifact of a cell. -/
def Cell.artifact? : Cell → Option ArtifactRow
  | .artifact row => row
  | _ => none

/-- `runtime_roots`. -/
def trackedRoots : Tracked Db Write Key RootRow where
  toAccess := roots
  get := Cell.root?
  get_lock _ _ := rfl
  get_write _ _ := Table.find?_put_self
  key_write _ := rfl
  lock_injective := Key.root.inj
  cells k := by
    cases k with
    | root id => exact Or.inl ⟨id, rfl⟩
    | _ => exact Or.inr fun _ => rfl
  other w := by
    cases w with
    | root row => exact Or.inl ⟨row, rfl⟩
    | _ => exact Or.inr fun _ same => by cases same

/-- `runtime_pools`. -/
def trackedPools : Tracked Db Write Key PoolRow where
  toAccess := pools
  get := Cell.pool?
  get_lock _ _ := rfl
  get_write _ _ := Table.find?_put_self
  key_write _ := rfl
  lock_injective := Key.pool.inj
  cells k := by
    cases k with
    | pool id => exact Or.inl ⟨id, rfl⟩
    | _ => exact Or.inr fun _ => rfl
  other w := by
    cases w with
    | pool row => exact Or.inl ⟨row, rfl⟩
    | _ => exact Or.inr fun _ same => by cases same

/-- `runtime_controller_updates`. -/
def trackedUpdates : Tracked Db Write Key ControllerUpdateRow where
  toAccess := controllerUpdates
  get := Cell.update?
  get_lock _ _ := rfl
  get_write _ _ := Table.find?_put_self
  key_write _ := rfl
  lock_injective := Key.controllerUpdate.inj
  cells k := by
    cases k with
    | controllerUpdate id => exact Or.inl ⟨id, rfl⟩
    | _ => exact Or.inr fun _ => rfl
  other w := by
    cases w with
    | controllerUpdate row => exact Or.inl ⟨row, rfl⟩
    | _ => exact Or.inr fun _ same => by cases same

/-- `runtime_operations`. -/
def trackedOperations : Tracked Db Write Key OperationRow where
  toAccess := operations
  get := Cell.operation?
  get_lock _ _ := rfl
  get_write _ _ := Table.find?_put_self
  key_write _ := rfl
  lock_injective := Key.operation.inj
  cells k := by
    cases k with
    | operation id => exact Or.inl ⟨id, rfl⟩
    | _ => exact Or.inr fun _ => rfl
  other w := by
    cases w with
    | operation row => exact Or.inl ⟨row, rfl⟩
    | _ => exact Or.inr fun _ same => by cases same

/-- `runtime_attempts`. -/
def trackedAttempts : Tracked Db Write Key AttemptRow where
  toAccess := attempts
  get := Cell.attempt?
  get_lock _ _ := rfl
  get_write _ _ := Table.find?_put_self
  key_write _ := rfl
  lock_injective := Key.attempt.inj
  cells k := by
    cases k with
    | attempt id => exact Or.inl ⟨id, rfl⟩
    | _ => exact Or.inr fun _ => rfl
  other w := by
    cases w with
    | attempt row => exact Or.inl ⟨row, rfl⟩
    | _ => exact Or.inr fun _ same => by cases same

/-- `runtime_outbox`. -/
def trackedOutbox : Tracked Db Write Key OutboxRow where
  toAccess := outbox
  get := Cell.event?
  get_lock _ _ := rfl
  get_write _ _ := Table.find?_put_self
  key_write _ := rfl
  lock_injective := Key.event.inj
  cells k := by
    cases k with
    | event id => exact Or.inl ⟨id, rfl⟩
    | _ => exact Or.inr fun _ => rfl
  other w := by
    cases w with
    | event row => exact Or.inl ⟨row, rfl⟩
    | _ => exact Or.inr fun _ same => by cases same

/-- `runtime_artifacts`. -/
def trackedArtifacts : Tracked Db Write Key ArtifactRow where
  toAccess := artifacts
  get := Cell.artifact?
  get_lock _ _ := rfl
  get_write _ _ := Table.find?_put_self
  key_write _ := rfl
  lock_injective := fun here => Prod.ext (Key.artifact.inj here).1 (Key.artifact.inj here).2
  cells k := by
    cases k with
    | artifact objectKey attemptId => exact Or.inl ⟨(objectKey, attemptId), rfl⟩
    | _ => exact Or.inr fun _ => rfl
  other w := by
    cases w with
    | artifact row => exact Or.inl ⟨row, rfl⟩
    | _ => exact Or.inr fun _ same => by cases same

section Tables

variable {ρ κ α β : Type} [Keyed ρ κ] [DecidableEq κ] {T : Tracked Db Write Key ρ}
  {statement : Sql β} {table : TableName}

/-- A statement that may not write a table writes no row of it. -/
theorem Sql.ne_write_of_mayWrite (named : ∀ row, (T.write row).table = table)
    (other : statement.mayWrite table = false) {busy : Key → Bool} {snapshot current : Db}
    {w : Write} (member : w ∈ (Engine.exec statement busy snapshot current).writes) (row : ρ) :
    w ≠ T.write row := by
  rintro rfl
  have may := Sql.mayWrite_of_mem member
  rw [named, other] at may
  cases may

/-- Statements on other tables keep a law about a table. -/
theorem keptBy_other {growth : RowGrowth ρ} (named : ∀ row, (T.write row).table = table)
    (other : statement.mayWrite table = false) :
    (growth.on T).KeptBy (Tx.stmt statement : Transaction β) :=
  RowChange.keptBy_stmt fun _ _ member =>
    RowGrowth.of_other (Sql.ne_write_of_mayWrite named other member)

/-- A transaction that never writes a table leaves its rows alone. -/
theorem frozen_of_uses (named : ∀ row, (T.write row).table = table) {p : Transaction α}
    (uses : p.Uses fun statement => statement.mayWrite table = false) :
    ((RowGrowth.frozen ρ).on T).KeptBy p := by
  have closed := ((RowGrowth.frozen ρ).on T).keptBy_closed (S := Sql) (ε := RuntimeError)
  induction p with
  | ret value => exact closed.ret value
  | raise error => exact closed.raise error
  | perform statement next ih =>
    exact closed.perform (keptBy_other named uses.1) fun result => ih result (uses.2 result)

end Tables

/-! ### Requests -/

section Requests

variable {sha256 : String → String} {d : Db} {R : RowChange Db}

/-- The calls that a request consists of. -/
def Request.asks : Request → Call → Prop
  | .call _ called, asked => asked = called
  | .reconcileExpired .., asked => asked = .reconcile ∨ asked = .lostResults ∨
      ∃ attemptId, asked = .settleLostResult attemptId

/-- The calls that are no part of a cleanup pass. -/
def Call.Single : Call → Prop
  | .reconcile | .lostResults | .settleLostResult _ => False
  | _ => True

/-- A request that asks for a call which is no part of a cleanup pass is that call. -/
theorem Request.eq_call_of_asks {request : Request} {asked : Call} (asks : request.asks asked)
    (single : asked.Single) : ∃ env, request = .call env asked := by
  cases request with
  | call env called => exact ⟨env, congrArg (Request.call env) (Eq.symm asks)⟩
  | reconcileExpired =>
    rcases asks with here | here | ⟨attemptId, here⟩
    all_goals
      rw [here] at single
      exact single.elim

/-- What a reply wraps keeps the law that the reply keeps. -/
theorem keptBy_of_reply {α : Type} {wrap : α → Reply} {p : Transaction α}
    (kept : R.KeptBy (Store.reply wrap p)) : R.KeptBy p := by
  intro d value d' ran
  refine kept d (wrap value) d' ?_
  rw [Store.reply, Tx.run_bind, ran]
  rfl

theorem settleLost_keeps {settlement : String → Env}
    (settles : ∀ env attemptId, R.KeptBy (Store.settleLostResult env attemptId))
    (attemptIds : List String) : R.Keeps d (Store.settleLost settlement attemptIds d).2 := by
  induction attemptIds generalizing d with
  | nil => exact RowChange.Keeps.refl R d
  | cons attemptId rest ih =>
    unfold Store.settleLost
    cases ran : (Store.settleLostResult (settlement attemptId) attemptId).run d with
    | error error => exact ih
    | ok settled => exact (settles _ _ d settled.1 settled.2 ran).trans ih

/-- A request changes rows only as all its transactions do. -/
theorem Request.keeps_of_code (request : Request)
    (kept : ∀ env asked, request.asks asked → R.KeptBy (asked.code sha256 env)) :
    R.Keeps d (request.after sha256 d) := by
  unfold Request.after
  split
  · next reply d' ran =>
    cases request with
    | call env asked => exact kept env asked rfl d reply d' ran
    | reconcileExpired env listing settlement =>
      have settles : ∀ env attemptId, R.KeptBy (Store.settleLostResult env attemptId) :=
        fun env attemptId =>
          keptBy_of_reply (kept env (.settleLostResult attemptId) (Or.inr (Or.inr ⟨_, rfl⟩)))
      simp only [Request.perform, Store.reconcileExpired] at ran
      cases main : (Store.reconcile env).run d with
      | error error => rw [main] at ran; cases ran
      | ok reconciled =>
        have first := keptBy_of_reply (kept env .reconcile (Or.inl rfl)) d _ _ main
        rw [main] at ran
        cases listed : (Store.lostResults listing).run reconciled.2 with
        | error error => simp [bind, Except.bind, listed, Except.map] at ran
        | ok lost =>
          have second := keptBy_of_reply (kept listing .lostResults (Or.inr (Or.inl rfl))) _ _ _
            listed
          simp only [bind, Except.bind, listed, Except.map] at ran
          cases ran
          exact (first.trans second).trans (settleLost_keeps settles lost.1)
  · exact RowChange.Keeps.refl R d

/-- What rows do not lose in any call, the rows of a reachable ledger have. -/
theorem Reachable.sane {authority : Authority} {ρ κ : Type} [Keyed ρ κ] [DecidableEq κ]
    {sane : ρ → Prop} (T : Tracked Db Write Key ρ) (reached : Reachable sha256 authority d)
    (empty : ∀ id, (T.table (Db.empty authority)).find? id = none)
    (kept : ∀ env (asked : Call), ((RowGrowth.lasting sane).on T).KeptBy (asked.code sha256 env)) :
    ∀ id row, (T.table d).find? id = some row → sane row := by
  induction reached with
  | empty =>
    intro id row found
    rw [empty] at found
    cases found
  | step _ request ih =>
    intro id row found
    exact RowGrowth.sane_of_lasting (request.keeps_of_code fun env asked _ => kept env asked) ih
      found

end Requests

end IntramindRuntime.Ledger
