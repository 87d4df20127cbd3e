import IntramindRuntime.Ledger.Calls

/-!
# One open attempt per operation

An operation is carried out by one attempt at a time: the ledger never has two
open attempts of one operation, the open one is the active one, and the state of
the operation says whether there is one.

## Main definitions

* `Db.openAttempts` — the open attempts of an operation

## Main results

* `Reachable.one_open_attempt` — the state of an operation agrees with its open attempts
-/

namespace IntramindRuntime.Ledger

open Library

/-- The states in which an attempt is open. -/
def AttemptState.opened : List AttemptState :=
  [.reserved, .sendIntent, .active, .unknown, .backendFinished]

/-- The open attempts of an operation. -/
def Db.openAttempts (d : Db) (operationId : String) : List AttemptRow :=
  d.attempts.rows.filter fun a =>
    a.operationId = operationId && decide (a.state ∈ AttemptState.opened)

section OpenAttempt

variable {sha256 : String → String} {authority : Authority} {d : Db} {operationId : String}

theorem AttemptRow.isOpen_iff {a : AttemptRow} : a.isOpen ↔ a.state ∈ AttemptState.opened := by
  unfold AttemptRow.isOpen AttemptState.opened
  cases a.state <;> simp [AttemptState.ended]

theorem Db.mem_openAttempts {a : AttemptRow} :
    a ∈ d.openAttempts operationId ↔
      a ∈ d.attempts.rows ∧ a.operationId = operationId ∧ a.isOpen := by
  unfold Db.openAttempts
  rw [List.mem_filter, Bool.and_eq_true, decide_eq_true_eq, decide_eq_true_eq,
    AttemptRow.isOpen_iff]

/-- In every reachable ledger an operation has at most one open attempt, which is its
active one; it has one exactly while it is executed or reconciled. -/
theorem Reachable.one_open_attempt (reached : Reachable sha256 authority d) {op : OperationRow}
    (found : d.operations.find? operationId = some op) :
    (d.openAttempts operationId).length ≤ 1 ∧
    (∀ a ∈ d.openAttempts operationId, op.activeAttempt = some a.attemptId) ∧
    (op.state = .executing ∨ op.state = .reconciling →
      (d.openAttempts operationId).length = 1) ∧
    (op.state = .ready ∨ op.state = .retryWait → d.openAttempts operationId = []) := by
  have agrees := reached.valid.opened _ _ (Db.book_task_of_found found)
  have active : ∀ a ∈ d.openAttempts operationId, op.activeAttempt = some a.attemptId := by
    intro a member
    obtain ⟨inTable, named, isOpen⟩ := Db.mem_openAttempts.mp member
    exact agrees.active a inTable named isOpen
  have atMost : (d.openAttempts operationId).length ≤ 1 :=
    Table.length_filter_le_one fun a member a' member' =>
      Option.some.inj ((active a member).symm.trans (active a' member'))
  refine ⟨atMost, active, fun busy => ?_, fun waiting => ?_⟩
  · obtain ⟨a, inTable, named, isOpen⟩ := agrees.busy busy
    have member := Db.mem_openAttempts.mpr ⟨inTable, named, isOpen⟩
    have := List.length_pos_of_mem member
    omega
  · refine List.eq_nil_iff_forall_not_mem.mpr fun a member => ?_
    obtain ⟨inTable, named, isOpen⟩ := Db.mem_openAttempts.mp member
    refine agrees.waiting ?_ a inTable named isOpen
    rcases waiting with state | state <;> simp [OperationState.waiting, state]

/-- The sent attempt of the sample is the one open attempt of its operation. -/
theorem one_open_attempt_sample :
    ((Sample.after Sample.sent).openAttempts "o").length = 1 :=
  have found : ((Sample.after Sample.sent).operations.find? "o").isSome = true := by
    decide +kernel
  have state : ((Sample.after Sample.sent).operations.find? "o").map OperationRow.state =
      some .executing := by decide +kernel
  have op_found := (Option.some_get found).symm
  have executing : (((Sample.after Sample.sent).operations.find? "o").get found).state =
      .executing := by
    rw [op_found, Option.map_some] at state
    exact Option.some.inj state
  (Reachable.one_open_attempt (Sample.reachable Sample.sent) op_found).2.2.1 (Or.inl executing)

end OpenAttempt

end IntramindRuntime.Ledger
