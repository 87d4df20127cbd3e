import IntramindRuntime.Ledger.Calls

/-!
# Budget conservation

What a budget has reserved and spent, read off the attempts of its root. The sums
range over the attempts themselves, so that each attempt counts once, and an
attempt that was settled never changes again.

## Main definitions

* `Db.attemptsOf` — the attempts charged to a budget
* `Db.boundsHeld`, `Db.usageOf`, `Db.excessOf` — the sums over them

## Main results

* `Reachable.budget_conservation` — every budget equals the sums over its attempts
-/

namespace IntramindRuntime.Ledger

open Library

namespace Db

/-- The attempts that operations of a root make in a unit. -/
def attemptsOf (d : Db) (rootId : String) (unit : BudgetUnit) : List AttemptRow :=
  d.attempts.rows.filter fun a =>
    ((d.operations.find? a.operationId).any fun op => op.rootId = rootId) && a.budgetUnit = unit

/-- The bounds of the attempts that hold budget. -/
def boundsHeld (d : Db) (rootId : String) (unit : BudgetUnit) : ℤ :=
  (((d.attemptsOf rootId unit).filter AttemptRow.budgetHeld).map AttemptRow.budgetBound).sum

/-- The usage of the attempts that were settled. -/
def usageOf (d : Db) (rootId : String) (unit : BudgetUnit) : ℤ :=
  ((d.attemptsOf rootId unit).filterMap AttemptRow.usage).sum

/-- By how much the settled attempts used more than their bounds. -/
def excessOf (d : Db) (rootId : String) (unit : BudgetUnit) : ℤ :=
  ((d.attemptsOf rootId unit).filterMap fun a =>
    a.usage.map fun usage => max 0 (usage - a.budgetBound)).sum

end Db

section Sums

theorem sum_map_filter {α M : Type} [AddCommMonoid M] {p : α → Bool} {column : α → M}
    {rows : List α} :
    ((rows.filter p).map column).sum = (rows.map fun row => if p row then column row else 0).sum := by
  induction rows with
  | nil => rfl
  | cons row rest ih => by_cases chosen : p row <;> simp [chosen, ih]

private theorem sum_filterMap {α : Type} {f : α → Option ℤ} {rows : List α} :
    (rows.filterMap f).sum = (rows.map fun row => (f row).getD 0).sum := by
  induction rows with
  | nil => rfl
  | cons row rest ih => cases chosen : f row <;> simp [chosen, ih]

variable {d : Db} {rootId : String} {unit : BudgetUnit}

theorem Db.total_eq (column : AttemptRow → ℤ) :
    d.book.total rootId unit column = ((d.attemptsOf rootId unit).map column).sum := by
  unfold Db.attemptsOf
  rw [sum_map_filter]
  refine congrArg List.sum (List.map_congr_left fun a _ => ?_)
  have root : (d.book.rootOf a = some rootId) ↔
      ((d.operations.find? a.operationId).any fun op => op.rootId = rootId) = true := by
    unfold Book.rootOf
    rw [Db.book_tasks]
    cases d.operations.find? a.operationId <;> simp
  by_cases here : a.budgetUnit = unit <;> simp [root, here]

theorem Db.total_held : d.book.total rootId unit AttemptRow.held = d.boundsHeld rootId unit := by
  unfold Db.boundsHeld
  rw [Db.total_eq, sum_map_filter]
  rfl

theorem Db.total_used : d.book.total rootId unit AttemptRow.used = d.usageOf rootId unit := by
  unfold Db.usageOf
  rw [Db.total_eq, sum_filterMap]
  rfl

theorem Db.total_excess :
    d.book.total rootId unit AttemptRow.excess = d.excessOf rootId unit := by
  unfold Db.excessOf
  rw [Db.total_eq, sum_filterMap]
  rfl

theorem Db.mem_attemptsOf {a : AttemptRow} : a ∈ d.attemptsOf rootId unit ↔
    a ∈ d.attempts.rows ∧ d.book.rootOf a = some rootId ∧ a.budgetUnit = unit := by
  unfold Db.attemptsOf Book.rootOf
  rw [List.mem_filter, Db.book_tasks]
  cases d.operations.find? a.operationId <;> simp

end Sums

section Conservation

variable {sha256 : String → String} {authority : Authority} {d : Db} {rootId : String}
  {unit : BudgetUnit}

/-- An attempt that was settled never changes again, and is never charged again. -/
theorem Reachable.settled_once (reached : Reachable sha256 authority d) {a : AttemptRow}
    (member : a ∈ d.attemptsOf rootId unit) (settled : a.usage.isSome = true)
    (requests : List Request) :
    a ∈ (Request.afterAll sha256 requests d).attemptsOf rootId unit := by
  have valid := reached.valid
  have path := Request.afterAll_refines sha256 requests valid
  obtain ⟨inTable, root, unit_eq⟩ := Db.mem_attemptsOf.mp member
  have ended : a.state.ended = true := by
    by_contra isOpen
    have := (valid.consistent a inTable).unsettled (by simpa [AttemptRow.isOpen] using isOpen)
    rw [this] at settled
    cases settled
  refine Db.mem_attemptsOf.mpr ⟨path.keeps_ended valid inTable ended, ?_, unit_eq⟩
  obtain ⟨task, found, rootId_eq⟩ := Option.map_eq_some_iff.mp root
  obtain ⟨task', found', rootId', -⟩ := path.keeps_task found
  unfold Book.rootOf
  rw [found', Option.map_some, rootId', rootId_eq]

/-- Every budget equals the sums over its attempts: what is reserved are the bounds
of the attempts that hold budget, what is spent is the usage of the attempts that
were settled, each counted once and for all. Together they exceed the limit only by
what attempts used more than their bounds, and a root that overspent no longer runs. -/
theorem Reachable.budget_conservation (reached : Reachable sha256 authority d) {budget : Budget}
    (found : d.account rootId unit = some budget) :
    budget.reserved = d.boundsHeld rootId unit ∧
    budget.spent = d.usageOf rootId unit ∧
    (∀ requests, ∀ a ∈ d.attemptsOf rootId unit, a.usage.isSome = true →
      a ∈ (Request.afterAll sha256 requests d).attemptsOf rootId unit) ∧
    budget.reserved + budget.spent ≤ budget.limit + d.excessOf rootId unit ∧
    (∀ root, d.roots.find? rootId = some root → root.state = .running →
      budget.spent ≤ budget.limit) := by
  have accounted := reached.valid.accounted
  refine ⟨?_, ?_, fun requests a member settled => reached.settled_once member settled requests,
    ?_, fun root root_found running => ?_⟩
  · rw [← Db.total_held]
    exact accounted.reserved _ _ _ found
  · rw [← Db.total_used]
    exact accounted.spent _ _ _ found
  · rw [← Db.total_excess]
    exact accounted.bounded _ _ _ found
  · refine accounted.within _ _ _ found ?_
    rw [Db.book_running_of_found root_found, running]
    rfl

/-- The attempt of the sample was charged forty tokens for a bound of thirty. -/
theorem budget_conservation_sample :
    0 = (Sample.after Sample.done).boundsHeld "r" .tokens ∧
    40 = (Sample.after Sample.done).usageOf "r" .tokens ∧
    0 + 40 ≤ 1000 + (Sample.after Sample.done).excessOf "r" .tokens :=
  have found : (Sample.after Sample.done).account "r" .tokens = some ⟨1000, 0, 40⟩ := by
    decide +kernel
  have conservation := Reachable.budget_conservation (Sample.reachable Sample.done) found
  ⟨conservation.1, conservation.2.1, conservation.2.2.2.1⟩

end Conservation

end IntramindRuntime.Ledger
