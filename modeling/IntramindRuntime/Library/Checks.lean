import Mathlib.Tactic.Common

/-!
# Checks that fail with a reason

A check of untrusted data ends at the first thing that is wrong, and gives the reason. A caller
that gathers the reasons of many checks accepts if there are none, so all that is known of what
it accepts is what each check has passed.

## Main definitions

* `require` — fail unless a condition holds
* `checkAll` — check the items of a list
* `reasons` — the reason of a check that fails

## Main results

* `bind_eq_ok` — a check that passes has passed in all its parts
* `reasons_eq_nil` — without a reason, the check passes
-/

namespace IntramindRuntime.Library

namespace Check

variable {ε α β : Type}

/-- Fail unless the condition holds. -/
def require (condition : Bool) (reason : ε) : Except ε Unit :=
  if condition then .ok () else .error reason

/-- Check the items of a list, up to the first one that fails. -/
def checkAll (check : α → Except ε Unit) : List α → Except ε Unit
  | [] => .ok ()
  | first :: rest => check first >>= fun _ => checkAll check rest

/-- The reason why a check fails. -/
def reasons : Except ε α → List ε
  | .ok _ => []
  | .error reason => [reason]

theorem bind_eq_ok {check : Except ε α} {next : α → Except ε β} {result : β} :
    check >>= next = .ok result ↔ ∃ value, check = .ok value ∧ next value = .ok result := by
  cases check <;> simp [bind, Except.bind]

@[simp] theorem require_eq_ok {condition : Bool} {reason : ε} {result : Unit} :
    require condition reason = .ok result ↔ condition = true := by
  cases condition <;> simp [require]

@[simp] theorem checkAll_eq_ok {check : α → Except ε Unit} {items : List α} {result : Unit} :
    checkAll check items = .ok result ↔ ∀ item ∈ items, check item = .ok () := by
  induction items with
  | nil => simp [checkAll]
  | cons first rest ih =>
    rw [checkAll, bind_eq_ok, List.forall_mem_cons]
    constructor
    · rintro ⟨⟨⟩, passed, others⟩
      exact ⟨passed, ih.mp others⟩
    · rintro ⟨passed, others⟩
      exact ⟨(), passed, ih.mpr others⟩

@[simp] theorem reasons_eq_nil {check : Except ε α} :
    reasons check = [] ↔ ∃ value, check = .ok value := by
  cases check <;> simp [reasons]

end Check

end IntramindRuntime.Library
