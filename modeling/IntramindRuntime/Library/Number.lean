import Mathlib.Data.Rat.Floor
import Mathlib.Tactic.Linarith

/-!
# Numbers with infinities

The numbers of a program whose arithmetic does not round: the rationals, the two infinities,
and the value that is no number. That value is neither below nor above any other, so a bound
that is checked by asking for its violation lets it pass.

## Main definitions

* `Number` — a rational, an infinity, or no number
* `Number.isFinite` — the rationals

## Main results

* `Number.le_of_not_lt` — a bound that is not violated is kept, between numbers
-/

namespace IntramindRuntime.Library

/-- A rational, one of the infinities, or no number. -/
inductive Number
  | rat (q : ℚ)
  | posInf
  | negInf
  | nan
  deriving DecidableEq, Repr

namespace Number

/-- The strict order, as a program computes it. -/
def below : Number → Number → Bool
  | .rat x, .rat y => x < y
  | .rat _, .posInf => true
  | .negInf, .rat _ => true
  | .negInf, .posInf => true
  | _, _ => false

instance : LT Number := ⟨fun x y => below x y = true⟩

instance : LE Number := ⟨fun x y => x < y ∨ x = y ∧ x ≠ .nan⟩

instance (x y : Number) : Decidable (x < y) := inferInstanceAs (Decidable (below x y = true))

instance (x y : Number) : Decidable (x ≤ y) :=
  inferInstanceAs (Decidable (x < y ∨ x = y ∧ x ≠ .nan))

/-- The difference. It is no number between equal infinities. -/
instance : Sub Number where
  sub
    | .rat x, .rat y => .rat (x - y)
    | .nan, _ | _, .nan | .posInf, .posInf | .negInf, .negInf => .nan
    | .posInf, _ | .rat _, .negInf => .posInf
    | .negInf, _ | .rat _, .posInf => .negInf

/-- The rationals among the numbers. -/
def isFinite : Number → Bool
  | .rat _ => true
  | _ => false

theorem lt_def (x y : Number) : x < y ↔ below x y = true := Iff.rfl

theorem le_def (x y : Number) : x ≤ y ↔ x < y ∨ x = y ∧ x ≠ .nan := Iff.rfl

@[simp] theorem rat_lt_rat (x y : ℚ) : Number.rat x < .rat y ↔ x < y := by
  simp [lt_def, below]

theorem lt_irrefl (x : Number) : ¬ x < x := by
  cases x <;> simp [lt_def, below]

theorem lt_trans {x y z : Number} (first : x < y) (second : y < z) : x < z := by
  cases x <;> cases y <;> cases z <;> simp_all [lt_def, below]
  exact first.trans second

theorem ne_nan_of_lt {x y : Number} (less : x < y) : x ≠ .nan ∧ y ≠ .nan := by
  cases x <;> cases y <;> simp_all [lt_def, below]

theorem ne_nan_of_le {x y : Number} (le : x ≤ y) : x ≠ .nan ∧ y ≠ .nan := by
  rcases (le_def x y).mp le with less | ⟨rfl, number⟩
  · exact ne_nan_of_lt less
  · exact ⟨number, number⟩

theorem not_lt_of_le {x y : Number} (le : x ≤ y) : ¬ y < x := by
  intro less
  rcases (le_def x y).mp le with under | ⟨rfl, -⟩
  · exact lt_irrefl _ (lt_trans under less)
  · exact lt_irrefl _ less

theorem le_of_not_lt {x y : Number} (number : x ≠ .nan) (other : y ≠ .nan) (not : ¬ y < x) :
    x ≤ y := by
  cases x <;> cases y <;> simp_all [lt_def, le_def, below]
  exact not.lt_or_eq

theorem ne_nan_of_sub {x y : Number} (number : x - y ≠ .nan) : x ≠ .nan ∧ y ≠ .nan := by
  constructor
  · rintro rfl
    exact number rfl
  · rintro rfl
    apply number
    cases x <;> rfl

end Number

end IntramindRuntime.Library
