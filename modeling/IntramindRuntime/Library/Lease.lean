import Mathlib.Data.Option.Basic
import Mathlib.Logic.Function.Basic
import Mathlib.Order.Lattice
import Mathlib.Algebra.Order.Ring.Int

/-!
# Leases

A row names an owner and the time until which it owns. Someone else may take the row
over only when it has expired; the owner may renew it at any time. An owner that
remembers a time up to which the row was written for it owns the row until then,
whatever others do.

## Main definitions

* `Lease`, `Lease.claim`, `Lease.renew` — a row, and how it changes
* `Lease.Taken` — what a transaction of one owner does to a row
* `Lease.Holds` — the owner owns the row up to a time
* `Lease.takeEach` — several rows in one transaction

## Main results

* `Lease.Holds.of_taken` — nobody takes a row away before its time
* `Lease.Holds.unique` — two owners do not hold one row
* `Lease.takeEach_taken` — a transaction takes all of its rows, or none
* `Lease.takeEach_renew_isSome` — when several rows can be renewed
-/

namespace IntramindRuntime.Library

/-- Who owns a row, and until when. -/
structure Lease (β : Type*) where
  owner : β
  expires : ℤ

namespace Lease

variable {β : Type*} {row row' : Option (Lease β)} {owner other : β} {began now until' : ℤ}

/-- The row is nobody's, or its own, or has expired. -/
def Free (row : Option (Lease β)) (owner : β) (now : ℤ) : Prop :=
  ∀ lease ∈ row, lease.expires ≤ now ∨ lease.owner = owner

section Commands

variable [DecidableEq β]

instance (row : Option (Lease β)) (owner : β) (now : ℤ) : Decidable (Free row owner now) := by
  unfold Free
  infer_instance

/-- Take a free row, as of `now`. -/
def claim (owner : β) (now until' : ℤ) (row : Option (Lease β)) : Option (Lease β) :=
  if Free row owner now then some ⟨owner, until'⟩ else none

/-- Take a row again that is still one's own. -/
def renew (owner : β) (until' : ℤ) (row : Option (Lease β)) : Option (Lease β) :=
  if ∃ lease ∈ row, lease.owner = owner then some ⟨owner, until'⟩ else none

end Commands

/-- The row after a transaction of `owner` that began at `began`. -/
def Taken (row row' : Option (Lease β)) (owner : β) (began until' : ℤ) : Prop :=
  row' = row ∨ (row' = some ⟨owner, until'⟩ ∧ Free row owner began)

/-- Up to `until'` the row belongs to the owner, and no one else can take it. -/
def Holds (row : Option (Lease β)) (owner : β) (until' now : ℤ) : Prop :=
  now < until' → ∃ lease, row = some lease ∧ lease.owner = owner ∧ until' ≤ lease.expires

theorem holds_self : Holds (some ⟨owner, until'⟩) owner until' now :=
  fun _ => ⟨_, rfl, rfl, le_rfl⟩

theorem Holds.later (holds : Holds row owner until' now) {later : ℤ} (passed : now ≤ later) :
    Holds row owner until' later := fun early => holds (passed.trans_lt early)

/-- Before its time, nobody else takes the row. -/
theorem Holds.of_taken {until'' : ℤ} (holds : Holds row owner until' now)
    (taken : Taken row row' other began until'') (different : other ≠ owner)
    (past : began ≤ now) : Holds row' owner until' now := by
  intro early
  obtain ⟨lease, found, mine, lasts⟩ := holds early
  rcases taken with same | ⟨-, free⟩
  · exact ⟨lease, same ▸ found, mine, lasts⟩
  · rcases free lease found with expired | yours
    · omega
    · exact absurd (yours.symm.trans mine) different

/-- The owner itself only extends its time. -/
theorem Holds.of_taken_self {until'' : ℤ} (holds : Holds row owner until' now)
    (taken : Taken row row' owner began until'') (extends' : until' ≤ until'') :
    Holds row' owner until' now := by
  intro early
  rcases taken with rfl | ⟨rfl, -⟩
  · exact holds early
  · exact ⟨_, rfl, rfl, extends'⟩

/-- A row has one owner. -/
theorem Holds.unique {until'' : ℤ} (holds : Holds row owner until' now)
    (holds' : Holds row other until'' now) (early : now < until') (early' : now < until'') :
    owner = other := by
  obtain ⟨lease, found, mine, -⟩ := holds early
  obtain ⟨lease', found', yours, -⟩ := holds' early'
  obtain rfl := Option.some.inj (found.symm.trans found')
  exact mine.symm.trans yours

/-! ### Several rows -/

section Several

variable {κ : Type*} [DecidableEq κ]

/-- Take the rows of some keys one after another. The transaction fails with the first
row that cannot be taken. -/
def takeEach (take : Option (Lease β) → Option (Lease β)) :
    List κ → (κ → Option (Lease β)) → Option (κ → Option (Lease β))
  | [], rows => some rows
  | key :: rest, rows =>
    match take (rows key) with
    | none => none
    | some lease => takeEach take rest (Function.update rows key (some lease))

/-- A way to take a row that asks for a free row and writes the owner into it. -/
def Writes (take : Option (Lease β) → Option (Lease β)) (owner : β) (began until' : ℤ) : Prop :=
  ∀ row lease, take row = some lease → lease = ⟨owner, until'⟩ ∧ Free row owner began

theorem claim_writes [DecidableEq β] (owner : β) (began until' : ℤ) :
    Writes (claim owner began until') owner began until' := by
  intro row lease taken
  unfold claim at taken
  split at taken
  · rename_i free
    exact ⟨(Option.some.inj taken).symm, free⟩
  · cases taken

theorem renew_writes [DecidableEq β] (owner : β) (began until' : ℤ) :
    Writes (renew owner until') owner began until' := by
  intro row lease taken
  unfold renew at taken
  split at taken
  · rename_i mine
    obtain ⟨own, found, same⟩ := mine
    refine ⟨(Option.some.inj taken).symm, fun lease' found' => Or.inr ?_⟩
    obtain rfl := Option.some.inj (Option.mem_def.mp found ▸ Option.mem_def.mp found')
    exact same
  · cases taken

variable {take : Option (Lease β) → Option (Lease β)} {rows rows' : κ → Option (Lease β)}

theorem takeEach_taken (writes : Writes take owner began until') {keys : List κ}
    (done : takeEach take keys rows = some rows') :
    (∀ key, Taken (rows key) (rows' key) owner began until') ∧
      ∀ key ∈ keys, rows' key = some ⟨owner, until'⟩ := by
  induction keys generalizing rows with
  | nil =>
    obtain rfl := Option.some.inj done
    exact ⟨fun key => Or.inl rfl, fun key member => by cases member⟩
  | cons key rest ih =>
    unfold takeEach at done
    split at done
    · cases done
    · rename_i lease taken
      obtain ⟨rfl, free⟩ := writes _ lease taken
      obtain ⟨later, all⟩ := ih done
      -- a later row of the same key is already one's own
      have head : Taken (rows key) (rows' key) owner began until' := by
        refine Or.inr ⟨?_, free⟩
        rcases later key with same | ⟨same, -⟩
        · rw [same, Function.update_self]
        · exact same
      refine ⟨fun other => ?_, fun other member => ?_⟩
      · by_cases same : other = key
        · rw [same]
          exact head
        · have kept := later other
          rwa [Function.update_of_ne same] at kept
      · rcases List.mem_cons.mp member with rfl | here
        · rcases later other with same | ⟨same, -⟩
          · rw [same, Function.update_self]
          · exact same
        · exact all other here

/-- Several rows can be renewed if and only if all of them are still one's own. -/
theorem takeEach_renew_isSome [DecidableEq β] {keys : List κ} :
    (takeEach (renew owner until') keys rows).isSome = true ↔
      ∀ key ∈ keys, ∃ lease ∈ rows key, lease.owner = owner := by
  induction keys generalizing rows with
  | nil => exact iff_of_true rfl fun _ member => (by cases member)
  | cons key rest ih =>
    unfold takeEach
    rw [List.forall_mem_cons]
    split
    · rename_i refused
      unfold renew at refused
      split at refused
      · cases refused
      · rename_i lost
        exact iff_of_false Bool.false_ne_true fun all => lost all.1
    · rename_i lease taken
      unfold renew at taken
      split at taken
      · rename_i mine
        obtain rfl := Option.some.inj taken
        rw [ih, and_iff_right mine]
        -- a row that was renewed before is one's own as well
        refine forall₂_congr fun other _ => ?_
        rcases eq_or_ne other key with rfl | apart
        · rw [Function.update_self]
          exact iff_of_true ⟨_, rfl, rfl⟩ mine
        · rw [Function.update_of_ne apart]
      · cases taken

end Several

end Lease

end IntramindRuntime.Library
