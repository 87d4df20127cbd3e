import Mathlib.Algebra.BigOperators.Group.Finset.Basic
import Mathlib.Algebra.BigOperators.Group.List.Basic
import Mathlib.Algebra.Order.BigOperators.Group.List
import Mathlib.Data.List.Nodup
import Mathlib.Tactic.Ring

/-!
# Keyed tables

A table is a finite list of rows in which no two rows share a primary key.
Writing a row replaces the row of the same key in place, or appends it.

## Main definitions

* `Keyed` — rows that carry their own primary key
* `Table` — rows with pairwise different keys
* `Table.find?`, `Table.put`, `Table.erase`, `Table.modify` — lookup, upsert, removal and
  rewriting by key
* `Table.total` — the sum of an integer column over all rows

## Main results

* `Table.find?_put`, `Table.find?_erase` — what a write does to a lookup
* `Table.mem_rows_iff` — membership is lookup at the row's own key
* `Table.length_filter_put_le` — a write adds at most one row to those that satisfy a condition
* `Table.total_put_of_new`, `Table.total_put_of_found` — a write changes a total
  by the new row minus the row it replaces
-/

namespace IntramindRuntime.Library

universe u v

/-- Rows that carry their own primary key. -/
class Keyed (ρ : Type u) (κ : outParam (Type v)) where
  /-- The primary key of a row. -/
  key : ρ → κ

variable {ρ : Type u} {κ : Type v} [Keyed ρ κ]

/-- Rows with pairwise different primary keys. -/
@[ext]
structure Table (ρ : Type u) {κ : Type v} [Keyed ρ κ] where
  /-- The rows, in insertion order. -/
  rows : List ρ
  nodup : (rows.map Keyed.key).Nodup

namespace Table

/-- The table without rows. -/
def empty : Table ρ := ⟨[], List.nodup_nil⟩

@[simp] theorem rows_empty : (empty : Table ρ).rows = [] := rfl

/-- The sum of an integer column over all rows. -/
def total (t : Table ρ) (column : ρ → ℤ) : ℤ := (t.rows.map column).sum

@[simp] theorem total_empty (column : ρ → ℤ) : (empty : Table ρ).total column = 0 := rfl

theorem total_congr {t : Table ρ} {column column' : ρ → ℤ}
    (same : ∀ row ∈ t.rows, column row = column' row) : t.total column = t.total column' := by
  unfold total
  rw [List.map_congr_left same]

theorem total_nonneg {t : Table ρ} {column : ρ → ℤ}
    (nonnegative : ∀ row ∈ t.rows, 0 ≤ column row) : 0 ≤ t.total column :=
  List.sum_nonneg fun value member => by
    obtain ⟨row, rowMem, rfl⟩ := List.mem_map.mp member
    exact nonnegative row rowMem

theorem total_eq_zero {t : Table ρ} {column : ρ → ℤ}
    (zero : ∀ row ∈ t.rows, column row = 0) : t.total column = 0 := by
  rw [total_congr zero]
  simp [total]

/-- Rows chosen from a table, in any form that keeps their keys, have different keys. -/
theorem nodup_filterMap {β : Type*} {f : ρ → Option β} {key : β → κ} {rows : List ρ}
    (nodup : (rows.map Keyed.key).Nodup)
    (same : ∀ row x, f row = some x → key x = Keyed.key row) :
    ((rows.filterMap f).map key).Nodup := by
  refine nodup.sublist ?_
  clear nodup
  induction rows with
  | nil => exact List.Sublist.slnil
  | cons row rest ih =>
    cases chosen : f row with
    | none =>
      rw [List.filterMap_cons_none chosen]
      exact ih.cons _
    | some x =>
      rw [List.filterMap_cons_some chosen, List.map_cons, List.map_cons, same row x chosen]
      exact ih.cons_cons _

/-- Rows that are all the same one are at most one. -/
theorem length_filter_le_one {t : Table ρ} {p : ρ → Bool}
    (same : ∀ row ∈ t.rows.filter p, ∀ row' ∈ t.rows.filter p, Keyed.key row = Keyed.key row') :
    (t.rows.filter p).length ≤ 1 := by
  have nodup : ((t.rows.filter p).map Keyed.key).Nodup :=
    t.nodup.sublist (List.filter_sublist.map _)
  match listed : t.rows.filter p with
  | [] => exact Nat.zero_le 1
  | [_] => exact Nat.le_refl 1
  | row :: row' :: rest =>
    rw [listed] at nodup same
    have equal := same row (by simp) row' (by simp)
    simp [equal] at nodup

variable [DecidableEq κ]

/-- Replace the row with the key of `row`, or append `row` at the end. -/
def upsert (row : ρ) : List ρ → List ρ
  | [] => [row]
  | other :: rest =>
    if Keyed.key other = Keyed.key row then row :: rest else other :: upsert row rest

theorem key_mem_upsert {row : ρ} {k : κ} {rows : List ρ}
    (member : k ∈ (upsert row rows).map Keyed.key) :
    k = Keyed.key row ∨ k ∈ rows.map Keyed.key := by
  induction rows with
  | nil => simpa [upsert] using member
  | cons other rest ih =>
    by_cases same : Keyed.key other = Keyed.key row
    · simp only [upsert, same, if_true, List.map_cons, List.mem_cons] at member ⊢
      rcases member with here | later
      · exact Or.inl here
      · exact Or.inr (Or.inr later)
    · simp only [upsert, same, if_false, List.map_cons, List.mem_cons] at member ⊢
      rcases member with here | later
      · exact Or.inr (Or.inl here)
      · rcases ih later with new | old
        · exact Or.inl new
        · exact Or.inr (Or.inr old)

theorem nodup_upsert (row : ρ) {rows : List ρ} (nodup : (rows.map Keyed.key).Nodup) :
    ((upsert row rows).map Keyed.key).Nodup := by
  induction rows with
  | nil => simp [upsert]
  | cons other rest ih =>
    rw [List.map_cons, List.nodup_cons] at nodup
    by_cases same : Keyed.key other = Keyed.key row
    · simp only [upsert, same, if_true, List.map_cons, List.nodup_cons]
      exact ⟨same ▸ nodup.1, nodup.2⟩
    · simp only [upsert, same, if_false, List.map_cons, List.nodup_cons]
      refine ⟨fun member => ?_, ih nodup.2⟩
      rcases key_mem_upsert member with new | old
      · exact same new
      · exact nodup.1 old

/-- Write a row: it replaces the row of the same key, or is appended. -/
def put (t : Table ρ) (row : ρ) : Table ρ := ⟨upsert row t.rows, nodup_upsert row t.nodup⟩

/-- Remove the row with a key, if there is one. -/
def erase (t : Table ρ) (k : κ) : Table ρ :=
  ⟨t.rows.filter fun row => Keyed.key row ≠ k,
    t.nodup.sublist (List.filter_sublist.map _)⟩

/-- Keep the rows that satisfy a condition. -/
def filter (t : Table ρ) (p : ρ → Bool) : Table ρ :=
  ⟨t.rows.filter p, t.nodup.sublist (List.filter_sublist.map _)⟩

/-- The row with a key, if there is one. -/
def find? (t : Table ρ) (k : κ) : Option ρ := t.rows.find? fun row => Keyed.key row = k

variable {t : Table ρ} {row : ρ} {k : κ}

@[simp] theorem find?_empty : (empty : Table ρ).find? k = none := rfl

theorem key_of_find? (found : t.find? k = some row) : Keyed.key row = k := by
  simpa using List.find?_some found

theorem mem_of_find? (found : t.find? k = some row) : row ∈ t.rows :=
  List.mem_of_find?_eq_some found

private theorem find?_of_mem_list {rows : List ρ} (nodup : (rows.map Keyed.key).Nodup)
    (member : row ∈ rows) :
    rows.find? (fun other => decide (Keyed.key other = Keyed.key row)) = some row := by
  induction rows with
  | nil => cases member
  | cons other rest ih =>
    rw [List.map_cons, List.nodup_cons] at nodup
    rcases List.mem_cons.mp member with rfl | later
    · simp
    · have different : Keyed.key other ≠ Keyed.key row :=
        fun same => nodup.1 (same ▸ List.mem_map_of_mem later)
      simp only [List.find?_cons, different, decide_false]
      exact ih nodup.2 later

/-- Every row of a table is found under its own key. -/
theorem find?_of_mem (member : row ∈ t.rows) : t.find? (Keyed.key row) = some row :=
  find?_of_mem_list t.nodup member

theorem mem_rows_iff : row ∈ t.rows ↔ t.find? (Keyed.key row) = some row :=
  ⟨find?_of_mem, mem_of_find?⟩

theorem find?_eq_some_iff : t.find? k = some row ↔ row ∈ t.rows ∧ Keyed.key row = k := by
  constructor
  · intro found
    exact ⟨mem_of_find? found, key_of_find? found⟩
  · rintro ⟨member, rfl⟩
    exact find?_of_mem member

private theorem find?_upsert (rows : List ρ) :
    (upsert row rows).find? (fun other => decide (Keyed.key other = k)) =
      if Keyed.key row = k then some row
      else rows.find? (fun other => decide (Keyed.key other = k)) := by
  induction rows with
  | nil => by_cases here : Keyed.key row = k <;> simp [upsert, here]
  | cons other rest ih =>
    by_cases same : Keyed.key other = Keyed.key row
    · by_cases here : Keyed.key row = k <;> simp [upsert, same, here]
    · simp only [upsert, same, if_false, List.find?_cons, ih]
      by_cases here : Keyed.key other = k
      · have : Keyed.key row ≠ k := fun h => same (here.trans h.symm)
        simp [here, this]
      · simp [here]

/-- A write is seen at the row's key and nowhere else. -/
@[simp] theorem find?_put :
    (t.put row).find? k = if Keyed.key row = k then some row else t.find? k :=
  find?_upsert t.rows

theorem find?_put_self : (t.put row).find? (Keyed.key row) = some row := by simp

theorem find?_put_of_ne (different : Keyed.key row ≠ k) : (t.put row).find? k = t.find? k := by
  simp [different]

private theorem upsert_upsert {later : ρ} (same : Keyed.key row = Keyed.key later)
    (rows : List ρ) : upsert later (upsert row rows) = upsert later rows := by
  induction rows with
  | nil => simp [upsert, same]
  | cons other rest ih =>
    by_cases here : Keyed.key other = Keyed.key later
    · simp [upsert, same, here]
    · simp [upsert, same, here, ih]

/-- The later of two writes of one row wins. -/
theorem put_put {later : ρ} (same : Keyed.key row = Keyed.key later) :
    (t.put row).put later = t.put later :=
  Table.ext (upsert_upsert same t.rows)

private theorem upsert_of_found {rows : List ρ}
    (found : rows.find? (fun other => decide (Keyed.key other = Keyed.key row)) = some row) :
    upsert row rows = rows := by
  induction rows with
  | nil => simp at found
  | cons other rest ih =>
    by_cases same : Keyed.key other = Keyed.key row
    · simp only [List.find?_cons, same, decide_true, Option.some.injEq] at found
      simp [upsert, found]
    · simp only [List.find?_cons, same, decide_false] at found
      simp [upsert, same, ih found]

/-- The rows after a write: the new row, and the old rows with another key. -/
theorem mem_put_iff {other : ρ} :
    other ∈ (t.put row).rows ↔
      other = row ∨ (other ∈ t.rows ∧ Keyed.key row ≠ Keyed.key other) := by
  rw [mem_rows_iff, find?_put]
  by_cases here : Keyed.key row = Keyed.key other
  · simp [here, eq_comm]
  · rw [if_neg here, ← mem_rows_iff]
    refine ⟨fun member => Or.inr ⟨member, here⟩, fun cases => ?_⟩
    rcases cases with rfl | ⟨member, -⟩
    · exact (here rfl).elim
    · exact member

/-- A removal is seen at the removed key and nowhere else. -/
@[simp] theorem find?_erase {gone : κ} :
    (t.erase gone).find? k = if gone = k then none else t.find? k := by
  simp only [find?, erase, List.find?_filter]
  by_cases here : gone = k
  · subst here
    simp
  · simp only [here, if_false]
    congr 1
    funext row
    by_cases same : Keyed.key row = k
    · simp [same, Ne.symm here]
    · simp [same]

/-- Removing a key that is not there changes nothing. -/
theorem erase_of_new (fresh : t.find? k = none) : t.erase k = t := by
  refine Table.ext (List.filter_eq_self.mpr fun row member => decide_eq_true fun same => ?_)
  have found : t.find? k = some row := same ▸ find?_of_mem member
  rw [fresh] at found
  cases found

/-- Removals commute. -/
theorem erase_comm (k' : κ) : (t.erase k).erase k' = (t.erase k').erase k := by
  refine Table.ext ?_
  simp only [erase, List.filter_filter]
  exact List.filter_congr fun row _ => Bool.and_comm _ _

theorem foldl_erase_comm (keys : List κ) :
    (keys.foldl erase t).erase k = keys.foldl erase (t.erase k) := by
  induction keys generalizing t with
  | nil => rfl
  | cons key rest ih => rw [List.foldl_cons, ih, erase_comm, List.foldl_cons]

private theorem upsert_of_new {rows : List ρ}
    (fresh : rows.find? (fun other => decide (Keyed.key other = Keyed.key row)) = none) :
    upsert row rows = rows ++ [row] := by
  induction rows with
  | nil => rfl
  | cons other rest ih =>
    rw [List.find?_cons] at fresh
    split at fresh
    · cases fresh
    · rename_i different
      rw [upsert, if_neg (of_decide_eq_false different), ih fresh, List.cons_append]

/-- A new row is appended. -/
theorem rows_put_of_new (fresh : t.find? (Keyed.key row) = none) :
    (t.put row).rows = t.rows ++ [row] := upsert_of_new fresh

/-- Removing a row that was new leaves what was there before. -/
theorem erase_put_of_new (fresh : t.find? (Keyed.key row) = none) :
    (t.put row).erase (Keyed.key row) = t := by
  refine Table.ext ?_
  have before := congrArg Table.rows (erase_of_new fresh)
  simp only [erase] at before ⊢
  rw [rows_put_of_new fresh, List.filter_append, before]
  simp

/-- Rewrite the row with a key, if there is one. -/
def modify (t : Table ρ) (k : κ) (f : ρ → ρ) : Table ρ :=
  match t.find? k with
  | some row => t.put (f row)
  | none => t

/-- A rewritten row is seen at its key and nowhere else. -/
theorem find?_modify {f : ρ → ρ} {k' : κ} (same : ∀ row, Keyed.key (f row) = Keyed.key row) :
    (t.modify k f).find? k' = if k = k' then (t.find? k).map f else t.find? k' := by
  unfold modify
  cases found : t.find? k with
  | none =>
    by_cases here : k = k'
    · rw [if_pos here, ← here, found, Option.map_none]
    · rw [if_neg here]
  | some row =>
    have named : Keyed.key (f row) = k := (same row).trans (key_of_find? found)
    rw [find?_put, named, Option.map_some]

/-- What is found after rewriting a row was there before. -/
theorem find?_of_modify {f : ρ → ρ} {k' : κ} {row' : ρ}
    (found : (t.modify k f).find? k' = some row')
    (same : ∀ row, Keyed.key (f row) = Keyed.key row) :
    ∃ row, t.find? k' = some row ∧ (k = k' ∧ row' = f row ∨ k ≠ k' ∧ row' = row) := by
  rw [find?_modify same] at found
  split at found
  · rename_i here
    obtain ⟨row, old, rfl⟩ := Option.map_eq_some_iff.mp found
    exact ⟨row, here ▸ old, Or.inl ⟨here, rfl⟩⟩
  · rename_i elsewhere
    exact ⟨row', found, Or.inr ⟨elsewhere, rfl⟩⟩

/-- Rewriting removes no rows. -/
theorem find?_eq_none_of_modify {f : ρ → ρ} {k' : κ} (absent : (t.modify k f).find? k' = none)
    (same : ∀ row, Keyed.key (f row) = Keyed.key row) : t.find? k' = none := by
  rw [find?_modify same] at absent
  split at absent
  · rename_i here
    rw [← here]
    exact Option.map_eq_none_iff.mp absent
  · exact absent

/-- Rewriting adds no rows. -/
theorem find?_modify_eq_none {f : ρ → ρ} {k' : κ} (absent : t.find? k' = none)
    (same : ∀ row, Keyed.key (f row) = Keyed.key row) : (t.modify k f).find? k' = none := by
  rw [find?_modify same]
  split
  · rename_i here
    rw [here, absent, Option.map_none]
  · exact absent

/-- A row is found after a selection if it was found before and satisfies the condition. -/
theorem find?_filter {p : ρ → Bool} : (t.filter p).find? k = (t.find? k).filter p := by
  cases found : t.find? k with
  | none =>
    refine List.find?_eq_none.mpr fun row member => ?_
    exact List.find?_eq_none.mp found row (List.mem_filter.mp member).1
  | some row =>
    obtain ⟨member, named⟩ := find?_eq_some_iff.mp found
    by_cases kept : p row = true
    · rw [Option.filter_some_pos kept, find?_eq_some_iff]
      exact ⟨List.mem_filter.mpr ⟨member, kept⟩, named⟩
    · rw [Option.filter_some_neg (Bool.not_eq_true _ ▸ kept), find?, List.find?_eq_none]
      intro other otherMem same
      obtain ⟨otherMem, keptOther⟩ := List.mem_filter.mp otherMem
      have both := (find?_of_mem otherMem).symm.trans
        ((congrArg t.find? (of_decide_eq_true same)).trans found)
      rw [Option.some.inj both] at keptOther
      exact kept keptOther

/-! ### How many rows satisfy a condition -/

private theorem length_filter_upsert_le (p : ρ → Bool) (rows : List ρ) :
    ((upsert row rows).filter p).length ≤ (rows.filter p).length + if p row then 1 else 0 := by
  induction rows with
  | nil => by_cases here : p row <;> simp [upsert, here]
  | cons other rest ih =>
    unfold upsert
    split
    · simp only [List.filter_cons]
      split <;> split <;> simp
    · simp only [List.filter_cons]
      split
      · simp only [List.length_cons]
        omega
      · exact ih

/-- A write adds at most its own row to the rows that satisfy a condition. -/
theorem length_filter_put_le (p : ρ → Bool) :
    ((t.put row).rows.filter p).length ≤ (t.rows.filter p).length + if p row then 1 else 0 :=
  length_filter_upsert_le p t.rows

/-- A removal adds nothing to the rows that satisfy a condition. -/
theorem length_filter_erase_le (p : ρ → Bool) :
    ((t.erase k).rows.filter p).length ≤ (t.rows.filter p).length :=
  (List.filter_sublist.filter p).length_le

private theorem length_filter_upsert_of_found (p : ρ → Bool) {old : ρ} (same : p row = p old)
    {rows : List ρ}
    (found : rows.find? (fun other => decide (Keyed.key other = Keyed.key row)) = some old) :
    ((upsert row rows).filter p).length = (rows.filter p).length := by
  induction rows with
  | nil => cases found
  | cons other rest ih =>
    unfold upsert
    split
    · rename_i here
      simp only [List.find?_cons, here, decide_true, Option.some.injEq] at found
      simp only [List.filter_cons, found, same]
      split <;> rfl
    · rename_i here
      simp only [List.find?_cons, here, decide_false] at found
      simp only [List.filter_cons]
      split
      · simp only [List.length_cons, ih found]
      · exact ih found

/-- Rewriting rows without changing whether they satisfy a condition keeps their number. -/
theorem length_filter_modify {f : ρ → ρ} (p : ρ → Bool)
    (key : ∀ row, Keyed.key (f row) = Keyed.key row) (same : ∀ row, p (f row) = p row) :
    ((t.modify k f).rows.filter p).length = (t.rows.filter p).length := by
  unfold modify
  cases found : t.find? k with
  | none => rfl
  | some row =>
    refine length_filter_upsert_of_found p (same row) ?_
    rw [key row, key_of_find? found]
    exact found

/-! ### What a write does to a total -/

private theorem total_upsert_of_new (column : ρ → ℤ) {rows : List ρ}
    (fresh : Keyed.key row ∉ rows.map Keyed.key) :
    ((upsert row rows).map column).sum = (rows.map column).sum + column row := by
  induction rows with
  | nil => simp [upsert]
  | cons other rest ih =>
    rw [List.map_cons, List.mem_cons, not_or] at fresh
    have different : ¬ Keyed.key other = Keyed.key row := fun h => fresh.1 h.symm
    simp only [upsert, different, if_false, List.map_cons, List.sum_cons, ih fresh.2]
    ring

private theorem total_upsert_of_found (column : ρ → ℤ) {old : ρ} {rows : List ρ}
    (found : rows.find? (fun other => decide (Keyed.key other = Keyed.key row)) = some old) :
    ((upsert row rows).map column).sum =
      (rows.map column).sum - column old + column row := by
  induction rows with
  | nil => simp at found
  | cons other rest ih =>
    by_cases same : Keyed.key other = Keyed.key row
    · simp only [List.find?_cons, same, decide_true, Option.some.injEq] at found
      subst found
      simp only [upsert, same, if_true, List.map_cons, List.sum_cons]
      ring
    · have later : rest.find? (fun other => decide (Keyed.key other = Keyed.key row)) =
          some old := by simpa [List.find?_cons, same] using found
      simp only [upsert, same, if_false, List.map_cons, List.sum_cons, ih later]
      ring

/-- A new row adds its own value to a total. -/
theorem total_put_of_new (column : ρ → ℤ) (fresh : t.find? (Keyed.key row) = none) :
    (t.put row).total column = t.total column + column row := by
  refine total_upsert_of_new column fun member => ?_
  obtain ⟨other, otherMem, same⟩ := List.mem_map.mp member
  have := find?_eq_some_iff.mpr ⟨otherMem, same⟩
  rw [fresh] at this
  cases this

/-- A rewritten row adds its own value to a total and takes the old value away. -/
theorem total_put_of_found (column : ρ → ℤ) {old : ρ}
    (found : t.find? (Keyed.key row) = some old) :
    (t.put row).total column = t.total column - column old + column row :=
  total_upsert_of_found column found

private theorem sum_filter_of_found (column : ρ → ℤ) {old : ρ} {rows : List ρ}
    (nodup : (rows.map Keyed.key).Nodup)
    (found : rows.find? (fun other => decide (Keyed.key other = k)) = some old) :
    ((rows.filter fun row => decide (Keyed.key row ≠ k)).map column).sum =
      (rows.map column).sum - column old := by
  induction rows with
  | nil => cases found
  | cons other rest ih =>
    rw [List.map_cons, List.nodup_cons] at nodup
    by_cases same : Keyed.key other = k
    · simp only [List.find?_cons, same, decide_true, Option.some.injEq] at found
      subst found
      -- no other row has the key
      have rest_kept : (rest.filter fun row => decide (Keyed.key row ≠ k)) = rest := by
        refine List.filter_eq_self.mpr fun row member => decide_eq_true fun here => nodup.1 ?_
        rw [same, ← here]
        exact List.mem_map_of_mem member
      rw [List.filter_cons_of_neg (by simp [same]), rest_kept, List.map_cons, List.sum_cons]
      ring
    · have later : rest.find? (fun other => decide (Keyed.key other = k)) = some old := by
        simpa [List.find?_cons, same] using found
      rw [List.filter_cons_of_pos (by simp [same]), List.map_cons, List.sum_cons, List.map_cons,
        List.sum_cons, ih nodup.2 later]
      ring

/-- A removed row takes its value away from a total. -/
theorem total_erase_of_found (column : ρ → ℤ) {old : ρ} (found : t.find? k = some old) :
    (t.erase k).total column = t.total column - column old :=
  sum_filter_of_found column t.nodup found

omit [DecidableEq κ] in
/-- Rows that satisfy a condition are counted by a total of ones. -/
theorem length_filter_eq_total (p : ρ → Bool) :
    ((t.rows.filter p).length : ℤ) = t.total fun row => if p row then 1 else 0 := by
  unfold total
  induction t.rows with
  | nil => rfl
  | cons row rest ih =>
    rw [List.map_cons, List.sum_cons, ← ih]
    by_cases here : p row
    · rw [List.filter_cons_of_pos here, List.length_cons, if_pos here]
      push_cast
      ring
    · rw [List.filter_cons_of_neg here, if_neg here, zero_add]

/-- What a column holds at a key, or zero if there is no row. -/
def valueAt (t : Table ρ) (column : ρ → ℤ) (k : κ) : ℤ := ((t.find? k).map column).getD 0

/-- A total is the sum of what the column holds at a set of keys that has all rows. -/
theorem total_eq_sum (column : ρ → ℤ) {keys : Finset κ}
    (all : ∀ row ∈ t.rows, Keyed.key row ∈ keys) :
    t.total column = ∑ k ∈ keys, t.valueAt column k := by
  have here : t.total column = ∑ k ∈ (t.rows.map Keyed.key).toFinset, t.valueAt column k := by
    rw [List.sum_toFinset _ t.nodup, List.map_map]
    refine congrArg List.sum (List.map_congr_left fun row member => ?_)
    simp [valueAt, find?_of_mem member]
  rw [here]
  refine Finset.sum_subset (fun k member => ?_) fun k _ absent => ?_
  · obtain ⟨row, rowMem, rfl⟩ := List.mem_map.mp (List.mem_toFinset.mp member)
    exact all row rowMem
  · have missing : t.find? k = none := by
      by_contra present
      obtain ⟨row, found⟩ := Option.ne_none_iff_exists'.mp present
      exact absent (List.mem_toFinset.mpr
        (List.mem_map.mpr ⟨row, mem_of_find? found, key_of_find? found⟩))
    simp [valueAt, missing]

/-- Tables that hold the same values at all keys have the same totals. -/
theorem total_eq_of_valueAt (column : ρ → ℤ) {t' : Table ρ}
    (same : ∀ k, t.valueAt column k = t'.valueAt column k) : t.total column = t'.total column := by
  have keys : ∀ row, row ∈ t.rows ∨ row ∈ t'.rows →
      Keyed.key row ∈ (t.rows.map Keyed.key).toFinset ∪ (t'.rows.map Keyed.key).toFinset := by
    rintro row (member | member) <;> rw [Finset.mem_union, List.mem_toFinset, List.mem_toFinset]
    · exact Or.inl (List.mem_map_of_mem member)
    · exact Or.inr (List.mem_map_of_mem member)
  rw [total_eq_sum column fun row member => keys row (Or.inl member),
    total_eq_sum column fun row member => keys row (Or.inr member)]
  exact Finset.sum_congr rfl fun k _ => same k

end Table

end IntramindRuntime.Library
