import IntramindRuntime.Library.KeyedTable
import IntramindRuntime.Library.Transaction

/-!
# Statements over one table

The forms that `SELECT`, `INSERT`, `UPDATE` and `DELETE` take over a keyed table
under READ COMMITTED. A statement that locks or changes a row finds it by its
condition in the snapshot, waits for the row, and checks the condition again on
the newest version; when that fails, the row is left alone but stays locked.

## Main definitions

* `Access` — a table of a database, with its locks and writes
* `Access.target` — the row a statement acts on
* `Access.selectForUpdate`, `Access.update`, `Access.insert` and their variants

## Main results

* `Access.target_eq_some_iff`, `Access.mem_targets` — which rows are acted on
* `Access.mem_update_writes`, `Access.mem_insert_writes` — the writes of a statement
-/

namespace IntramindRuntime.Library

/-- PostgreSQL refused a row, because of a unique key or a check constraint. -/
inductive Violation
  | violation
  deriving DecidableEq

namespace Outcome

variable {W K β γ : Type}

/-- A plain read: nothing is locked, nothing is written. -/
def read (value : β) : Outcome W K β := ⟨[], [], value⟩

/-- Change the value a statement returns. -/
def map (f : β → γ) (outcome : Outcome W K β) : Outcome W K γ :=
  ⟨outcome.locks, outcome.writes, f outcome.result⟩

@[simp] theorem read_locks (value : β) : (read value : Outcome W K β).locks = [] := rfl
@[simp] theorem read_writes (value : β) : (read value : Outcome W K β).writes = [] := rfl
@[simp] theorem read_result (value : β) : (read value : Outcome W K β).result = value := rfl

variable (f : β → γ) (outcome : Outcome W K β)

@[simp] theorem map_locks : (outcome.map f).locks = outcome.locks := rfl
@[simp] theorem map_writes : (outcome.map f).writes = outcome.writes := rfl
@[simp] theorem map_result : (outcome.map f).result = f outcome.result := rfl

end Outcome

/-- A table of a database: where it is, what locks its rows, and what writes them. -/
structure Access (D W K ρ : Type) {κ : Type} [Keyed ρ κ] where
  table : D → Table ρ
  lock : κ → K
  write : ρ → W

namespace Access

variable {D W K ρ κ : Type} [Keyed ρ κ] [DecidableEq κ] (A : Access D W K ρ)
  (id : κ) (cond check : ρ → Bool) (f : ρ → ρ) (busy : K → Bool) (snapshot current : D)

/-- The row with a key that satisfies a condition. -/
def find? (d : D) : Option ρ := ((A.table d).find? id).filter cond

/-- The row a statement acts on: it satisfies the condition in the snapshot and
in its newest version, which is the one returned. -/
def target : Option ρ := (A.find? id cond snapshot).bind fun _ => A.find? id cond current

/-- The locks of a statement that acts on one row. -/
def locks : List K := if (A.find? id cond snapshot).isSome then [A.lock id] else []

/-- `SELECT … FOR UPDATE` of one row. -/
def selectForUpdate : Outcome W K (Option ρ) :=
  ⟨A.locks id cond snapshot, [], A.target id cond snapshot current⟩

/-- `SELECT … FOR UPDATE SKIP LOCKED` of one row. -/
def selectSkipLocked : Outcome W K (Option ρ) :=
  if busy (A.lock id) then ⟨[], [], none⟩ else A.selectForUpdate id cond snapshot current

/-- `UPDATE` of one row, returning its new version. -/
def update : Outcome W K (Option ρ) :=
  ⟨A.locks id cond snapshot, ((A.target id cond snapshot current).map (A.write ∘ f)).toList,
    (A.target id cond snapshot current).map f⟩

/-- `UPDATE` of one row under a check constraint. -/
def updateChecked : Outcome W K (Except Violation (Option ρ)) :=
  match A.target id cond snapshot current with
  | none => ⟨A.locks id cond snapshot, [], .ok none⟩
  | some row =>
    if check (f row) then ⟨A.locks id cond snapshot, [A.write (f row)], .ok (some (f row))⟩
    else ⟨A.locks id cond snapshot, [], .error .violation⟩

/-- The rows a statement acts on, in table order. -/
def targets : List ρ :=
  (((A.table snapshot).rows.filter cond).filterMap fun seen =>
    A.target (Keyed.key seen) cond snapshot current)

/-- The locks of a statement that acts on many rows. -/
def allLocks : List K := ((A.table snapshot).rows.filter cond).map fun seen => A.lock (Keyed.key seen)

/-- `SELECT … FOR UPDATE` of all matching rows. -/
def selectAllForUpdate : Outcome W K (List ρ) :=
  ⟨A.allLocks cond snapshot, [], A.targets cond snapshot current⟩

/-- `UPDATE` of all matching rows, returning how many there were. -/
def updateAll : Outcome W K ℕ :=
  ⟨A.allLocks cond snapshot, (A.targets cond snapshot current).map (A.write ∘ f),
    (A.targets cond snapshot current).length⟩

/-- `DELETE` of all matching rows, returning how many there were. -/
def deleteAll (drop : κ → W) : Outcome W K ℕ :=
  ⟨A.allLocks cond snapshot,
    (A.targets cond snapshot current).map fun row => drop (Keyed.key row),
    (A.targets cond snapshot current).length⟩

/-- `INSERT`, refused when the key is taken. -/
def insert (row : ρ) : Outcome W K (Except Violation Unit) :=
  if ((A.table current).find? (Keyed.key row)).isSome then ⟨[], [], .error .violation⟩
  else ⟨[], [A.write row], .ok ()⟩

/-- `INSERT … ON CONFLICT DO NOTHING`. -/
def insertIgnore (row : ρ) : Outcome W K Unit :=
  if ((A.table current).find? (Keyed.key row)).isSome then ⟨[], [], ()⟩
  else ⟨[], [A.write row], ()⟩

/-- `INSERT … ON CONFLICT DO UPDATE … WHERE`, returning whether a row was written. -/
def upsert (row : ρ) : Outcome W K Bool :=
  match (A.table current).find? (Keyed.key row) with
  | none => ⟨[], [A.write row], true⟩
  | some old =>
    if cond old then ⟨[A.lock (Keyed.key row)], [A.write (f old)], true⟩
    else ⟨[A.lock (Keyed.key row)], [], false⟩

variable {A id cond check f busy snapshot current} {row : ρ} {d : D}

theorem find?_eq_some_iff :
    A.find? id cond d = some row ↔ (A.table d).find? id = some row ∧ cond row = true := by
  simp only [find?, Option.filter_eq_some_iff]

theorem target_eq_some_iff :
    A.target id cond snapshot current = some row ↔
      (A.find? id cond snapshot).isSome ∧
        (A.table current).find? id = some row ∧ cond row = true := by
  simp only [target, Option.bind_eq_some_iff, find?_eq_some_iff, Option.isSome_iff_exists]
  constructor
  · rintro ⟨seen, found, here⟩
    exact ⟨⟨seen, found⟩, here⟩
  · rintro ⟨⟨seen, found⟩, here⟩
    exact ⟨seen, found, here⟩

@[simp] theorem target_self : A.target id cond d d = A.find? id cond d := by
  unfold target
  cases A.find? id cond d <;> rfl

@[simp] theorem find?_true : A.find? id (fun _ => true) d = (A.table d).find? id := by
  unfold find?
  cases (A.table d).find? id <;> rfl

theorem locks_of_target (found : A.target id cond snapshot current = some row) :
    A.locks id cond snapshot = [A.lock id] :=
  if_pos (target_eq_some_iff.mp found).1

/-- An update writes at most the new version of its target. -/
theorem mem_update_writes {w : W} (member : w ∈ (A.update id cond f snapshot current).writes) :
    ∃ row, (A.table current).find? id = some row ∧ cond row = true ∧ w = A.write (f row) := by
  simp only [update, Option.mem_toList, Option.map_eq_some_iff, Function.comp] at member
  obtain ⟨row, found, rfl⟩ := member
  obtain ⟨-, here, holds⟩ := target_eq_some_iff.mp found
  exact ⟨row, here, holds, rfl⟩

theorem mem_updateChecked_writes {w : W}
    (member : w ∈ (A.updateChecked id cond check f snapshot current).writes) :
    ∃ row, (A.table current).find? id = some row ∧ cond row = true ∧ w = A.write (f row) := by
  unfold updateChecked at member
  split at member
  · cases member
  · next row found =>
    obtain ⟨-, here, holds⟩ := target_eq_some_iff.mp found
    split at member
    · exact ⟨row, here, holds, List.mem_singleton.mp member⟩
    · cases member

theorem mem_targets (member : row ∈ A.targets cond snapshot current) :
    (A.table current).find? (Keyed.key row) = some row ∧ cond row = true := by
  simp only [targets, List.mem_filterMap] at member
  obtain ⟨seen, -, found⟩ := member
  obtain ⟨-, here, holds⟩ := target_eq_some_iff.mp found
  rw [Table.key_of_find? here]
  exact ⟨here, holds⟩

/-- Alone, a statement acts on exactly the rows that satisfy its condition. -/
theorem targets_self : A.targets cond d d = (A.table d).rows.filter cond := by
  have same : ∀ row ∈ (A.table d).rows.filter cond,
      A.target (Keyed.key row) cond d d = some row := by
    intro row member
    obtain ⟨inTable, holds⟩ := List.mem_filter.mp member
    rw [target_self, find?_eq_some_iff]
    exact ⟨Table.find?_of_mem inTable, holds⟩
  unfold targets
  rw [List.filterMap_congr same, List.filterMap_some]

/-- A row that a statement selected for update is locked. -/
theorem locked_of_selectForUpdate
    (found : (A.selectForUpdate id cond snapshot current).result = some row) :
    A.lock id ∈ (A.selectForUpdate id cond snapshot current).locks ∧
      (A.table current).find? id = some row ∧ cond row = true := by
  refine ⟨?_, (target_eq_some_iff.mp found).2⟩
  rw [selectForUpdate, locks_of_target found]
  exact List.mem_singleton_self _

theorem locked_of_selectSkipLocked
    (found : (A.selectSkipLocked id cond busy snapshot current).result = some row) :
    A.lock id ∈ (A.selectSkipLocked id cond busy snapshot current).locks ∧
      (A.table current).find? id = some row ∧ cond row = true := by
  unfold selectSkipLocked at found ⊢
  split
  · next taken =>
    rw [if_pos taken] at found
    cases found
  · next free =>
    rw [if_neg free] at found
    exact locked_of_selectForUpdate found

/-- A selected row was in the snapshot. -/
theorem seen_of_selectForUpdate
    (found : (A.selectForUpdate id cond snapshot current).result = some row) :
    ∃ seen, (A.table snapshot).find? id = some seen ∧ cond seen = true := by
  obtain ⟨seen, known⟩ := Option.isSome_iff_exists.mp (target_eq_some_iff.mp found).1
  exact ⟨seen, find?_eq_some_iff.mp known⟩

theorem seen_of_selectSkipLocked
    (found : (A.selectSkipLocked id cond busy snapshot current).result = some row) :
    ∃ seen, (A.table snapshot).find? id = some seen ∧ cond seen = true := by
  unfold selectSkipLocked at found
  split at found
  · cases found
  · exact seen_of_selectForUpdate found

/-- A row that is not skipped is not locked. -/
theorem free_of_selectSkipLocked
    (found : (A.selectSkipLocked id cond busy snapshot current).result = some row) :
    busy (A.lock id) = false := by
  cases taken : busy (A.lock id) with
  | false => rfl
  | true =>
    rw [selectSkipLocked, if_pos taken] at found
    cases found

theorem selectSkipLocked_of_free (free : busy (A.lock id) = false) :
    A.selectSkipLocked id cond busy snapshot current =
      A.selectForUpdate id cond snapshot current := by
  rw [selectSkipLocked, free, if_neg Bool.false_ne_true]

theorem selectSkipLocked_writes :
    (A.selectSkipLocked id cond busy snapshot current).writes = [] := by
  unfold selectSkipLocked
  split <;> rfl

theorem locked_of_selectAllForUpdate
    (member : row ∈ (A.selectAllForUpdate cond snapshot current).result) :
    A.lock (Keyed.key row) ∈ (A.selectAllForUpdate cond snapshot current).locks ∧
      (A.table current).find? (Keyed.key row) = some row ∧ cond row = true := by
  refine ⟨?_, mem_targets member⟩
  simp only [selectAllForUpdate, targets, List.mem_filterMap] at member
  obtain ⟨seen, known, target⟩ := member
  -- The lock is the one of the version that the snapshot showed.
  rw [Table.key_of_find? (target_eq_some_iff.mp target).2.1]
  exact List.mem_map_of_mem known

theorem seen_of_selectAllForUpdate
    (member : row ∈ (A.selectAllForUpdate cond snapshot current).result) :
    ∃ seen, (A.table snapshot).find? (Keyed.key row) = some seen ∧ cond seen = true := by
  simp only [selectAllForUpdate, targets, List.mem_filterMap] at member
  obtain ⟨seen, known, target⟩ := member
  rw [Table.key_of_find? (target_eq_some_iff.mp target).2.1]
  rw [List.mem_filter] at known
  exact ⟨seen, Table.find?_of_mem known.1, known.2⟩

theorem mem_updateAll_writes {w : W}
    (member : w ∈ (A.updateAll cond f snapshot current).writes) :
    ∃ row, (A.table current).find? (Keyed.key row) = some row ∧ cond row = true ∧
      w = A.write (f row) := by
  simp only [updateAll, List.mem_map, Function.comp] at member
  obtain ⟨row, target, rfl⟩ := member
  obtain ⟨here, holds⟩ := mem_targets target
  exact ⟨row, here, holds, rfl⟩

theorem mem_insert_writes {w : W} (member : w ∈ (A.insert current row).writes) :
    w = A.write row ∧ (A.table current).find? (Keyed.key row) = none := by
  unfold insert at member
  split at member
  · cases member
  · next absent =>
    exact ⟨List.mem_singleton.mp member, Option.not_isSome_iff_eq_none.mp absent⟩

theorem mem_insertIgnore_writes {w : W} (member : w ∈ (A.insertIgnore current row).writes) :
    w = A.write row ∧ (A.table current).find? (Keyed.key row) = none := by
  unfold insertIgnore at member
  split at member
  · cases member
  · next absent =>
    exact ⟨List.mem_singleton.mp member, Option.not_isSome_iff_eq_none.mp absent⟩

theorem mem_upsert_writes {w : W} (member : w ∈ (A.upsert cond f current row).writes) :
    (w = A.write row ∧ (A.table current).find? (Keyed.key row) = none) ∨
      ∃ old, (A.table current).find? (Keyed.key row) = some old ∧ cond old = true ∧
        w = A.write (f old) := by
  unfold upsert at member
  split at member
  · next absent => exact Or.inl ⟨List.mem_singleton.mp member, absent⟩
  · next old found =>
    split at member
    · next holds => exact Or.inr ⟨old, found, holds, List.mem_singleton.mp member⟩
    · cases member

end Access

/-! ### Rules for statements that run alone -/

namespace Tx.Ensures

open RowStore

variable {S : Type → Type} {D W K ε α β ρ κ : Type} [RowStore D W K] [Engine S D]
  [Keyed ρ κ] [DecidableEq κ] {A : Access D W K ρ} {id : κ} {cond check : ρ → Bool} {f : ρ → ρ}
  {row : ρ} {d : D} {post : α → D → Prop}

theorem read {statement : S β} {next : β → Tx S ε α} {value : β}
    (exec : Engine.exec statement (fun _ => false) d d = .read value)
    (rest : Ensures (next value) d post) : Ensures (.perform statement next) d post := by
  refine Ensures.perform ?_
  rw [exec]
  exact rest

theorem selectForUpdate {statement : S (Option ρ)} {next : Option ρ → Tx S ε α}
    (exec : Engine.exec statement (fun _ => false) d d = A.selectForUpdate id cond d d)
    (rest : Ensures (next (A.find? id cond d)) d post) :
    Ensures (.perform statement next) d post := by
  refine Ensures.perform ?_
  rw [exec, Access.selectForUpdate, Access.target_self]
  exact rest

theorem update {statement : S (Option ρ)} {next : Option ρ → Tx S ε α}
    (exec : Engine.exec statement (fun _ => false) d d = A.update id cond f d d)
    (found : ∀ row, (A.table d).find? id = some row → cond row = true →
      Ensures (next (some (f row))) (apply (A.write (f row)) d) post)
    (missing : (∀ row, (A.table d).find? id = some row → cond row = false) →
      Ensures (next none) d post) :
    Ensures (.perform statement next) d post := by
  refine Ensures.perform ?_
  rw [exec, Access.update, Access.target_self]
  cases here : A.find? id cond d with
  | none =>
    refine missing fun row known => ?_
    by_contra holds
    have := Access.find?_eq_some_iff.mpr ⟨known, by simpa using holds⟩
    rw [here] at this
    cases this
  | some row =>
    obtain ⟨known, holds⟩ := Access.find?_eq_some_iff.mp here
    exact found row known holds

theorem updateChecked {statement : S (Except Violation (Option ρ))}
    {next : Except Violation (Option ρ) → Tx S ε α}
    (exec : Engine.exec statement (fun _ => false) d d = A.updateChecked id cond check f d d)
    (found : ∀ row, (A.table d).find? id = some row → cond row = true → check (f row) = true →
      Ensures (next (.ok (some (f row)))) (apply (A.write (f row)) d) post)
    (missing : Ensures (next (.ok none)) d post)
    (refused : Ensures (next (.error .violation)) d post) :
    Ensures (.perform statement next) d post := by
  refine Ensures.perform ?_
  rw [exec, Access.updateChecked, Access.target_self]
  cases here : A.find? id cond d with
  | none => exact missing
  | some row =>
    obtain ⟨known, holds⟩ := Access.find?_eq_some_iff.mp here
    simp only
    split
    · next checked => exact found row known holds checked
    · exact refused

/-- An update of a row that there is. -/
theorem updateChecked_found {statement : S (Except Violation (Option ρ))}
    {next : Except Violation (Option ρ) → Tx S ε α}
    (exec : Engine.exec statement (fun _ => false) d d = A.updateChecked id cond check f d d)
    (known : (A.table d).find? id = some row) (holds : cond row = true)
    (found : Ensures (next (.ok (some (f row)))) (apply (A.write (f row)) d) post)
    (refused : Ensures (next (.error .violation)) d post) :
    Ensures (.perform statement next) d post := by
  have here : A.find? id cond d = some row := Access.find?_eq_some_iff.mpr ⟨known, holds⟩
  refine Ensures.perform ?_
  rw [exec, Access.updateChecked, Access.target_self, here]
  dsimp only
  split
  · exact found
  · exact refused

theorem insert {statement : S (Except Violation Unit)} {next : Except Violation Unit → Tx S ε α}
    (exec : Engine.exec statement (fun _ => false) d d = A.insert d row)
    (fresh : (A.table d).find? (Keyed.key row) = none →
      Ensures (next (.ok ())) (apply (A.write row) d) post)
    (refused : Ensures (next (.error .violation)) d post) :
    Ensures (.perform statement next) d post := by
  refine Ensures.perform ?_
  rw [exec, Access.insert]
  split
  · exact refused
  · next absent => exact fresh (Option.not_isSome_iff_eq_none.mp absent)

theorem upsert {statement : S Bool} {next : Bool → Tx S ε α}
    (exec : Engine.exec statement (fun _ => false) d d = A.upsert cond f d row)
    (fresh : (A.table d).find? (Keyed.key row) = none →
      Ensures (next true) (apply (A.write row) d) post)
    (old : ∀ old, (A.table d).find? (Keyed.key row) = some old → cond old = true →
      Ensures (next true) (apply (A.write (f old)) d) post)
    (refused : ∀ old, (A.table d).find? (Keyed.key row) = some old → cond old = false →
      Ensures (next false) d post) :
    Ensures (.perform statement next) d post := by
  refine Ensures.perform ?_
  rw [exec, Access.upsert]
  split
  · next absent => exact fresh absent
  · next before found =>
    split
    · next holds => exact old before found holds
    · next fails => exact refused before found (by simpa using fails)

end Tx.Ensures

namespace Tx.Returns

open RowStore

variable {S : Type → Type} {D W K ε α β ρ κ : Type} [RowStore D W K] [Engine S D]
  [Keyed ρ κ] [DecidableEq κ] {A : Access D W K ρ} {id : κ} {cond : ρ → Bool} {f : ρ → ρ}
  {row : ρ} {d : D} {post : α → D → Prop}

theorem read {statement : S β} {next : β → Tx S ε α} {value : β}
    (exec : Engine.exec statement (fun _ => false) d d = .read value)
    (rest : Returns (next value) d post) : Returns (.perform statement next) d post := by
  refine Returns.perform ?_
  rw [exec]
  exact rest

theorem selectForUpdate {statement : S (Option ρ)} {next : Option ρ → Tx S ε α}
    (exec : Engine.exec statement (fun _ => false) d d = A.selectForUpdate id cond d d)
    (rest : Returns (next (A.find? id cond d)) d post) :
    Returns (.perform statement next) d post := by
  refine Returns.perform ?_
  rw [exec, Access.selectForUpdate, Access.target_self]
  exact rest

theorem update {statement : S (Option ρ)} {next : Option ρ → Tx S ε α}
    (exec : Engine.exec statement (fun _ => false) d d = A.update id cond f d d)
    (found : ∀ row, (A.table d).find? id = some row → cond row = true →
      Returns (next (some (f row))) (apply (A.write (f row)) d) post)
    (missing : (∀ row, (A.table d).find? id = some row → cond row = false) →
      Returns (next none) d post) :
    Returns (.perform statement next) d post := by
  refine Returns.perform ?_
  rw [exec, Access.update, Access.target_self]
  cases here : A.find? id cond d with
  | none =>
    refine missing fun row known => ?_
    by_contra holds
    have := Access.find?_eq_some_iff.mpr ⟨known, by simpa using holds⟩
    rw [here] at this
    cases this
  | some row =>
    obtain ⟨known, holds⟩ := Access.find?_eq_some_iff.mp here
    exact found row known holds

end Tx.Returns

end IntramindRuntime.Library
