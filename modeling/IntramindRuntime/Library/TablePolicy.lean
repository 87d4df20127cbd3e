import IntramindRuntime.Library.RowPolicy
import IntramindRuntime.Library.RowStatements

/-!
# Policies about one table

Most policies speak about the rows of a single table: what such a row must
satisfy, and how a later version of it may differ. Statements on other tables
follow such a policy for free, and a statement on the table follows it if the new
version of the row it changes does.

## Main definitions

* `Tracked` — a table, and how its rows show in the cells of the database
* `RowRule`, `RowRule.on` — a rule for rows, as a policy about a table
* `RowGrowth`, `RowGrowth.on` — how the row with a key may evolve, absent rows included
* `Tracked.Pinned` — a transaction has locked a row of the table and knows a fact about it

## Main results

* `RowRule.allows_update`, `RowRule.allows_insert` — the writes of a statement follow a rule
* `Tracked.Pinned.after_update`, `Tracked.Pinned.after_other` — a pinned row keeps its fact
* `Tracked.select` — a statement that selects rows for update pins them
-/

namespace IntramindRuntime.Library

open RowStore

/-- A table of a database, and how its rows show in the cells of the database. -/
structure Tracked (D W K ρ : Type) {κ : Type} [RowStore D W K] [Keyed ρ κ] [DecidableEq κ]
    extends Access D W K ρ where
  get : Cell D → Option ρ
  get_lock : ∀ id d, get (cell (lock id) d) = (table d).find? id
  get_write : ∀ row d, get (cell (lock (Keyed.key row)) (apply (write row) d)) = some row
  key_write : ∀ row, key D (write row) = lock (Keyed.key row)
  lock_injective : ∀ {id id'}, lock id = lock id' → id = id'
  /-- No other cell shows a row of the table. -/
  cells : ∀ k, (∃ id, k = lock id) ∨ ∀ d, get (cell k d) = none
  /-- A write that is none of the table touches another cell. -/
  other : ∀ w, (∃ row, w = write row) ∨ ∀ id, key D w ≠ lock id

/-- Which rows of a table are sane, and how a row of it may change. Rows stay. -/
structure RowRule (ρ : Type) where
  sane : ρ → Prop
  stays : ρ → ρ → Prop
  refl : ∀ row, stays row row
  trans : ∀ {first middle last}, stays first middle → stays middle last → stays first last

variable {S : Type → Type} {D W K ρ κ β : Type} [RowStore D W K] [Keyed ρ κ] [DecidableEq κ]

namespace RowRule

/-- The rule as a policy about a table. -/
def on (rule : RowRule ρ) (T : Tracked D W K ρ) : RowPolicy D where
  sound _ content := ∀ row, T.get content = some row → rule.sane row
  keeps _ content content' :=
    ∀ old, T.get content = some old → ∃ row, T.get content' = some row ∧ rule.stays old row
  refl _ _ old found := ⟨old, found, rule.refl old⟩
  trans _ _ _ _ first second old found := by
    obtain ⟨middle, found, stays⟩ := first old found
    obtain ⟨last, found, stays'⟩ := second middle found
    exact ⟨last, found, rule.trans stays stays'⟩

variable {rule : RowRule ρ} {T : Tracked D W K ρ} {d d' : D} {id : κ} {cond : ρ → Bool}
  {f : ρ → ρ} {row : ρ} {snapshot : D} {w : W}

theorem sane_of_sound (sound : (rule.on T).Sound d) (found : (T.table d).find? id = some row) :
    rule.sane row :=
  sound (T.lock id) row ((T.get_lock id d).trans found)

theorem stays_of_keeps (keeps : (rule.on T).Keeps d d') (found : (T.table d).find? id = some row) :
    ∃ row', (T.table d').find? id = some row' ∧ rule.stays row row' := by
  have kept := keeps (T.lock id) row ((T.get_lock id d).trans found)
  simpa only [T.get_lock] using kept

/-- An empty table is sound. -/
theorem sound_of_empty (empty : ∀ id, (T.table d).find? id = none) : (rule.on T).Sound d := by
  intro k row found
  rcases T.cells k with ⟨id, rfl⟩ | nothing
  · rw [T.get_lock, empty] at found
    cases found
  · rw [nothing] at found
    cases found

/-- Writes to other tables follow the rule. -/
theorem allows_other (other : ∀ row, w ≠ T.write row) : (rule.on T).Allows d w := by
  rcases T.other w with ⟨row, rfl⟩ | elsewhere
  · exact absurd rfl (other row)
  · have elsewhere : ∀ d, T.get (cell (key D w) d) = none := by
      rcases T.cells (key D w) with ⟨id, here⟩ | nothing
      · exact absurd here (elsewhere id)
      · exact nothing
    constructor
    · intro row found
      rw [elsewhere] at found
      cases found
    · intro old found
      rw [elsewhere] at found
      cases found

/-- Writing a sane row that may replace the version of `d'` follows the rule after `d'`,
whatever it replaces in `d`. -/
theorem over_write (sane : rule.sane row)
    (stays : ∀ old, (T.table d').find? (Keyed.key row) = some old → rule.stays old row) :
    (rule.on T).sound (key D (T.write row)) (cell (key D (T.write row)) (apply (T.write row) d)) ∧
      (rule.on T).keeps (key D (T.write row)) (cell (key D (T.write row)) d')
        (cell (key D (T.write row)) (apply (T.write row) d)) := by
  constructor
  · intro new found
    rw [T.key_write, T.get_write] at found
    cases found
    exact sane
  · intro old found
    rw [T.key_write] at found ⊢
    rw [T.get_lock] at found
    exact ⟨row, T.get_write row d, stays old found⟩

/-- Writing a sane row that may replace the old one follows the rule. -/
theorem allows_write (sane : rule.sane row)
    (stays : ∀ old, (T.table d).find? (Keyed.key row) = some old → rule.stays old row) :
    (rule.on T).Allows d (T.write row) :=
  ⟨(over_write sane stays).1, (over_write sane stays).2⟩

/-- An `UPDATE` follows the rule if the new version of its row does. -/
theorem allows_update (member : w ∈ (T.update id cond f snapshot d).writes)
    (sound : (rule.on T).Sound d) (same : ∀ row, Keyed.key (f row) = Keyed.key row)
    (step : ∀ row, (T.table d).find? id = some row → cond row = true → rule.sane row →
      rule.sane (f row) ∧ rule.stays row (f row)) : (rule.on T).Allows d w := by
  obtain ⟨row, found, holds, rfl⟩ := Access.mem_update_writes member
  obtain ⟨sane, stays⟩ := step row found holds (sane_of_sound sound found)
  refine allows_write sane fun old before => ?_
  rw [same, Table.key_of_find? found, found] at before
  cases before
  exact stays

theorem allows_updateAll (member : w ∈ (T.updateAll cond f snapshot d).writes)
    (sound : (rule.on T).Sound d) (same : ∀ row, Keyed.key (f row) = Keyed.key row)
    (step : ∀ row, cond row = true → rule.sane row →
      rule.sane (f row) ∧ rule.stays row (f row)) : (rule.on T).Allows d w := by
  obtain ⟨row, found, holds, rfl⟩ := Access.mem_updateAll_writes member
  obtain ⟨sane, stays⟩ := step row holds (sane_of_sound sound found)
  refine allows_write sane fun old before => ?_
  rw [same, found] at before
  cases before
  exact stays

/-- An `INSERT` follows the rule if the row is sane: there is no old one. -/
theorem allows_insert (member : w ∈ (T.insert d row).writes) (sane : rule.sane row) :
    (rule.on T).Allows d w := by
  obtain ⟨rfl, absent⟩ := Access.mem_insert_writes member
  refine allows_write sane fun old before => ?_
  rw [absent] at before
  cases before

end RowRule

/-! ### How the rows of a table evolve -/

/-- How the row with a key may evolve: it stays, later versions follow it, and a new
row is fresh. -/
structure RowGrowth (ρ : Type) where
  follows : ρ → ρ → Prop
  fresh : ρ → Prop
  refl : ∀ row, follows row row
  trans : ∀ {first middle last}, follows first middle → follows middle last → follows first last
  keeps : ∀ {first row}, fresh first → follows first row → fresh row

namespace RowGrowth

/-- The growth of a table, as a law about changes. -/
def on (growth : RowGrowth ρ) (T : Tracked D W K ρ) : RowChange D where
  keeps _ content content' :=
    (∀ old, T.get content = some old → ∃ row, T.get content' = some row ∧ growth.follows old row) ∧
      (T.get content = none → ∀ row, T.get content' = some row → growth.fresh row)
  refl _ content := ⟨fun old found => ⟨old, found, growth.refl old⟩, fun absent row found => by
    rw [absent] at found
    cases found⟩
  trans _ _ middle _ first second := by
    refine ⟨fun old found => ?_, fun absent row found => ?_⟩
    · obtain ⟨row, found, follows⟩ := first.1 old found
      obtain ⟨row', found, follows'⟩ := second.1 row found
      exact ⟨row', found, growth.trans follows follows'⟩
    · -- A row that is new in the end was added by the first part or by the second.
      cases before : T.get middle with
      | none => exact second.2 before row found
      | some new =>
        obtain ⟨row', found', follows⟩ := second.1 new before
        rw [found] at found'
        cases found'
        exact growth.keeps (first.2 absent new before) follows

variable {growth : RowGrowth ρ} {T : Tracked D W K ρ} {d d' : D} {id : κ} {cond : ρ → Bool}
  {f : ρ → ρ} {row : ρ} {snapshot : D} {w : W}

theorem follows_of_keeps (keeps : (growth.on T).Keeps d d')
    (found : (T.table d).find? id = some row) :
    ∃ row', (T.table d').find? id = some row' ∧ growth.follows row row' := by
  have kept := (keeps (T.lock id)).1 row ((T.get_lock id d).trans found)
  simpa only [T.get_lock] using kept

theorem fresh_of_keeps (keeps : (growth.on T).Keeps d d') (absent : (T.table d).find? id = none)
    (found : (T.table d').find? id = some row) : growth.fresh row :=
  (keeps (T.lock id)).2 ((T.get_lock id d).trans absent) row ((T.get_lock id d').trans found)

/-- A row of the later database is a later version of a row, or fresh. -/
theorem cases_of_keeps (keeps : (growth.on T).Keeps d d')
    (after : (T.table d').find? id = some row) :
    (∃ old, (T.table d).find? id = some old ∧ growth.follows old row) ∨
      ((T.table d).find? id = none ∧ growth.fresh row) := by
  cases before : (T.table d).find? id with
  | some old =>
    obtain ⟨row', found, follows⟩ := follows_of_keeps keeps before
    rw [after] at found
    cases found
    exact Or.inl ⟨old, rfl, follows⟩
  | none => exact Or.inr ⟨rfl, fresh_of_keeps keeps before after⟩

/-- What a law about a table says about a write to it. -/
theorem of_write
    (follows : ∀ old, (T.table d).find? (Keyed.key row) = some old → growth.follows old row)
    (fresh : (T.table d).find? (Keyed.key row) = none → growth.fresh row) :
    (growth.on T).keeps (key D (T.write row)) (cell (key D (T.write row)) d)
      (cell (key D (T.write row)) (apply (T.write row) d)) := by
  refine ⟨fun old found => ⟨row, ?_, follows old ?_⟩, fun absent new found => ?_⟩
  · rw [T.key_write, T.get_write]
  · rwa [T.key_write, T.get_lock] at found
  · rw [T.key_write, T.get_write] at found
    cases found
    rw [T.key_write, T.get_lock] at absent
    exact fresh absent

/-- Writes to other tables do not matter. -/
theorem of_other (other : ∀ row, w ≠ T.write row) :
    (growth.on T).keeps (key D w) (cell (key D w) d) (cell (key D w) (apply w d)) := by
  rcases T.other w with ⟨row, rfl⟩ | elsewhere
  · exact absurd rfl (other row)
  · have elsewhere : ∀ d, T.get (cell (key D w) d) = none := by
      rcases T.cells (key D w) with ⟨id, here⟩ | nothing
      · exact absurd here (elsewhere id)
      · exact nothing
    refine ⟨fun old found => ?_, fun _ row found => ?_⟩ <;> rw [elsewhere] at found <;> cases found

/-- A row is rewritten. -/
theorem of_rewrite (found : (T.table d).find? id = some row)
    (same : Keyed.key (f row) = Keyed.key row) (follows : growth.follows row (f row)) :
    (growth.on T).keeps (key D (T.write (f row))) (cell (key D (T.write (f row))) d)
      (cell (key D (T.write (f row))) (apply (T.write (f row)) d)) := by
  have here : (T.table d).find? (Keyed.key (f row)) = some row := by
    rw [same, Table.key_of_find? found]
    exact found
  refine of_write (fun old before => ?_) fun absent => ?_
  · rw [here] at before
    cases before
    exact follows
  · rw [here] at absent
    cases absent

theorem of_update (member : w ∈ (T.update id cond f snapshot d).writes)
    (same : ∀ row, Keyed.key (f row) = Keyed.key row)
    (follows : ∀ row, (T.table d).find? id = some row → cond row = true →
      growth.follows row (f row)) :
    (growth.on T).keeps (key D w) (cell (key D w) d) (cell (key D w) (apply w d)) := by
  obtain ⟨row, found, holds, rfl⟩ := Access.mem_update_writes member
  exact of_rewrite found (same row) (follows row found holds)

theorem of_updateChecked {check : ρ → Bool}
    (member : w ∈ (T.updateChecked id cond check f snapshot d).writes)
    (same : ∀ row, Keyed.key (f row) = Keyed.key row)
    (follows : ∀ row, (T.table d).find? id = some row → cond row = true →
      growth.follows row (f row)) :
    (growth.on T).keeps (key D w) (cell (key D w) d) (cell (key D w) (apply w d)) := by
  obtain ⟨row, found, holds, rfl⟩ := Access.mem_updateChecked_writes member
  exact of_rewrite found (same row) (follows row found holds)

theorem of_updateAll (member : w ∈ (T.updateAll cond f snapshot d).writes)
    (same : ∀ row, Keyed.key (f row) = Keyed.key row)
    (follows : ∀ row, cond row = true → growth.follows row (f row)) :
    (growth.on T).keeps (key D w) (cell (key D w) d) (cell (key D w) (apply w d)) := by
  obtain ⟨row, found, holds, rfl⟩ := Access.mem_updateAll_writes member
  exact of_rewrite found (same row) (follows row holds)

theorem of_insert (member : w ∈ (T.insert d row).writes) (fresh : growth.fresh row) :
    (growth.on T).keeps (key D w) (cell (key D w) d) (cell (key D w) (apply w d)) := by
  obtain ⟨rfl, absent⟩ := Access.mem_insert_writes member
  refine of_write (fun old before => ?_) fun _ => fresh
  rw [absent] at before
  cases before

theorem of_insertIgnore (member : w ∈ (T.insertIgnore d row).writes) (fresh : growth.fresh row) :
    (growth.on T).keeps (key D w) (cell (key D w) d) (cell (key D w) (apply w d)) := by
  obtain ⟨rfl, absent⟩ := Access.mem_insertIgnore_writes member
  refine of_write (fun old before => ?_) fun _ => fresh
  rw [absent] at before
  cases before

/-- No row of the table changes. -/
def frozen (ρ : Type) : RowGrowth ρ where
  follows old row := row = old
  fresh _ := False
  refl _ := rfl
  trans first second := second.trans first
  keeps fresh _ := fresh

theorem find?_of_frozen (keeps : ((frozen ρ).on T).Keeps d d') :
    (T.table d').find? id = (T.table d).find? id := by
  cases before : (T.table d).find? id with
  | some row =>
    obtain ⟨row', after, same⟩ := follows_of_keeps keeps before
    rw [after, same]
  | none =>
    cases after : (T.table d').find? id with
    | none => rfl
    | some row => exact (fresh_of_keeps keeps before after).elim

/-- Rows are added, and none changes. -/
def immutable (ρ : Type) : RowGrowth ρ where
  follows old row := row = old
  fresh _ := True
  refl _ := rfl
  trans first second := second.trans first
  keeps fresh _ := fresh

theorem find?_of_immutable (keeps : ((immutable ρ).on T).Keeps d d')
    (found : (T.table d).find? id = some row) : (T.table d').find? id = some row := by
  obtain ⟨row', after, same⟩ := follows_of_keeps keeps found
  exact same ▸ after

/-- A property that rows do not lose, and that new rows have. -/
def lasting (sane : ρ → Prop) : RowGrowth ρ where
  follows old row := sane old → sane row
  fresh := sane
  refl _ kept := kept
  trans first second := second ∘ first
  keeps fresh follows := follows fresh

theorem sane_of_lasting {sane : ρ → Prop} (keeps : ((lasting sane).on T).Keeps d d')
    (before : ∀ id row, (T.table d).find? id = some row → sane row)
    (found : (T.table d').find? id = some row) : sane row := by
  rcases cases_of_keeps keeps found with ⟨old, found', follows⟩ | ⟨-, fresh⟩
  · exact follows (before id old found')
  · exact fresh

theorem of_upsert (member : w ∈ (T.upsert cond f d row).writes)
    (same : ∀ row, Keyed.key (f row) = Keyed.key row) (fresh : growth.fresh row)
    (follows : ∀ row, growth.follows row (f row)) :
    (growth.on T).keeps (key D w) (cell (key D w) d) (cell (key D w) (apply w d)) := by
  rcases Access.mem_upsert_writes member with ⟨rfl, absent⟩ | ⟨old, found, -, rfl⟩
  · refine of_write (fun old before => ?_) fun _ => fresh
    rw [absent] at before
    cases before
  · exact of_rewrite found (same old) (follows old)

end RowGrowth

/-! ### What a transaction sees of a table -/

namespace Tracked

section Views

variable (T : Tracked D W K ρ) {σ : Local S D W K} {𝓓 : Discipline S D W K} {d : D}

/-- A row is as before some writes, or one of these. -/
theorem find?_applyAll (writes : List W) (d : D) (id : κ) :
    (T.table (applyAll writes d)).find? id = (T.table d).find? id ∨
      ∃ row, T.write row ∈ writes ∧ Keyed.key row = id ∧
        (T.table (applyAll writes d)).find? id = some row := by
  simp only [← T.get_lock]
  rcases cell_applyAll_cases (T.lock id) writes d with same | ⟨w, member, here, written⟩
  · exact Or.inl (congrArg T.get same)
  · rcases T.other w with ⟨row, rfl⟩ | elsewhere
    · obtain rfl := T.lock_injective ((T.key_write row).symm.trans here)
      exact Or.inr ⟨row, member, rfl, (congrArg T.get written).trans (T.get_write row d)⟩
    · exact absurd here (elsewhere id)

/-- A row that is written is one of the writes. -/
theorem find?_applyAll_of_mem {writes : List W} (d : D) {row : ρ} (member : T.write row ∈ writes) :
    ∃ row', T.write row' ∈ writes ∧ Keyed.key row' = Keyed.key row ∧
      (T.table (applyAll writes d)).find? (Keyed.key row) = some row' := by
  simp only [← T.get_lock]
  obtain ⟨w, inWrites, here, content⟩ :=
    cell_applyAll_of_mem d ⟨T.write row, member, T.key_write row⟩
  rcases T.other w with ⟨row', rfl⟩ | elsewhere
  · have same := T.lock_injective ((T.key_write row').symm.trans here)
    refine ⟨row', inWrites, same, (congrArg T.get content).trans ?_⟩
    rw [← same]
    exact T.get_write row' d
  · exact absurd here (elsewhere _)

/-- A row is one of the rows that are written, or it is as before. -/
theorem find?_applyAll_map (rows : List ρ) (d : D) (id : κ) :
    (∃ row ∈ rows, Keyed.key row = id ∧
        (T.table (applyAll (rows.map T.write) d)).find? id = some row) ∨
      ((∀ row ∈ rows, Keyed.key row ≠ id) ∧
        (T.table (applyAll (rows.map T.write) d)).find? id = (T.table d).find? id) := by
  have of_write {row : ρ} (member : T.write row ∈ rows.map T.write) : row ∈ rows := by
    obtain ⟨row', listed, same⟩ := List.mem_map.mp member
    have written := T.get_write row' d
    rw [same, T.lock_injective ((T.key_write row').symm.trans
      ((congrArg (key D) same).trans (T.key_write row))), T.get_write] at written
    cases written
    exact listed
  by_cases written : ∃ row ∈ rows, Keyed.key row = id
  · obtain ⟨row, listed, rfl⟩ := written
    obtain ⟨row', member, same, found⟩ := T.find?_applyAll_of_mem d (List.mem_map_of_mem listed)
    exact Or.inl ⟨row', of_write member, same, found⟩
  · refine Or.inr ⟨fun row listed here => written ⟨row, listed, here⟩, ?_⟩
    rcases T.find?_applyAll (rows.map T.write) d id with same | ⟨row, member, here, -⟩
    · exact same
    · exact absurd ⟨row, of_write member, here⟩ written

/-- A row that a transaction holds looks the same to it after interference. -/
theorem find?_held (rely : 𝓓.Rely σ d) {id : κ} (held : σ.held (T.lock id)) :
    (T.table (σ.upon d).view).find? id = (T.table σ.view).find? id := by
  simp only [← T.get_lock]
  exact congrArg T.get (rely.cell_view held)

/-- A row that the transaction has not written changes with the committed database, and
a row that it has written does not change. -/
theorem find?_over (rely : 𝓓.Rely σ d) (locked : ∀ w ∈ σ.writes, σ.held (key D w)) (id : κ) :
    ((T.table d).find? id = (T.table σ.committed).find? id ∧
        (T.table (σ.upon d).view).find? id = (T.table σ.view).find? id) ∨
      (T.table (σ.upon d).view).find? id = (T.table d).find? id := by
  simp only [← T.get_lock]
  rcases rely.cell_upon locked (T.lock id) with ⟨unchanged, same⟩ | ⟨moved, -⟩
  · exact Or.inl ⟨congrArg T.get unchanged, congrArg T.get same⟩
  · exact Or.inr (congrArg T.get moved)

end Views

end Tracked

/-! ### Locked rows of a table -/

namespace Tracked

variable (T : Tracked D W K ρ)

/-- The transaction has locked the row with a key, and the row satisfies `fact`. -/
def Pinned (id : κ) (fact : ρ → Prop) (σ : Local S D W K) : Prop :=
  Pins (T.lock id) (fun content => ∃ row, T.get content = some row ∧ fact row) σ

variable {T} {id id' : κ} {fact : ρ → Prop} {σ : Local S D W K} {row : ρ} {f : ρ → ρ}
  {cond : ρ → Bool} {snapshot : D}

namespace Pinned

theorem found (pinned : T.Pinned id fact σ) :
    ∃ row, (T.table σ.view).find? id = some row ∧ fact row := by
  obtain ⟨row, here, holds⟩ := pinned.2
  exact ⟨row, (T.get_lock id _).symm.trans here, holds⟩

theorem fact_of_find? (pinned : T.Pinned id fact σ) (found : (T.table σ.view).find? id = some row) :
    fact row := by
  obtain ⟨here, same, holds⟩ := pinned.found
  rw [found] at same
  cases same
  exact holds

theorem mono {weaker : ρ → Prop} (pinned : T.Pinned id fact σ)
    (implies : ∀ row, fact row → weaker row) : T.Pinned id weaker σ :=
  Pins.mono pinned fun _ ⟨row, here, holds⟩ => ⟨row, here, implies row holds⟩

theorem started (pinned : T.Pinned id fact σ) (statement : S β) :
    T.Pinned id fact (σ.started statement) := pinned

theorem stable (𝓓 : Discipline S D W K) : Wp.Stable 𝓓 (T.Pinned id fact) := Pins.stable 𝓓

/-- A row that a statement selected for update is pinned. -/
theorem of_lock {outcome : Outcome W K β} (locked : T.lock id ∈ outcome.locks)
    (reads : outcome.writes = []) (found : (T.table σ.view).find? id = some row)
    (holds : fact row) : T.Pinned id fact (σ.after outcome) :=
  Pins.of_lock locked reads ⟨row, (T.get_lock id _).trans found, holds⟩

/-- A row that a statement has written is pinned. -/
theorem of_write {outcome : Outcome W K β} (writes : outcome.writes = [T.write row])
    (named : Keyed.key row = id) (holds : fact row) : T.Pinned id fact (σ.after outcome) := by
  have member : T.write row ∈ outcome.writes := by
    rw [writes]
    exact List.mem_singleton_self _
  have held := Local.held_after_of_write σ outcome member
  rw [T.key_write, named] at held
  refine ⟨held, row, ?_, holds⟩
  rw [Local.view_after, writes, applyAll_cons, applyAll_nil, ← named]
  exact T.get_write row _

theorem after_other (pinned : T.Pinned id fact σ) {outcome : Outcome W K β}
    (other : ∀ w ∈ outcome.writes, ∀ row, w ≠ T.write row) :
    T.Pinned id fact (σ.after outcome) := by
  refine Pins.after pinned fun w member here => ?_
  rcases T.other w with ⟨row, written⟩ | elsewhere
  · exact absurd written (other w member row)
  · exact absurd here (elsewhere id)

theorem after_writes (pinned : T.Pinned id fact σ) {outcome : Outcome W K β}
    (writes : ∀ w ∈ outcome.writes, ∃ row, w = T.write row ∧ (Keyed.key row = id → fact row)) :
    T.Pinned id fact (σ.after outcome) := by
  refine Pins.after pinned fun w member here => ?_
  obtain ⟨row, rfl, holds⟩ := writes w member
  rw [T.key_write] at here
  have same := T.lock_injective here
  subst same
  exact ⟨row, T.get_write row _, holds rfl⟩

/-- An `UPDATE` keeps a pinned fact that the new version of the row still satisfies. -/
theorem after_update (pinned : T.Pinned id fact σ) (same : ∀ row, Keyed.key (f row) = Keyed.key row)
    (keeps : ∀ row, fact row → fact (f row)) {outcome : Outcome W K β}
    (writes : outcome.writes = (T.update id' cond f snapshot σ.view).writes) :
    T.Pinned id fact (σ.after outcome) := by
  refine pinned.after_writes fun w member => ?_
  rw [writes] at member
  obtain ⟨row, found, -, rfl⟩ := Access.mem_update_writes member
  refine ⟨f row, rfl, fun here => keeps row (pinned.fact_of_find? ?_)⟩
  rw [← here, same, Table.key_of_find? found]
  exact found

end Pinned

section Statements

variable {ε : Type} [Engine S D] {admits : Local S D W K → ∀ {β : Type}, S β → Prop}

/-- A statement that selects rows for update pins them. -/
theorem select (T : Tracked D W K ρ) {P : RowPolicy D} (statement : S β) (selects : β → List ρ)
    (fact : ρ → Prop) (kept : P.Kept σ)
    (reads : ∀ busy snap d, (Engine.exec statement busy snap d).writes = [])
    (locks : ∀ busy snap d, ∀ row ∈ selects (Engine.exec statement busy snap d).result,
      T.lock (Keyed.key row) ∈ (Engine.exec statement busy snap d).locks ∧
        (T.table d).find? (Keyed.key row) = some row ∧ fact row) :
    Wp (P.discipline admits) (Tx.stmt statement : Tx S ε β) σ fun result σ' =>
      P.Kept σ' ∧ ∀ row ∈ selects result,
        T.Pinned (Keyed.key row) (fun row' => row' = row) σ' ∧ fact row := by
  refine Wp.perform (fun _ => RowPolicy.Kept.stable) (fun d rely => ?_)
    fun snap σ' busy kept' _ => Wp.ret fun d rely => ⟨?_, fun row member => ?_⟩
  · exact (RowPolicy.Kept.stable σ d kept rely).started statement
  · exact RowPolicy.Kept.stable _ d (kept'.after_read (reads ..)) rely
  · obtain ⟨locked, found, holds⟩ := locks busy snap _ row member
    exact ⟨Pinned.stable _ _ d (Pinned.of_lock locked (reads ..) found rfl) rely, holds⟩

/-- An `UPDATE` of a pinned row that satisfies its condition takes place. -/
theorem update (T : Tracked D W K ρ) {rule : RowRule ρ} (cond : ρ → Bool) (f : ρ → ρ)
    (statement : S (Option ρ))
    (exec : ∀ busy snap d, Engine.exec statement busy snap d = T.update id cond f snap d)
    (same : ∀ row, Keyed.key (f row) = Keyed.key row) (kept : (rule.on T).Kept σ)
    (pinned : T.Pinned id fact σ) (holds : ∀ row, fact row → cond row = true)
    (step : ∀ row, fact row → rule.sane row → rule.sane (f row) ∧ rule.stays row (f row)) :
    Wp ((rule.on T).discipline admits) (Tx.stmt statement : Tx S ε (Option ρ)) σ fun _ σ' =>
      (rule.on T).Kept σ' ∧ T.Pinned id (fun row' => ∃ row, fact row ∧ row' = f row) σ' := by
  have waiting : ∀ snap, Wp.Stable ((rule.on T).discipline admits) fun σ' : Local S D W K =>
      (rule.on T).Kept σ' ∧ T.Pinned id fact σ' ∧ (T.find? id cond snap).isSome :=
    fun snap σ' d here rely => ⟨RowPolicy.Kept.stable σ' d here.1 rely,
      Pinned.stable _ σ' d here.2.1 rely, here.2.2⟩
  refine Wp.perform waiting (fun d rely => ?_) fun snap σ' busy here _ => Wp.ret fun d rely => ?_
  · have pinned := Pinned.stable _ σ d pinned rely
    obtain ⟨row, found, fits⟩ := pinned.found
    refine ⟨(RowPolicy.Kept.stable σ d kept rely).started _, pinned.started _, ?_⟩
    rw [Access.find?_eq_some_iff.mpr ⟨found, holds row fits⟩]
    rfl
  · obtain ⟨kept, pinned, seen⟩ := here
    obtain ⟨row, found, fits⟩ := pinned.found
    have target : T.target id cond snap σ'.view = some row :=
      Access.target_eq_some_iff.mpr ⟨seen, found, holds row fits⟩
    have writes : (Engine.exec statement busy snap σ'.view).writes = [T.write (f row)] := by
      rw [exec, Access.update, target]
      rfl
    have kept : (rule.on T).Kept (σ'.after (Engine.exec statement busy snap σ'.view)) := by
      refine kept.after fun w member => ?_
      rw [exec] at member
      exact RowRule.allows_update member kept.view same fun row found _ sane =>
        step row (pinned.fact_of_find? found) sane
    have moved : T.get (cell (T.lock id)
        (σ'.after (Engine.exec statement busy snap σ'.view)).view) = some (f row) := by
      rw [Local.view_after, writes, applyAll_cons, applyAll_nil]
      have here := T.get_write (f row) σ'.view
      rwa [same, Table.key_of_find? found] at here
    refine ⟨RowPolicy.Kept.stable _ d kept rely, Pinned.stable _ _ d ?_ rely⟩
    exact ⟨Local.held_after _ _ pinned.1, f row, moved, row, fits, rfl⟩

/-- An unconditional `UPDATE` of a row that is there takes place, in a state in which what
was known when it started still holds. -/
theorem rewrite (T : Tracked D W K ρ) {𝓓 : Discipline S D W K} (f : ρ → ρ)
    (statement : S (Option ρ))
    (exec : ∀ busy snap d,
      Engine.exec statement busy snap d = T.toAccess.update id (fun _ => true) f snap d)
    {known : Local S D W K → Prop} {post : Option ρ → Local S D W K → Prop}
    (stable : Wp.Stable 𝓓 known) (lasting : ∀ result, Wp.Stable 𝓓 (post result))
    (started : ∀ σ, known σ → known (σ.started statement))
    (present : ∀ σ, known σ → ((T.table σ.view).find? id).isSome)
    (step : ∀ (σ : Local S D W K) row (outcome : Outcome W K (Option ρ)), known σ →
      (T.table σ.view).find? id = some row → outcome.writes = [T.write (f row)] →
        post (some (f row)) (σ.after outcome)) (here : known σ) :
    Wp 𝓓 (Tx.stmt statement : Tx S ε (Option ρ)) σ post := by
  have waiting (snap : D) : Wp.Stable 𝓓 fun σ' : Local S D W K =>
      known σ' ∧ ((T.table snap).find? id).isSome :=
    fun σ' d here rely => ⟨stable σ' d here.1 rely, here.2⟩
  refine Wp.perform waiting (fun d rely => ?_) fun snap σ' busy here _ => ?_
  · have here := stable σ d here rely
    exact ⟨started _ here, present _ here⟩
  · obtain ⟨row, found⟩ := Option.isSome_iff_exists.mp (present σ' here.1)
    have target : T.target id (fun _ => true) snap σ'.view = some row := by
      refine Access.target_eq_some_iff.mpr ⟨?_, found, rfl⟩
      rw [Access.find?_true]
      exact here.2
    have outcome : Engine.exec statement busy snap σ'.view =
        ⟨T.locks id (fun _ => true) snap, [T.write (f row)], some (f row)⟩ := by
      rw [exec, Access.update, target]
      rfl
    dsimp only
    rw [outcome]
    exact Wp.ret fun d rely => lasting _ _ d (step σ' row _ here.1 found rfl) rely

end Statements

end Tracked

end IntramindRuntime.Library
