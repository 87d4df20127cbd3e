import IntramindRuntime.Concurrency.Interleaving

/-!
# Ended roots stay ended

A root that a commit has ended should keep its state, its result and its reason.
`_settle` and the expiry of deadlines look at the state of the row they write.
`cancel` and `finish_run` do not: they rely on a state that they read before without
locking the root, and another transaction may end it before they write. A `finish_run`
for a root that has already ended reports success, unless it asks for the same state
with another result.

## Main definitions

* `settled` — the rule for rows of `runtime_roots`
* `SparesRoots`, `Interleaved.Unraced` — no commit ends a root that another transaction in
  flight has read
* `ReadRoot` — the transaction has read a root, which has not ended since
* `Concludes` — what a `finish_run` that reports success has done or found
* `Interleaved.InTime` — a `finish_run` does not come too late

## Main results

* `Interleaved.Run.terminal_root_stays` — in every run without such commits, ended roots stay
  as they are, and the requests to finish them that succeed agree
-/

namespace IntramindRuntime.Ledger

open Library

/-- A root keeps its deadline, and an ended one its state, its result and its reason. A root
has no result before it ends, and none when it is cancelled. -/
def settled : RowRule RootRow where
  sane root := (root.state = .cancelled → root.terminalReason = some "user_cancelled") ∧
    (root.state = .running ∨ root.state = .cancelled → root.result = none)
  stays old row := row.deadline = old.deadline ∧ (old.state ≠ .running →
    row.state = old.state ∧ row.result = old.result ∧ row.terminalReason = old.terminalReason)
  refl _ := ⟨rfl, fun _ => ⟨rfl, rfl, rfl⟩⟩
  trans := by
    rintro first middle last ⟨deadline, before⟩ ⟨deadline', after⟩
    refine ⟨deadline'.trans deadline, fun ended => ?_⟩
    obtain ⟨state, result, reason⟩ := before ended
    rw [← state] at ended
    obtain ⟨state', result', reason'⟩ := after ended
    exact ⟨state'.trans state, result'.trans result, reason'.trans reason⟩

/-- The policy that the rule makes. -/
abbrev settledPolicy : RowPolicy Db := settled.on trackedRoots

/-- A root of the database has ended. -/
def Db.rootEnded (d : Db) (rootId : String) : Bool :=
  (d.roots.find? rootId).any fun root => root.state ≠ .running

theorem Db.rootEnded_of_find? {d : Db} {rootId : String} {root : RootRow}
    (found : d.roots.find? rootId = some root) :
    d.rootEnded rootId = decide (root.state ≠ .running) := by
  rw [Db.rootEnded, found]
  rfl

/-! ### Statements -/

section Statements

variable {β : Type} {d snapshot : Db} {w : Write}

/-- The statements on roots that follow the rule by themselves. -/
def RootSql.Routine : RootSql β → Prop
  | .insert row => row.Fresh
  | .cancel .. | .finish .. => False
  | _ => True

theorem RootSql.allows_settled (statement : RootSql β) (sound : settledPolicy.Sound d)
    (routine : statement.Routine) (member : w ∈ (statement.exec snapshot d).writes) :
    settledPolicy.Allows d w := by
  cases statement with
  | forUpdate | forUpdateOfTenant | ofTenant | countRunning => cases member
  | insert row =>
    refine RowRule.allows_insert (T := trackedRoots) member ⟨fun cancelled => ?_, fun _ => ?_⟩
    · rw [routine.1] at cancelled
      cases cancelled
    · exact routine.2.1
  | countOperation | serve | charge =>
    exact RowRule.allows_update (T := trackedRoots) member sound (fun _ => rfl)
      fun row _ _ sane => ⟨sane, rfl, fun _ => ⟨rfl, rfl, rfl⟩⟩
  | settle rootId bound usage =>
    obtain ⟨row, found, -, rfl⟩ := Access.mem_updateChecked_writes member
    have sane := RowRule.sane_of_sound (T := trackedRoots) sound found
    refine RowRule.allows_write (T := trackedRoots) sane fun old before => ?_
    obtain rfl : old = row :=
      Option.some.inj (before.symm.trans ((congrArg _ (Table.key_of_find? found)).trans found))
    exact ⟨rfl, fun _ => ⟨rfl, rfl, rfl⟩⟩
  | overspend rootId now =>
    refine RowRule.allows_update (T := trackedRoots) member sound (fun _ => rfl)
      fun row _ running sane => ⟨⟨nofun, nofun⟩, rfl, fun terminal => ?_⟩
    exact absurd (of_decide_eq_true running) terminal
  | cancel | finish => exact routine.elim
  | expire now =>
    refine RowRule.allows_updateAll (T := trackedRoots) member sound (fun _ => rfl)
      fun row running sane => ⟨⟨nofun, nofun⟩, rfl, fun terminal => ?_⟩
    simp only [Bool.and_eq_true, decide_eq_true_eq] at running
    exact absurd running.1 terminal

/-- A running root may be cancelled, and a cancelled one again. -/
theorem RootRow.settles_cancel (row : RootRow) (now : Time) (sane : settled.sane row)
    (isOpen : row.state = .running ∨ row.state = .cancelled) :
    settled.sane (row.cancel now) ∧ settled.stays row (row.cancel now) := by
  refine ⟨⟨fun _ => rfl, fun _ => sane.2 isOpen⟩, rfl, fun ended => ?_⟩
  have cancelled := isOpen.resolve_left ended
  exact ⟨cancelled.symm, rfl, (sane.1 cancelled).symm⟩

/-- A running root may be finished. -/
theorem RootRow.settles_finish (row : RootRow) (at_ : Time) {state : RootState}
    {result : Option Artifact} {reason : Option String} (running : row.state = .running)
    (final : state ≠ .cancelled ∧ state ≠ .running) :
    settled.sane (row.finish at_ state result reason) ∧
      settled.stays row (row.finish at_ state result reason) := by
  refine ⟨?_, rfl, fun ended => absurd running ended⟩
  by_cases late : row.deadline ≤ at_
  · simp [settled, RootRow.finish, late]
  · simp [settled, RootRow.finish, late, final.1, final.2]

end Statements

/-! ### What transactions rely on -/

/-- The root that a statement reads without locking it. -/
def RootSql.reads {β : Type} : RootSql β → Option String
  | .ofTenant rootId _ => some rootId
  | _ => none

/-- The root that a statement reads without locking it. -/
def Sql.readsRoot {β : Type} : Sql β → Option String
  | .root statement => statement.reads
  | _ => none

/-- The database may change to `d` while a transaction has come to `σ`: no root ends that it
has read without locking it. -/
def SparesRoots (σ : InFlight) (d : Db) : Prop :=
  ∀ statement ∈ σ.log, ∀ rootId ∈ statement.2.readsRoot,
    d.rootEnded rootId = true → σ.committed.rootEnded rootId = true

instance {σ : InFlight} {d : Db} : Decidable (SparesRoots σ d) := by
  unfold SparesRoots
  exact inferInstance

/-- Roots change as the rule allows, and no root ends that the transaction has read. -/
def finishing : Discipline Sql Db Write Key where
  extra σ d := (settledPolicy.discipline Admits.all).extra σ d ∧ SparesRoots σ d
  extra_refl σ := ⟨(settledPolicy.discipline Admits.all).extra_refl σ, fun _ _ _ _ ended => ended⟩
  extra_trans first second := by
    refine ⟨(settledPolicy.discipline Admits.all).extra_trans first.1 second.1, ?_⟩
    intro statement logged rootId reads ended
    exact first.2 statement logged rootId reads (second.2 statement logged rootId reads ended)
  admits := Admits.all

theorem finishing_relies {σ : InFlight} {d : Db} (rely : finishing.Rely σ d) :
    (settledPolicy.discipline Admits.all).Rely σ d := ⟨rely.1, rely.2.1⟩

/-- The transaction has read a root without locking it, and the committed root has not ended
since. -/
structure ReadRoot (rootId : String) (root : RootRow) (σ : InFlight) : Prop where
  read : ∃ statement ∈ σ.log, statement.2.readsRoot = some rootId
  since : ∃ row, σ.committed.roots.find? rootId = some row ∧ row.state = root.state ∧
    settled.stays root row

section Methods

variable {sha256 : String → String} {env : Env} {σ : InFlight} {fact : Db → Prop}
  {rootId tenantId : String} {root : RootRow}

/-- Transactions that keep ended roots as they are, and a fact. -/
abbrev KeepsSettled (fact : Db → Prop) {α : Type} (p : Transaction α) : Prop :=
  Wp.Preserves finishing (fun σ => settledPolicy.Kept σ ∧ fact σ.view) p

theorem settled_stable (lasts : settledPolicy.Lasting fact) :
    Wp.Stable finishing fun σ : InFlight => settledPolicy.Kept σ ∧ fact σ.view :=
  fun σ d here rely => RowPolicy.Kept.stable_with lasts σ d here (finishing_relies rely)

theorem keepsSettled_other (lasts : settledPolicy.Lasting fact) {β : Type} {statement : Sql β}
    (other : statement.mayWrite .roots = false) : KeepsSettled fact (Tx.stmt statement) := by
  have kept : Wp.Preserves (settledPolicy.discipline Admits.all)
      (fun σ => settledPolicy.Kept σ ∧ fact σ.view) (Tx.stmt statement : Transaction β) :=
    RowPolicy.Kept.stmt_with lasts fun _ _ _ _ _ _ member =>
      Sql.allows_of_mayWrite (fun _ => rfl) other member
  exact kept.of_relies (fun _ _ => finishing_relies) fun _ _ _ admitted => admitted

theorem keepsSettled_root (lasts : settledPolicy.Lasting fact) {β : Type} {statement : RootSql β}
    (routine : statement.Routine) : KeepsSettled fact statement.run := by
  have kept : Wp.Preserves (settledPolicy.discipline Admits.all)
      (fun σ => settledPolicy.Kept σ ∧ fact σ.view) statement.run :=
    RowPolicy.Kept.stmt_with lasts fun _ _ _ kept _ _ member =>
      statement.allows_settled kept.view routine member
  exact kept.of_relies (fun _ _ => finishing_relies) fun _ _ _ admitted => admitted

theorem keepsSettled_builds (lasts : settledPolicy.Lasting fact) : Builds (KeepsSettled fact) := by
  refine .of_terminal (Wp.Preserves.closed (settled_stable lasts))
    (fun statement plain => ?_) fun _ _ _ _ => keepsSettled_other lasts rfl
  cases statement with
  | root statement =>
    refine keepsSettled_root lasts ?_
    cases statement <;> first | exact plain | exact plain.elim
  | _ => exact keepsSettled_other lasts rfl

/-! ### Roots that were read -/

theorem ReadRoot.stable : Wp.Stable finishing (ReadRoot rootId root) := by
  intro σ d here rely
  obtain ⟨row, found, same, stays⟩ := here.since
  obtain ⟨row', found', stays'⟩ := RowRule.stays_of_keeps (T := trackedRoots) rely.2.1.2 found
  refine ⟨here.read, row', found', ?_, settled.trans stays stays'⟩
  by_cases running : row.state = .running
  · -- a root that was running when it was read has not ended since
    obtain ⟨statement, logged, reads⟩ := here.read
    rw [← same, running]
    by_contra ended
    have isOver : d.rootEnded rootId = true := by
      rw [Db.rootEnded_of_find? found']
      exact decide_eq_true ended
    have before := rely.2.2 statement logged rootId reads isOver
    rw [Db.rootEnded_of_find? found] at before
    exact of_decide_eq_true before running
  · exact (stays'.2 running).1.trans same

theorem ReadRoot.started {β : Type} (here : ReadRoot rootId root σ) (statement : Sql β) :
    ReadRoot rootId root (σ.started statement) := by
  obtain ⟨earlier, logged, reads⟩ := here.read
  exact ⟨⟨earlier, List.mem_append_left _ logged, reads⟩, here.since⟩

/-- What a transaction does by itself ends no committed root. -/
theorem ReadRoot.always {α : Type} (p : Transaction α) :
    Wp.Preserves finishing (ReadRoot rootId root) p :=
  Wp.Preserves.always ReadRoot.stable (fun _ _ statement here => here.started statement)
    (fun _ _ _ here => ⟨here.read, here.since⟩) p

/-- A transaction that decides over a root: it has read the root and written none. -/
abbrev Deciding (rootId : String) (root : RootRow) (σ : InFlight) : Prop :=
  settledPolicy.Kept σ ∧ Untouched .roots σ ∧ ReadRoot rootId root σ

theorem Deciding.stable : Wp.Stable finishing (Deciding rootId root) := by
  rintro σ d ⟨kept, untouched, read⟩ rely
  exact ⟨RowPolicy.Kept.stable σ d kept (finishing_relies rely), untouched,
    ReadRoot.stable σ d read rely⟩

/-- Statements on other tables do not decide. -/
theorem Deciding.keeps {β : Type} {statement : Sql β} (other : statement.mayWrite .roots = false) :
    Wp.Preserves finishing (Deciding rootId root) (Tx.stmt statement : Transaction β) := by
  have kept : Wp.Preserves finishing (fun σ : InFlight => settledPolicy.Kept σ)
      (Tx.stmt statement : Transaction β) := by
    intro σ kept
    have lasts : settledPolicy.Lasting fun _ => True := fun _ _ _ _ => trivial
    exact (keepsSettled_other lasts other σ ⟨kept, trivial⟩).mono fun _ _ here => here.1
  exact kept.and ((Untouched.keeps _ other).and (ReadRoot.always _))

/-- The transaction sees the root in the state in which it was read. -/
theorem Deciding.found (here : Deciding rootId root σ) :
    ∃ row, σ.view.roots.find? rootId = some row ∧ row.state = root.state ∧
      settled.stays root row ∧ settled.sane row := by
  obtain ⟨kept, untouched, read⟩ := here
  obtain ⟨row, found, same, stays⟩ := read.since
  have found := (untouched.find? (T := trackedRoots) (fun _ => rfl) rootId).trans found
  exact ⟨row, found, same, stays, RowRule.sane_of_sound (T := trackedRoots) kept.view found⟩

/-- A plain read of a root. -/
theorem readRoot (here : settledPolicy.Kept σ ∧ Untouched .roots σ) :
    Wp finishing (RootSql.ofTenant rootId tenantId).run σ fun read σ' =>
      ∀ root ∈ read, Deciding rootId root σ' := by
  have waiting (snap : Db) : Wp.Stable finishing fun σ =>
      ∀ root, snap.roots.find? rootId = some root → Deciding rootId root σ :=
    fun σ d here rely root found => Deciding.stable σ d (here root found) rely
  refine Wp.perform waiting (fun d rely root found => ?_) fun snap σ busy here _ =>
    Wp.ret fun d rely root member => ?_
  · -- the snapshot shows the committed root, as the transaction has written none
    have kept := RowPolicy.Kept.stable σ d here.1 (finishing_relies rely)
    have untouched : Untouched .roots (σ.upon d) := here.2
    refine ⟨kept.started _, untouched, ⟨⟨_, Sql.root (.ofTenant rootId tenantId)⟩, ?_, rfl⟩, root,
      ?_, rfl, settled.refl root⟩
    · exact List.mem_append_right _ (List.mem_singleton_self _)
    · exact (untouched.find? (T := trackedRoots) (fun _ => rfl) rootId).symm.trans found
  · obtain ⟨found, -⟩ := Access.find?_eq_some_iff.mp member
    obtain ⟨kept, untouched, read⟩ := here root found
    refine Deciding.stable _ d ⟨kept.after_read rfl, fun w member => ?_, read.read, read.since⟩ rely
    exact untouched w ((List.mem_append.mp member).resolve_right List.not_mem_nil)

/-- A root that was read is written by its identity: the version that is replaced is in the
state that was read. -/
theorem overwriteRoot (f : RootRow → RootRow) (statement : RootSql (Option RootRow))
    (exec : ∀ snap d, statement.exec snap d = roots.update rootId (fun _ => true) f snap d)
    (named : ∀ row, (f row).rootId = row.rootId)
    (step : ∀ row, row.state = root.state → settled.sane row →
      settled.sane (f row) ∧ settled.stays row (f row)) (here : Deciding rootId root σ) :
    Wp finishing statement.run σ fun _ σ' => settledPolicy.Kept σ' ∧
      trackedRoots.Pinned rootId (fun new => ∃ row, new = f row ∧ row.state = root.state ∧
        row.deadline = root.deadline ∧ settled.sane row) σ' := by
  refine trackedRoots.rewrite f (Sql.root statement) (fun _ => exec) Deciding.stable
    (fun _ => Wp.Stable.and ?_ (Tracked.Pinned.stable _))
    (fun σ here => ⟨here.1.started _, here.2.1, here.2.2.started _⟩) (fun σ here => ?_)
    (fun σ row outcome here found writes => ?_) here
  · exact fun σ d kept rely => RowPolicy.Kept.stable σ d kept (finishing_relies rely)
  · obtain ⟨row, found, -⟩ := here.found
    exact Option.isSome_of_eq_some found
  · -- the version that is replaced is in the state that was read
    obtain ⟨row', found', same, stays, sane⟩ := here.found
    obtain rfl := Option.some.inj (found'.symm.trans found)
    have key : (f row').rootId = rootId := (named row').trans (Table.key_of_find? found)
    refine ⟨here.1.after fun w member => ?_, ?_⟩
    · rw [writes] at member
      obtain rfl := List.mem_singleton.mp member
      refine RowRule.allows_write (T := trackedRoots) (step row' same sane).1 fun old before => ?_
      obtain rfl : old = row' := by
        refine Option.some.inj (before.symm.trans (Eq.trans ?_ found))
        exact congrArg _ key
      exact (step old same sane).2
    · exact Tracked.Pinned.of_write writes key ⟨row', rfl, same, stays.1, sane⟩

/-! ### What a `finish_run` that reports success can count on -/

section Requests

variable {state : RootState} {result : Option Artifact}

/-- The root has ended, and if it ended in the requested state, then with the requested
result or at its deadline. -/
def Db.FinishedAs (rootId : String) (state : RootState) (result : Option Artifact) (d : Db) :
    Prop :=
  ∃ root ∈ d.roots.find? rootId, root.state ≠ .running ∧ (root.state = state →
    root.result = result ∨
      root.result = none ∧ root.terminalReason = some "deadline_exceeded")

/-- The root has ended as requested. -/
def Db.EndedAs (rootId : String) (state : RootState) (result : Option Artifact) (d : Db) : Prop :=
  ∃ root ∈ d.roots.find? rootId, root.state ≠ .running ∧ root.state = state ∧ root.result = result

/-- A `finish_run` comes in time: the root has ended in the requested state, or it is running
and its deadline is ahead. A cancellation does not look at the deadline. -/
def RootRow.Timely (env : Env) (rootId : String) (state : RootState) (root : RootRow) : Prop :=
  root.state = state ∨ root.state = .running ∧ (state = .cancelled ∨
    env.clock .finishing rootId < root.deadline ∧ env.clock .completion rootId < root.deadline)

instance : Decidable (root.Timely env rootId state) := by
  unfold RootRow.Timely
  exact inferInstance

/-- What a `finish_run` that has read the root can count on when it reports success. -/
structure Concluded (env : Env) (rootId : String) (state : RootState) (result : Option Artifact)
    (root : RootRow) (d : Db) : Prop where
  finished : d.FinishedAs rootId state result
  timely : root.Timely env rootId state → d.EndedAs rootId state result

theorem lasting_finishedAs (rootId : String) (state : RootState) (result : Option Artifact) :
    settledPolicy.Lasting (Db.FinishedAs rootId state result) := by
  rintro d d' ⟨root, found, ended, agrees⟩ keeps
  obtain ⟨root', found', -, stays⟩ := RowRule.stays_of_keeps (T := trackedRoots) keeps found
  obtain ⟨state', result', reason'⟩ := stays ended
  refine ⟨root', found', state' ▸ ended, ?_⟩
  rw [state', result', reason']
  exact agrees

theorem lasting_endedAs (rootId : String) (state : RootState) (result : Option Artifact) :
    settledPolicy.Lasting (Db.EndedAs rootId state result) := by
  rintro d d' ⟨root, found, ended, same⟩ keeps
  obtain ⟨root', found', -, stays⟩ := RowRule.stays_of_keeps (T := trackedRoots) keeps found
  obtain ⟨state', result', -⟩ := stays ended
  exact ⟨root', found', state' ▸ ended, state'.trans same.1, result'.trans same.2⟩

theorem lasting_concluded (env : Env) (rootId : String) (state : RootState)
    (result : Option Artifact) (root : RootRow) :
    settledPolicy.Lasting (Concluded env rootId state result root) := fun _ _ here keeps =>
  ⟨lasting_finishedAs rootId state result here.finished keeps,
    fun timely => lasting_endedAs rootId state result (here.timely timely) keeps⟩

/-- What has been concluded about a root that was read stays so until the transaction ends. -/
theorem Concluded.keeps {α : Type} {p : Transaction α}
    (keeps : KeepsSettled (Concluded env rootId state result root) p) :
    Wp.Preserves finishing (fun σ => (settledPolicy.Kept σ ∧
      Concluded env rootId state result root σ.view) ∧ ReadRoot rootId root σ) p :=
  keeps.and (ReadRoot.always p)

/-- The guarantee of a `finish_run`: it has read the root, and concludes as it should. -/
def Concludes (env : Env) (rootId : String) (state : RootState) (result : Option Artifact)
    (σ : InFlight) : Prop :=
  settledPolicy.Kept σ ∧ ∃ root, ReadRoot rootId root σ ∧
    Concluded env rootId state result root σ.view

theorem Concludes.of_kept (here : (settledPolicy.Kept σ ∧
    Concluded env rootId state result root σ.view) ∧ ReadRoot rootId root σ) :
    Concludes env rootId state result σ := ⟨here.1.1, root, here.2, here.1.2⟩

theorem Concludes.stable : Wp.Stable finishing (Concludes env rootId state result) := by
  rintro σ d ⟨kept, root, read, concluded⟩ rely
  have both := settled_stable (lasting_concluded ..) σ d ⟨kept, concluded⟩ rely
  exact ⟨both.1, root, ReadRoot.stable σ d read rely, both.2⟩

/-- A root that was read as ended is still as it was read. -/
theorem Deciding.concluded (here : Deciding rootId root σ) (ended : root.state ≠ .running)
    (agrees : root.state = state → root.result = result) :
    Concluded env rootId state result root σ.view := by
  -- an ended root does not change any more
  obtain ⟨row, found, -, ⟨-, stays⟩, -⟩ := here.found
  obtain ⟨same, kept, -⟩ := stays ended
  have stopped : row.state ≠ .running := same ▸ ended
  constructor
  · refine ⟨row, found, stopped, fun asked => Or.inl (kept.trans (agrees ?_))⟩
    exact same.symm.trans asked
  · rintro (asked | ⟨running, -⟩)
    · exact ⟨row, found, stopped, same.trans asked, kept.trans (agrees asked)⟩
    · exact absurd running ended

/-- `cancel` ends the root as cancelled, or finds it ended otherwise. -/
theorem cancel_concludes (here : settledPolicy.Kept σ ∧ Untouched .roots σ) :
    Wp finishing (Store.cancel env rootId tenantId) σ
      fun _ σ' => Concludes env rootId .cancelled none σ' := by
  unfold Store.cancel
  refine (readRoot here).seq fun read σ here => ?_
  cases read with
  | none => exact Wp.raise
  | some root =>
    have here := here root rfl
    have builds := keepsSettled_builds (lasting_concluded env rootId .cancelled none root)
    dsimp only
    split
    · next ended =>
      refine (Concluded.keeps (builds.ret ()) σ ⟨⟨here.1, here.concluded ?_ ?_⟩,
        here.2.2⟩).mono fun _ _ => Concludes.of_kept
      · intro running
        rw [running] at ended
        cases ended
      · intro cancelled
        rw [cancelled] at ended
        cases ended
    · next unended =>
      have isOpen : root.state = .running ∨ root.state = .cancelled := by
        cases state : root.state <;> simp [state] at unended ⊢
      -- The version that is written is as open as the one that was read.
      have step := overwriteRoot (RootRow.cancel env.now) (.cancel rootId env.now)
        (fun _ _ => rfl) (fun _ => rfl)
        (fun row same sane => row.settles_cancel env.now sane (same ▸ isOpen)) here
      refine (step.and (ReadRoot.always _ σ here.2.2)).seq fun _ σ here => ?_
      obtain ⟨⟨kept, pinned⟩, read⟩ := here
      obtain ⟨_, found, row, rfl, same, -, sane⟩ := pinned.found
      have none := sane.2 (same ▸ isOpen)
      have concluded : Concluded env rootId .cancelled Option.none root σ.view :=
        ⟨⟨_, found, nofun, fun _ => Or.inl none⟩, fun _ => ⟨_, found, nofun, rfl, none⟩⟩
      refine (Concluded.keeps ?_ σ ⟨⟨kept, concluded⟩, read⟩).mono fun _ _ => Concludes.of_kept
      exact builds.bind (builds.plain _ (by trivial)) fun _ =>
        builds.bind (builds.terminalAll _ _ _ rfl) fun _ => builds.event _ _ _ _

/-- A finished root has ended, as requested or at its deadline. -/
theorem RootRow.finish_agrees (row : RootRow) (at_ : Time) {state state' : RootState}
    {result result' : Option Artifact} {reason : Option String} (final : state' ≠ .running)
    (agrees : state' = state ∧ result' = result ∨
      result' = none ∧ reason = some "deadline_exceeded") :
    (row.finish at_ state' result' reason).state ≠ .running ∧
      ((row.finish at_ state' result' reason).state = state →
        (row.finish at_ state' result' reason).result = result ∨
          (row.finish at_ state' result' reason).result = none ∧
            (row.finish at_ state' result' reason).terminalReason = some "deadline_exceeded") := by
  by_cases late : row.deadline ≤ at_
  · simp [RootRow.finish, late]
  · simp only [RootRow.finish, late, if_false]
    refine ⟨final, fun _ => ?_⟩
    rcases agrees with ⟨-, same⟩ | expired
    · exact Or.inl same
    · exact Or.inr expired

/-- The transition of `finish_run` ends a running root as it was asked to, or at its
deadline. -/
theorem finishRoot_concludes {state' : RootState} {result' : Option Artifact}
    {reason : Option String} (here : Deciding rootId root σ) (running : root.state = .running)
    (asked : state ≠ .cancelled ∧ state ≠ .running)
    (final : state' ≠ .cancelled ∧ state' ≠ .running)
    (agrees : state' = state ∧ result' = result ∨ (result' = none ∧
      reason = some "deadline_exceeded") ∧ root.deadline ≤ env.clock .finishing rootId) :
    Wp finishing (Store.finishRoot env rootId state' result' reason) σ
      fun _ σ' => Concludes env rootId state result σ' := by
  have builds := keepsSettled_builds (lasting_concluded env rootId state result root)
  unfold Store.finishRoot
  refine (Deciding.keeps rfl σ here).seq fun pending σ here => wp_require fun _ => ?_
  have step := overwriteRoot (RootRow.finish (env.clock .completion rootId) state' result' reason)
    (.finish rootId (env.clock .completion rootId) state' result' reason)
    (fun _ _ => rfl) (fun _ => rfl)
    (fun row same _ => row.settles_finish _ (same.trans running) final) here
  refine (step.and (ReadRoot.always _ σ here.2.2)).seq fun finished σ here => ?_
  obtain ⟨⟨kept, pinned⟩, read⟩ := here
  obtain ⟨_, found, row, rfl, same, deadline, -⟩ := pinned.found
  have concluded : Concluded env rootId state result root σ.view := by
    obtain ⟨ended, done⟩ := row.finish_agrees (env.clock .completion rootId) final.2
      (agrees.imp id And.left)
    refine ⟨⟨_, found, ended, done⟩, ?_⟩
    -- A request that comes in time is not overtaken by the deadline.
    rintro (instead | ⟨-, cancelled | ⟨before, atEnd⟩⟩)
    · exact absurd (instead.symm.trans running) asked.2
    · exact absurd cancelled asked.1
    · obtain ⟨rfl, rfl⟩ := agrees.resolve_right fun late => absurd before (not_lt.mpr late.2)
      have inTime : ¬ row.deadline ≤ env.clock .completion rootId := by
        rw [deadline]
        exact not_le.mpr atEnd
      refine ⟨_, found, ended, ?_, ?_⟩
      · simp only [RootRow.finish, inTime, if_false]
      · simp only [RootRow.finish, inTime, if_false]
  cases finished with
  | none => exact Wp.raise
  | some finished =>
    refine (Concluded.keeps ?_ σ ⟨⟨kept, concluded⟩, read⟩).mono fun _ _ => Concludes.of_kept
    dsimp only
    split
    · exact builds.ret _
    · exact builds.perform (by trivial) fun _ => builds.terminalAll _ _ _ rfl

/-- A `finish_run` that reports success has ended the root as it was asked to, or the
root ended otherwise. -/
theorem finishRun_concludes {reason : Option String}
    (here : settledPolicy.Kept σ ∧ Untouched .roots σ) :
    Wp finishing (Store.finishRun sha256 env rootId tenantId state result reason) σ
      fun _ σ' => Concludes env rootId state result σ' := by
  unfold Store.finishRun
  split
  · next cancelled =>
    subst cancelled
    cases result with
    | some result => exact Wp.raise
    | none => exact cancel_concludes here
  · next other =>
    refine wp_require fun final => wp_require fun _ => wp_require fun _ => ?_
    have asked : state ≠ .cancelled ∧ state ≠ .running := ⟨other, of_decide_eq_true final⟩
    refine (readRoot here).seq fun read σ here => ?_
    cases read with
    | none => exact Wp.raise
    | some root =>
      have here := here root rfl
      dsimp only
      split
      · next ended =>
        have builds := keepsSettled_builds (lasting_concluded env rootId state result root)
        have agrees (same : !(root.state = state && root.result ≠ result)) :
            root.state = state → root.result = result := by
          intro asked
          simpa [asked] using same
        unfold Store.require
        split
        · next same =>
          exact (Concluded.keeps (builds.ret ()) σ ⟨⟨here.1, here.concluded ended (agrees same)⟩,
            here.2.2⟩).mono fun _ _ => Concludes.of_kept
        · exact Wp.raise
      · next running =>
        have running : root.state = .running := not_not.mp running
        split
        · next late =>
          exact finishRoot_concludes here running asked ⟨nofun, nofun⟩ (Or.inr ⟨⟨rfl, rfl⟩, late⟩)
        · exact finishRoot_concludes here running asked asked (Or.inl ⟨rfl, rfl⟩)

end Requests

/-- The root, the state and the result that a `finish_run` asks for. -/
def Call.finish? : Call → Option (String × RootState × Option Artifact)
  | .finishRun rootId _ state result _ => some (rootId, state, result)
  | _ => none

/-- The other methods write roots only as the rule allows. -/
theorem call_keepsSettled (asked : Call)
    (stays : ∀ rootId tenantId, asked ≠ .cancel rootId tenantId) (other : asked.finish? = none) : KeepsSettled (fun _ => True) (asked.code sha256 env) := by
  have nothing : settledPolicy.Lasting fun _ => True := fun _ _ _ _ => trivial
  have builds := keepsSettled_builds nothing
  exact builds.toAssembles.call_of_moves asked (fun _ _ _ _ => builds.submitRun _ _ _ _)
    (fun _ _ here => absurd here (stays _ _))
    (fun _ _ _ => builds.configurePool _ _ (keepsSettled_other nothing rfl)
      (keepsSettled_other nothing rfl))
    (fun _ _ _ _ => builds.resumeEngine _ _ _ fun _ => keepsSettled_other nothing rfl)
    (fun _ => builds.submitOperation _ fun _ _ => keepsSettled_other nothing rfl)
    (fun _ => keepsSettled_other nothing rfl) (fun _ => keepsSettled_other nothing rfl)
    (fun _ _ => keepsSettled_root nothing (by trivial)) (fun _ => keepsSettled_other nothing rfl)
    (fun _ _ _ => builds.reserveNext _ _ fun _ _ => builds.reserveCandidate fun _ _ =>
      builds.reserve (fun _ _ => keepsSettled_other nothing rfl)
        fun _ _ => keepsSettled_other nothing rfl)
    (fun _ {_} _ _ => keepsSettled_other nothing rfl)
    (fun _ _ _ _ _ => builds.decideResult _ _ _ _ (keepsSettled_other nothing rfl))
    (fun _ _ _ _ _ here => by rw [here] at other; cases other)
    (fun _ _ _ => builds.bindCompletion _ _ _ fun _ => keepsSettled_other nothing rfl)
    fun _ _ _ => keepsSettled_other nothing rfl

/-- What a request guarantees about roots when it reports success. -/
def Call.Guarantees (asked : Call) (env : Env) (σ : InFlight) : Prop :=
  ∀ rootId state result, asked.finish? = some (rootId, state, result) →
    Concludes env rootId state result σ

theorem call_guarantees (asked : Call) (kept : settledPolicy.Kept σ) (unwritten : σ.writes = []) :
    Wp finishing (asked.code sha256 env) σ
      fun _ σ' => settledPolicy.Kept σ' ∧ asked.Guarantees env σ' := by
  have here : settledPolicy.Kept σ ∧ Untouched .roots σ := by
    refine ⟨kept, fun w member => ?_⟩
    rw [unwritten] at member
    cases member
  have routine (asked : Call) (stays : ∀ rootId tenantId, asked ≠ .cancel rootId tenantId)
      (other : asked.finish? = none) : Wp finishing (asked.code sha256 env) σ
        fun _ σ' => settledPolicy.Kept σ' ∧ asked.Guarantees env σ' := by
    refine (call_keepsSettled asked stays other σ ⟨kept, trivial⟩).mono fun _ _ here => ⟨here.1, ?_⟩
    intro rootId state result asks
    rw [other] at asks
    cases asks
  cases asked with
  | finishRun rootId tenantId state result reason =>
    refine (finishRun_concludes here).seq fun _ σ here => Wp.ret fun d rely => ?_
    have here := Concludes.stable σ d here rely
    refine ⟨here.1, fun _ _ _ asked => ?_⟩
    cases asked
    exact here
  | cancel rootId tenantId =>
    refine (cancel_concludes here).seq fun _ σ here => Wp.ret fun d rely => ?_
    exact ⟨(Concludes.stable σ d here rely).1, nofun⟩
  | _ => exact routine _ nofun rfl

end Methods

/-! ### Runs -/

namespace Interleaved

/-- No commit ends a root that another transaction in flight has read without locking it. -/
def Unraced : Interleaved → Event Asked → Prop := System.Sparing fun _ => SparesRoots

/-- The test of the first `n` transactions for such a commit. -/
abbrev UnracedBelow (n : ℕ) : Interleaved → Event Asked → Prop :=
  System.SparingBelow (fun _ => SparesRoots) n

/-- A `finish_run` that commits has come in time. -/
def InTime (sys : Interleaved) : Event Asked → Prop
  | .commit t => ∀ session ∈ (sys.sessions t).running, ∀ asks ∈ session.call.1.finish?,
      ∀ root ∈ sys.committed.roots.find? asks.1, root.Timely session.call.2 asks.1 asks.2.1
  | _ => True

instance (sys : Interleaved) : (event : Event Asked) → Decidable (InTime sys event)
  | .commit t => inferInstanceAs (Decidable (∀ session ∈ (sys.sessions t).running,
      ∀ asks ∈ session.call.1.finish?, ∀ root ∈ sys.committed.roots.find? asks.1,
        root.Timely session.call.2 asks.1 asks.2.1))
  | .start .. | .look _ | .exec _ | .abort _ => instDecidableTrue

/-- The `finish_run` that a transaction has committed, reporting success. -/
def finished (sys : Interleaved) (t : ℕ) : Option (String × RootState × Option Artifact) :=
  match sys.sessions t with
  | .committed asked _ => asked.1.finish?
  | _ => none

theorem sound_settled (sha256 : String → String) :
    Sound (Asked.code sha256) Unraced (fun _ => Ledger.finishing) settledPolicy.Sound
      fun asked _ σ => settledPolicy.Kept σ ∧ asked.1.Guarantees asked.2 σ where
  admits _ _ _ := trivial
  code asked _ sound := call_guarantees asked.1 (.initial sound) rfl
  commit := by
    rintro sys t session value active - ok - ⟨kept, -⟩
    exact ⟨kept.view, fun u other apart running =>
      ⟨⟨fun _ => kept.view, kept.keeps⟩, ok session active u other apart running⟩⟩

section Runs

variable {sha256 : String → String} {authority : Authority} {first last : Interleaved}
  {rootId : String} {allowed : Interleaved → Event Asked → Prop}

private theorem settled_empty : settledPolicy.Sound (Db.empty authority) :=
  RowRule.sound_of_empty fun _ => rfl

/-- What every `finish_run` guarantees when it commits, and the rule keeps, holds of the
committed ledger from then on. -/
theorem Run.of_finished {fact : String → RootState → Option Artifact → Db → Prop}
    (unraced : ∀ sys event, allowed sys event → Unraced sys event)
    (lasts : ∀ rootId state result, settledPolicy.Lasting (fact rootId state result))
    (commits : ∀ {sys : Interleaved} {t session}, sys.sessions t = .active session →
      allowed sys (.commit t) → ∀ rootId state result,
      session.call.1.finish? = some (rootId, state, result) →
      Concludes session.call.2 rootId state result (sys.localOf t session) →
      fact rootId state result (sys.localOf t session).view)
    (run : Run sha256 allowed (empty authority) last) {t : ℕ} {state : RootState}
    {result : Option Artifact} (done : last.finished t = some (rootId, state, result)) :
    fact rootId state result last.committed := by
  have always := ((sound_settled sha256).of_fewer unraced).persists
    (fun asked _ d => ∀ rootId state result,
      asked.1.finish? = some (rootId, state, result) → fact rootId state result d)
    (fun active _ ok _ post => ⟨fun _ _ _ asks => commits active ok _ _ _ asks (post.2 _ _ _ asks),
      fun _ _ before _ _ _ asks => lasts _ _ _ (before _ _ _ asks) post.1.keeps⟩)
    (Held.initial settled_empty) (fun _ _ _ ended => by cases ended) run
  unfold finished at done
  split at done
  · next asked value ended => exact always t asked value ended rootId state result done
  · cases done

theorem Run.finishedAs (run : Run sha256 Unraced (empty authority) last) {t : ℕ}
    {state : RootState} {result : Option Artifact}
    (done : last.finished t = some (rootId, state, result)) :
    last.committed.FinishedAs rootId state result := by
  refine run.of_finished (fun _ _ => id) lasting_finishedAs ?_ done
  intro sys t session active ok rootId state result asks here
  obtain ⟨-, root, -, concluded⟩ := here
  exact concluded.finished

/-- A `finish_run` that comes in time ends the root as it was asked to. -/
theorem Run.endedAs
    (run : Run sha256 (fun sys event => Unraced sys event ∧ InTime sys event) (empty authority)
      last) {t : ℕ} {state : RootState} {result : Option Artifact}
    (done : last.finished t = some (rootId, state, result)) :
    last.committed.EndedAs rootId state result := by
  refine run.of_finished (fun _ _ => And.left) lasting_endedAs ?_ done
  intro sys t session active ok rootId state result asks here
  obtain ⟨-, root, read, concluded⟩ := here
  -- The committed root is in the state in which the transaction has read it.
  obtain ⟨row, found, same, deadline, -⟩ := read.since
  have running : session ∈ (sys.sessions t).running := by
    rw [active]
    rfl
  have timely := ok.2 session running _ asks row found
  refine concluded.timely ?_
  unfold RootRow.Timely at timely ⊢
  rw [← same, ← deadline]
  exact timely

/-- In every run in which no commit ends a root that another transaction has read, a root
that has ended keeps its state, its result and its reason. Of two requests to finish a root
in the same state with different results one fails, unless the root ended in another state
or at its deadline. When they all come in time, requests to finish a root that succeed ask
for the same. -/
theorem Run.terminal_root_stays (before : Run sha256 Unraced (empty authority) first)
    (after : Run sha256 Unraced first last) :
    (∀ root, first.committed.roots.find? rootId = some root → root.state ≠ .running →
      ∃ root', last.committed.roots.find? rootId = some root' ∧ root'.state = root.state ∧
        root'.result = root.result ∧ root'.terminalReason = root.terminalReason) ∧
    (∀ t u state result result', last.finished t = some (rootId, state, result) →
      last.finished u = some (rootId, state, result') → result ≠ result' →
      ∃ root, last.committed.roots.find? rootId = some root ∧ root.state ≠ .running ∧
        (root.state ≠ state ∨
          root.result = none ∧ root.terminalReason = some "deadline_exceeded")) ∧
    (Run sha256 (fun sys event => Unraced sys event ∧ InTime sys event) (empty authority) last →
      ∀ t u state state' result result', last.finished t = some (rootId, state, result) →
        last.finished u = some (rootId, state', result') → state = state' ∧ result = result') := by
  refine ⟨fun root found ended => ?_, ?_, ?_⟩
  · have sound := sound_settled sha256
    have keeps : settledPolicy.Keeps first.committed last.committed :=
      sound.relates (RowChange.Keeps.refl _) RowChange.Keeps.trans
        (fun _ _ _ _ done => done.1.keeps) (sound.held (Held.initial settled_empty) before) after
    obtain ⟨root', found', -, stays⟩ := RowRule.stays_of_keeps (T := trackedRoots) keeps found
    exact ⟨root', found', stays ended⟩
  · intro t u state result result' done done' different
    obtain ⟨root, found, ended, agrees⟩ := Run.finishedAs (before.trans after) done
    obtain ⟨root', found', -, agrees'⟩ := Run.finishedAs (before.trans after) done'
    obtain rfl : root' = root := Option.some.inj (found'.symm.trans found)
    refine ⟨root', found, ended, ?_⟩
    by_contra neither
    rw [not_or, not_not, not_and] at neither
    have result_eq := (agrees neither.1).resolve_right fun late => neither.2 late.1 late.2
    have result_eq' := (agrees' neither.1).resolve_right fun late => neither.2 late.1 late.2
    exact different (result_eq.symm.trans result_eq')
  · intro timely t u state state' result result' done done'
    obtain ⟨root, found, -, rfl, rfl⟩ := Run.endedAs timely done
    obtain ⟨root', found', -, rfl, rfl⟩ := Run.endedAs timely done'
    obtain rfl : root' = root := Option.some.inj (found'.symm.trans found)
    exact ⟨rfl, rfl⟩

end Runs

/-- A request to finish the root of the sample. -/
def finishAs (state : RootState) (result : Option Artifact) : Asked :=
  (.finishRun "r" "t" state result none, Sample.env "")

/-- A cancellation that comes after the root has succeeded leaves it as it is, and a
submission that was under way meanwhile does not matter. A second request with the same
result succeeds. -/
theorem terminal_root_stays_sample :
    ∃ (first last : Interleaved) (root root' : RootRow),
      Run Sample.sha256 Unraced (empty {}) first ∧ Run Sample.sha256 Unraced first last ∧
      first.committed.roots.find? "r" = some root ∧ root.state = .succeeded ∧
      last.committed.roots.find? "r" = some root' ∧ root'.state = root.state ∧
      root'.result = root.result ∧ root'.terminalReason = root.terminalReason ∧
      last.finished 1 = some ("r", .succeeded, some Sample.artifact) ∧
      (∀ state result, last.finished 3 = some ("r", state, result) →
        result = some Sample.artifact) ∧ last.finished 3 ≠ none := by
  have implies (sys : Interleaved) (event : Event Asked) (idle : sys.IdleFrom 5)
      (tested : UnracedBelow 5 sys event ∧ InTime sys event) :
      Unraced sys event ∧ InTime sys event := ⟨tested.1.sparing idle, tested.2⟩
  obtain ⟨first, last, before, after, found, done⟩ := exists_runs_below Sample.sha256 {} implies
    (alone 0 (.createRoot Sample.root, Sample.env "") 5 ++
      .start 4 (.submitOperation Sample.operation, Sample.env "") :: statements 4 1 ++
      alone 1 (finishAs .succeeded (some Sample.artifact)) 3)
    (alone 2 (.cancel "r" "t", Sample.env "") 1 ++
      alone 3 (finishAs .succeeded (some Sample.artifact)) 1)
    (fun sys => (sys.committed.roots.find? "r").any fun root => root.state = .succeeded)
    (fun sys => sys.finished 1 = some ("r", .succeeded, some Sample.artifact) &&
      (sys.finished 3).isSome) (by decide) (by decide +kernel)
  simp only [Bool.and_eq_true, decide_eq_true_eq, Option.isSome_iff_ne_none] at done
  obtain ⟨root, found, state⟩ := (Option.any_eq_true _ _).mp found
  have state : root.state = .succeeded := of_decide_eq_true state
  have unraced : Run Sample.sha256 Unraced (empty {}) first := before.mono fun _ _ => And.left
  obtain ⟨stays, -, agree⟩ :=
    @Run.terminal_root_stays Sample.sha256 {} first last "r" unraced
      (after.mono fun _ _ => And.left)
  obtain ⟨root', found', same⟩ := stays root found (by rw [state]; nofun)
  refine ⟨first, last, root, root', unraced, after.mono fun _ _ => And.left, found, state, found',
    same.1, same.2.1, same.2.2, done.1, fun state result also => ?_, done.2⟩
  exact (agree (before.trans after) _ _ _ _ _ _ done.1 also).2.symm

/-- A cancellation that read the root before it succeeded overwrites it. And two
requests with different results both succeed, when they ask for different states. -/
theorem terminal_root_overwritten :
    (∃ (first last : Interleaved) (root root' : RootRow),
      Run Sample.sha256 (fun _ _ => True) (empty {}) first ∧
      Run Sample.sha256 (fun _ _ => True) first last ∧
      first.committed.roots.find? "r" = some root ∧ root.state = .succeeded ∧
      last.committed.roots.find? "r" = some root' ∧ root'.state = .cancelled) ∧
    ∃ last : Interleaved, Run Sample.sha256 (fun _ _ => True) (empty {}) last ∧
      last.finished 1 = some ("r", .succeeded, some Sample.artifact) ∧
      last.finished 2 = some ("r", .failed, none) := by
  constructor
  · obtain ⟨first, last, before, after, found, found'⟩ := exists_runs Sample.sha256 {}
      (fun _ _ => True) (alone 0 (.createRoot Sample.root, Sample.env "") 5 ++
        .start 2 (.cancel "r" "t", Sample.env "") :: statements 2 1 ++
        alone 1 (finishAs .succeeded (some Sample.artifact)) 3)
      (statements 2 3 ++ [.commit 2])
      (fun sys => (sys.committed.roots.find? "r").any fun root => root.state = .succeeded)
      (fun sys => (sys.committed.roots.find? "r").any fun root => root.state = .cancelled)
      (by decide +kernel)
    obtain ⟨root, found, state⟩ := (Option.any_eq_true _ _).mp found
    obtain ⟨root', found', state'⟩ := (Option.any_eq_true _ _).mp found'
    exact ⟨first, last, root, root', before, after, found, of_decide_eq_true state, found',
      of_decide_eq_true state'⟩
  · obtain ⟨first, last, before, after, -, done⟩ := exists_runs Sample.sha256 {}
      (fun _ _ => True) (alone 0 (.createRoot Sample.root, Sample.env "") 5)
      (alone 1 (finishAs .succeeded (some Sample.artifact)) 3 ++
        alone 2 (finishAs .failed none) 1) (fun _ => true)
      (fun sys => sys.finished 1 = some ("r", .succeeded, some Sample.artifact) &&
        sys.finished 2 = some ("r", .failed, none)) (by decide +kernel)
    simp only [Bool.and_eq_true, decide_eq_true_eq] at done
    exact ⟨last, before.trans after, done⟩

end Interleaved

end IntramindRuntime.Ledger
