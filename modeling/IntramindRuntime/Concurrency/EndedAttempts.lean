import IntramindRuntime.Concurrency.Interleaving

/-!
# Ended attempts stay ended

An attempt that a commit has ended should keep its state. The methods that move an
attempt lock its row when they read it, and it stays as they read it until they
write it. `reconcile_expired` does not: it selects expired attempts without locking
them and then writes each by its identity, so that it may overwrite what the owner
of the attempt has committed in between.

## Main definitions

* `closed` — the rule for rows of `runtime_attempts`
* `AttemptSql.FindsOpen` — `reconcile_expired` writes attempts that are still as it may
  have read them
* `Holding` — a transaction has locked attempts and knows facts about them
* `recovery` — how `reconcile_expired` may move an attempt

## Main results

* `Interleaved.Run.ended_attempt_stays` — in every run in which it does, ended attempts
  stay ended, and recovery does not call a sent attempt unsent
-/

namespace IntramindRuntime.Ledger

open Library

/-- An attempt that fits its state. -/
structure AttemptRow.Fits (a : AttemptRow) : Prop where
  held : a.computeHeld = true ∨ a.budgetHeld = true → a.state.sent = true
  intent : a.state = .sendIntent → a.sendIntentAt.isSome
  unsent : a.sendIntentAt.isSome → a.state ≠ .reserved
  committed : a.resultCommittedAt.isSome → a.state = .resultCommitted

/-- An ended attempt keeps its state, and a sent one was sent. -/
def closed : RowRule AttemptRow where
  sane := AttemptRow.Fits
  stays old row := (old.state.ended = true → row.state = old.state) ∧
    (old.sendIntentAt.isSome → row.sendIntentAt.isSome)
  refl _ := ⟨fun _ => rfl, id⟩
  trans := by
    rintro first middle last ⟨state, sent⟩ ⟨state', sent'⟩
    refine ⟨fun ended => ?_, sent' ∘ sent⟩
    have same := state ended
    rw [← same] at ended ⊢
    exact state' ended

/-- A statement with which `reconcile_expired` moves an attempt finds it open: reserved,
if it is to be called unsent. -/
def AttemptSql.FindsOpen {β : Type} (d : Db) : AttemptSql β → Prop
  | .neverSent attemptId => ∀ a ∈ d.attempts.find? attemptId, a.state = .reserved
  | .lost attemptId _ => ∀ a ∈ d.attempts.find? attemptId, a.state.ended = false
  | _ => True

instance AttemptSql.decidableFindsOpen {β : Type} {d : Db} {statement : AttemptSql β} :
    Decidable (statement.FindsOpen d) := by
  induction statement using AttemptSql.casesOn <;>
    unfold AttemptSql.FindsOpen <;> exact inferInstance

/-- `reconcile_expired` moves only attempts that are open. -/
def findsOpenAttempt : Admits := fun σ _ statement =>
  match statement with
  | .attempt statement => statement.FindsOpen σ.view
  | _ => True

instance {σ : InFlight} {β : Type} {statement : Sql β} :
    Decidable (findsOpenAttempt σ statement) := by
  induction statement using Sql.casesOn <;> unfold findsOpenAttempt <;> exact inferInstance

/-- The policy that the rule makes. -/
abbrev closedPolicy : RowPolicy Db := closed.on trackedAttempts

/-! ### Moves -/

namespace AttemptRow

variable {a : AttemptRow} {now : Time} {reason : String}

/-- A move of an attempt that has not ended. -/
private theorem moves {a' : AttemptRow} (isOpen : a.state.ended = false) (fits : a'.Fits)
    (sent : a.sendIntentAt.isSome → a'.sendIntentAt.isSome) :
    closed.sane a' ∧ closed.stays a a' := by
  refine ⟨fits, fun ended => ?_, sent⟩
  rw [isOpen] at ended
  cases ended

theorem Fits.not_committed (fits : a.Fits) (state : a.state ≠ .resultCommitted) :
    ¬ a.resultCommittedAt.isSome :=
  fun committed => state (fits.committed committed)

private theorem ne_of_open (isOpen : a.state.ended = false) : a.state ≠ .resultCommitted := by
  intro state
  rw [state] at isOpen
  cases isOpen

theorem moves_sendIntent (fits : a.Fits) (state : a.state = .reserved) :
    closed.sane (a.sendIntent now) ∧ closed.stays a (a.sendIntent now) := by
  refine moves (by rw [state]; rfl) ⟨fun _ => rfl, fun _ => rfl, nofun, fun committed => ?_⟩
    fun _ => rfl
  exact absurd committed (fits.not_committed (by rw [state]; nofun))

theorem moves_backendFinished (fits : a.Fits) (isOpen : a.state.ended = false) :
    closed.sane (a.backendFinished now) ∧ closed.stays a (a.backendFinished now) :=
  moves isOpen ⟨fun _ => rfl, nofun, nofun,
    fun committed => absurd committed (fits.not_committed (ne_of_open isOpen))⟩ id

theorem moves_resultCommitted (isOpen : a.state.ended = false) (compute : a.computeHeld = false)
    (budget : a.budgetHeld = false) :
    closed.sane (a.resultCommitted now) ∧ closed.stays a (a.resultCommitted now) := by
  refine moves isOpen ⟨?_, nofun, nofun, fun _ => rfl⟩ id
  simp [resultCommitted, compute, budget]

theorem moves_unknown (fits : a.Fits) (isOpen : a.state.ended = false) :
    closed.sane (a.unknown now reason) ∧ closed.stays a (a.unknown now reason) :=
  moves isOpen ⟨fun _ => rfl, nofun, nofun,
    fun committed => absurd committed (fits.not_committed (ne_of_open isOpen))⟩ id

theorem moves_fail {state : AttemptState} (fits : a.Fits) (isOpen : a.state.ended = false)
    (budget : a.budgetHeld = false) (final : state = .failed ∨ state = .failedNotSent) :
    closed.sane (a.fail state reason) ∧ closed.stays a (a.fail state reason) := by
  refine moves isOpen ⟨?_, ?_, fun _ => ?_, fun committed => ?_⟩ id
  · simp [fail, budget]
  · rcases final with rfl | rfl <;> nofun
  · rcases final with rfl | rfl <;> nofun
  · exact absurd committed (fits.not_committed (ne_of_open isOpen))

theorem moves_neverSent (fits : a.Fits) (state : a.state = .reserved) :
    closed.sane a.neverSent ∧ closed.stays a a.neverSent := by
  refine moves (by rw [state]; rfl) ⟨?_, nofun, nofun, fun committed => ?_⟩ id
  · rintro (compute | budget)
    · cases compute
    · have sent := fits.held (Or.inr budget)
      rw [state] at sent
      cases sent
  · exact absurd committed (fits.not_committed (by rw [state]; nofun))

theorem moves_lost (fits : a.Fits) (isOpen : a.state.ended = false) :
    closed.sane (a.lost now) ∧ closed.stays a (a.lost now) :=
  moves isOpen ⟨fun _ => rfl, nofun, nofun,
    fun committed => absurd committed (fits.not_committed (ne_of_open isOpen))⟩ id

/-- A stopped attempt was open, or has failed already. -/
theorem moves_stopped (fits : a.Fits) (isOpen : a.state.ended = false ∨ a.state = .failed)
    (budget : a.budgetHeld = false) :
    closed.sane (a.stopped now reason) ∧ closed.stays a (a.stopped now reason) := by
  refine ⟨⟨?_, nofun, nofun, fun committed => ?_⟩, fun ended => ?_, id⟩
  · simp [stopped, budget]
  · refine absurd committed (fits.not_committed ?_)
    rcases isOpen with isOpen | failed
    · exact ne_of_open isOpen
    · rw [failed]
      nofun
  · rcases isOpen with isOpen | failed
    · rw [isOpen] at ended
      cases ended
    · exact failed.symm

theorem stays_settle {usage : ℤ} {estimated : Bool} (fits : a.Fits) :
    closed.sane (a.settle usage estimated) ∧ closed.stays a (a.settle usage estimated) := by
  refine ⟨⟨fun held => ?_, fits.intent, fits.unsent, fits.committed⟩, fun _ => rfl, id⟩
  rcases held with compute | budget
  · exact fits.held (Or.inl compute)
  · cases budget

end AttemptRow

theorem AttemptState.open_of_sent {state : AttemptState} (sent : state.sent = true) :
    state.ended = false := by
  cases state <;> first | rfl | cases sent

/-- A result is lost before its attempt ends. -/
theorem Db.open_of_isLost {d : Db} {now : Time} {a : AttemptRow} (lost : d.isLost now a = true) :
    a.state.ended = false := by
  simp only [Db.isLost, Bool.and_eq_true, Bool.or_eq_true, decide_eq_true_eq] at lost
  rcases lost.2 with ⟨state, -⟩ | ⟨state, -⟩ <;> rw [state] <;> rfl

/-! ### Statements -/

section Statements

variable {β : Type} {d snapshot : Db} {busy : Key → Bool} {w : Write} {σ : InFlight}

/-- All statements but those whose method has locked the attempt. -/
def AttemptSql.Routine : AttemptSql β → Prop
  | .neverSent .. | .lost .. => True
  | statement => statement.Plain

theorem AttemptSql.writes_of_plain {statement : AttemptSql β} (plain : statement.Plain)
    (member : w ∈ (statement.exec busy snapshot d).writes) :
    (∃ row, row.Fresh ∧ w ∈ (attempts.insert d row).writes) ∨
      ∃ id f, w ∈ (attempts.update id always f snapshot d).writes ∧
        ((∃ until_, f = fun a => { a with leaseExpiresAt := until_ }) ∨
          ∃ usage estimated, f = AttemptRow.settle usage estimated) := by
  cases statement with
  | owned | lastNumber | expired | lostResults | ofEpoch | idleUnknown => cases member
  | lostResult attemptId now =>
    simp only [AttemptSql.exec, Outcome.map_writes, Access.selectSkipLocked_writes] at member
    cases member
  | insert row =>
    simp only [AttemptSql.exec] at member
    split at member
    · cases member
    · exact Or.inl ⟨row, plain, member⟩
  | renew attemptId until_ => exact Or.inr ⟨_, _, member, Or.inl ⟨until_, rfl⟩⟩
  | settle attemptId usage estimated => exact Or.inr ⟨_, _, member, Or.inr ⟨usage, estimated, rfl⟩⟩
  | _ => exact plain.elim

theorem AttemptRow.Fresh.fits {row : AttemptRow} (fresh : row.Fresh) : row.Fits := by
  obtain ⟨state, compute, budget, intent, committed⟩ := fresh
  constructor <;> simp [state, compute, budget, intent, committed]

theorem AttemptSql.allows_closed {statement : AttemptSql β} (sound : closedPolicy.Sound d)
    (finds : statement.FindsOpen d) (routine : statement.Routine)
    (member : w ∈ (statement.exec busy snapshot d).writes) : closedPolicy.Allows d w := by
  have plain : statement.Plain → closedPolicy.Allows d w := by
    intro plain
    rcases AttemptSql.writes_of_plain plain member with
      ⟨row, fresh, member⟩ | ⟨attemptId, f, member, edit⟩
    · exact RowRule.allows_insert (T := trackedAttempts) member fresh.fits
    · rcases edit with ⟨until_, rfl⟩ | ⟨usage, estimated, rfl⟩
      · exact RowRule.allows_update (T := trackedAttempts) member sound (fun _ => rfl)
          fun row _ _ fits =>
            ⟨⟨fits.held, fits.intent, fits.unsent, fits.committed⟩, fun _ => rfl, id⟩
      · exact RowRule.allows_update (T := trackedAttempts) member sound (fun _ => rfl)
          fun row _ _ fits => row.stays_settle fits
  cases statement with
  | neverSent attemptId =>
    exact RowRule.allows_update (T := trackedAttempts) member sound (fun _ => rfl)
      fun row found _ fits => row.moves_neverSent fits (finds row found)
  | lost attemptId now =>
    exact RowRule.allows_update (T := trackedAttempts) member sound (fun _ => rfl)
      fun row found _ fits => row.moves_lost fits (finds row found)
  | _ => exact plain routine

end Statements

/-! ### Attempts that a transaction has locked -/

/-- A transaction has locked attempts, each of which satisfies its fact. -/
def Holding (pins : List (String × (AttemptRow → Prop))) (σ : InFlight) : Prop :=
  closedPolicy.Kept σ ∧ ∀ pin ∈ pins, trackedAttempts.Pinned pin.1 pin.2 σ

/-- A fact that statements on attempts keep, unless they move the attempt. -/
structure Calm (fact : AttemptRow → Prop) : Prop where
  renew : ∀ a until_, fact a → fact { a with leaseExpiresAt := until_ }
  settle : ∀ a usage estimated, fact a → fact (a.settle usage estimated)

section Holding

variable {sha256 : String → String} {env : Env} {σ : InFlight}
  {pins : List (String × (AttemptRow → Prop))}

/-- Transactions that keep ended attempts as they are, and what is locked. -/
abbrev KeepsHolding (pins : List (String × (AttemptRow → Prop))) {α : Type} (p : Transaction α) :
    Prop :=
  Wp.Preserves (closedPolicy.discipline findsOpenAttempt) (Holding pins) p

theorem holding_stable :
    Wp.Stable (closedPolicy.discipline findsOpenAttempt) (Holding pins) :=
  fun σ d here rely => ⟨RowPolicy.Kept.stable σ d here.1 rely,
    fun pin member => Tracked.Pinned.stable _ σ d (here.2 pin member) rely⟩

theorem Holding.started {β : Type} (here : Holding pins σ) (statement : Sql β) :
    Holding pins (σ.started statement) :=
  ⟨here.1.started statement, fun pin member => (here.2 pin member).started statement⟩

theorem Holding.drop (here : Holding pins σ) : Holding [] σ := ⟨here.1, nofun⟩

theorem keepsHolding_other {β : Type} {statement : Sql β}
    (other : statement.mayWrite .attempts = false) : KeepsHolding pins (Tx.stmt statement) := by
  refine Wp.Preserves.stmt holding_stable (fun σ here => here.started statement)
    fun snap σ busy here _ => ⟨here.1.after fun w member => ?_, fun pin member => ?_⟩
  · exact Sql.allows_of_mayWrite (fun _ => rfl) other member
  · exact (here.2 pin member).after_other fun w =>
      Sql.ne_write_of_mayWrite (T := trackedAttempts) (fun _ => rfl) other

theorem keepsHolding_attempt {β : Type} {statement : AttemptSql β} (plain : statement.Plain)
    (calm : ∀ pin ∈ pins, Calm pin.2) : KeepsHolding pins statement.run := by
  refine Wp.Preserves.stmt holding_stable (fun σ here => here.started _)
    fun snap σ busy here finds => ⟨here.1.after fun w member => ?_, fun pin member => ?_⟩
  · refine AttemptSql.allows_closed here.1.view finds ?_ member
    cases statement <;> first | exact plain | exact plain.elim
  · refine (here.2 pin member).after_writes fun w written => ?_
    have calm := calm pin member
    rcases AttemptSql.writes_of_plain plain written with
      ⟨row, -, inserted⟩ | ⟨attemptId, f, updated, edit⟩
    · obtain ⟨rfl, absent⟩ := Access.mem_insert_writes inserted
      refine ⟨row, rfl, fun same => ?_⟩
      obtain ⟨old, found, -⟩ := (here.2 pin member).found
      rw [same] at absent
      exact absurd (absent.symm.trans found) nofun
    · obtain ⟨row, found, -, rfl⟩ := Access.mem_update_writes updated
      have named : row.attemptId = attemptId := Table.key_of_find? found
      refine ⟨f row, rfl, fun same => ?_⟩
      rcases edit with ⟨until_, rfl⟩ | ⟨usage, estimated, rfl⟩
      · refine calm.renew row until_ ((here.2 pin member).fact_of_find? ?_)
        rw [← same]
        exact (congrArg _ named).trans found
      · refine calm.settle row usage estimated ((here.2 pin member).fact_of_find? ?_)
        rw [← same]
        exact (congrArg _ named).trans found

/-- While nothing is locked, the statements of `reconcile_expired` are as good as plain. -/
theorem keepsHolding_routine {β : Type} {statement : AttemptSql β} (routine : statement.Routine) :
    KeepsHolding [] statement.run := by
  refine Wp.Preserves.stmt holding_stable (fun σ here => here.started _)
    fun snap σ busy here finds => ⟨here.1.after fun w member => ?_, List.forall_mem_nil _⟩
  exact AttemptSql.allows_closed here.1.view finds routine member

theorem holding_builds (calm : ∀ pin ∈ pins, Calm pin.2) : Builds (KeepsHolding pins) := by
  refine .of_terminal (Wp.Preserves.closed holding_stable) (fun statement plain => ?_)
    fun _ _ _ _ => keepsHolding_other rfl
  cases statement with
  | attempt statement => exact keepsHolding_attempt plain.plain calm
  | _ => exact keepsHolding_other rfl

/-- A statement that moves a locked attempt may rely on what is known about it. The
pinned facts that the move keeps stay. -/
theorem holding_move {kept : List (String × (AttemptRow → Prop))} {attemptId : String}
    {fact : AttemptRow → Prop} (f : AttemptRow → AttemptRow) (statement : Sql (Option AttemptRow))
    (exec : ∀ busy snap d,
      Engine.exec statement busy snap d = attempts.update attemptId always f snap d)
    (same : ∀ row, (f row).attemptId = row.attemptId) (here : Holding pins σ)
    (pinned : (attemptId, fact) ∈ pins)
    (step : ∀ row, fact row → row.Fits → closed.sane (f row) ∧ closed.stays row (f row))
    (keeps : ∀ pin ∈ kept, pin ∈ pins ∧ ∀ row, pin.2 row → pin.2 (f row)) :
    Wp (closedPolicy.discipline findsOpenAttempt) (Tx.stmt statement : Transaction _) σ
      fun _ σ' => Holding ((attemptId, fun row' => ∃ row, fact row ∧ row' = f row) :: kept) σ' := by
  have moved : Wp (closedPolicy.discipline findsOpenAttempt) (Tx.stmt statement : Transaction _) σ
      fun _ σ' => closedPolicy.Kept σ' ∧
        trackedAttempts.Pinned attemptId (fun row' => ∃ row, fact row ∧ row' = f row) σ' :=
    trackedAttempts.update always f statement exec same here.1 (here.2 _ pinned)
      (fun _ _ => rfl) step
  have others : Wp.Preserves (closedPolicy.discipline findsOpenAttempt)
      (fun σ => ∀ pin ∈ kept, trackedAttempts.Pinned pin.1 pin.2 σ)
      (Tx.stmt statement : Transaction _) := by
    refine Wp.Preserves.stmt
      (fun σ d here rely pin member => Tracked.Pinned.stable _ σ d (here pin member) rely)
      (fun σ here pin member => (here pin member).started statement)
      fun snap σ busy here _ pin member => ?_
    have written := congrArg Outcome.writes (exec busy snap σ.view)
    exact (here pin member).after_update same (keeps pin member).2 written
  refine (moved.and (others σ fun pin member => here.2 pin (keeps pin member).1)).mono
    fun _ σ' moved => ⟨moved.1.1, List.forall_mem_cons.mpr ⟨moved.1.2, moved.2⟩⟩

/-- A fact about an attempt that is not charged any more. -/
abbrev Uncharged (fact : AttemptRow → Prop) (row : AttemptRow) : Prop :=
  fact row ∧ row.budgetHeld = false

theorem Calm.settled {fact : AttemptRow → Prop} (calm : Calm fact) : Calm (Uncharged fact) where
  renew a until_ here := ⟨calm.renew a until_ here.1, here.2⟩
  settle a usage estimated here := ⟨calm.settle a usage estimated here.1, rfl⟩

/-- `_settle` for a locked attempt: afterwards it is not charged. -/
theorem settle_holds {a : AttemptRow} {rootId : String} {usage : Option ℤ}
    {fact : AttemptRow → Prop} (here : Holding pins σ) (calm : ∀ pin ∈ pins, Calm pin.2)
    (pinned : (a.attemptId, fact) ∈ pins)
    (charged : ∀ row, fact row → row.budgetHeld = true → a.budgetHeld = true) :
    Wp (closedPolicy.discipline findsOpenAttempt) (Store.settle env a rootId usage) σ
      fun _ σ' => Holding ((a.attemptId, Uncharged fact) :: pins) σ' := by
  have calm' : ∀ pin ∈ (a.attemptId, Uncharged fact) :: pins, Calm pin.2 :=
    List.forall_mem_cons.mpr ⟨(calm _ pinned).settled, calm⟩
  have builds := holding_builds calm'
  unfold Store.settle
  split
  · next free =>
    -- The attempt is not charged, and it is still as it was read.
    refine builds.ret () σ ⟨here.1, List.forall_mem_cons.mpr ⟨?_, here.2⟩⟩
    refine (here.2 _ pinned).mono fun row holds => ⟨holds, ?_⟩
    by_contra held
    rw [charged row holds (by simpa using held)] at free
    cases free
  · refine ((holding_builds calm).require _ _ σ here).seq fun _ σ here => ?_
    refine (holding_move (AttemptRow.settle (usage.getD a.budgetBound) usage.isNone) _
      (fun _ _ _ => rfl) (fun _ => rfl) here pinned (fun row _ fits => row.stays_settle fits)
      fun pin member => ⟨member, fun row => (calm pin member).settle row _ _⟩).seq
      fun _ σ moved => ?_
    have settled : Holding ((a.attemptId, Uncharged fact) :: pins) σ := by
      obtain ⟨kept, moved⟩ := moved
      obtain ⟨moved, others⟩ := List.forall_mem_cons.mp moved
      refine ⟨kept, List.forall_mem_cons.mpr ⟨moved.mono ?_, others⟩⟩
      rintro _ ⟨row, holds, rfl⟩
      exact ⟨(calm _ pinned).settle row _ _ holds, rfl⟩
    refine (builds.settleBudget _ _ _ σ settled).seq fun budget σ settled => ?_
    cases budget with
    | none => exact Wp.raise
    | some budget =>
      exact builds.bind (builds.when (builds.perform (by trivial) fun _ => builds.ret ()))
        (fun _ => builds.when (builds.perform (by trivial) fun _ => builds.ret ())) σ settled

/-- What a locked attempt still has in common with what was read: its state, its
compute, and no charge that was not there. -/
structure AttemptRow.AsRead (a row : AttemptRow) : Prop where
  state : row.state = a.state
  compute : row.computeHeld = a.computeHeld
  budget : row.budgetHeld = true → a.budgetHeld = true

theorem calm_asRead (a : AttemptRow) : Calm a.AsRead where
  renew _ _ here := ⟨here.state, here.compute, here.budget⟩
  settle _ _ _ here := ⟨here.state, here.compute, nofun⟩

theorem calm_one (a : AttemptRow) : ∀ pin ∈ [(a.attemptId, a.AsRead)], Calm pin.2 :=
  List.forall_mem_singleton.mpr (calm_asRead a)

/-- Locking an attempt with its operation and root. -/
theorem selectJoined {β : Type} {statement : Sql β} (selects : β → List AttemptRow)
    (fact : AttemptRow → Prop) (here : Holding [] σ)
    (reads : ∀ busy snap d, (Engine.exec statement busy snap d).writes = [])
    (locks : ∀ busy snap d, ∀ row ∈ selects (Engine.exec statement busy snap d).result,
      Key.attempt row.attemptId ∈ (Engine.exec statement busy snap d).locks ∧
        d.attempts.find? row.attemptId = some row ∧ fact row) :
    Wp (closedPolicy.discipline findsOpenAttempt) (Tx.stmt statement : Transaction β) σ
      fun result σ' => Holding ((selects result).map fun a => (a.attemptId, a.AsRead)) σ' ∧
        ∀ a ∈ selects result, fact a ∧ a.Fits := by
  refine (trackedAttempts.select statement selects fact here.1 reads locks).mono
    fun result σ' locked => ⟨⟨locked.1, ?_⟩, fun a member => ?_⟩
  · intro pin member
    obtain ⟨a, selected, rfl⟩ := List.mem_map.mp member
    refine (locked.2 a selected).1.mono ?_
    rintro row rfl
    exact ⟨rfl, rfl, id⟩
  · obtain ⟨pinned, holds⟩ := locked.2 a member
    obtain ⟨row, found, rfl⟩ := pinned.found
    exact ⟨holds, RowRule.sane_of_sound (T := trackedAttempts) locked.1.view found⟩

/-- `_owned` locks the attempt. -/
theorem owned_holds {reservation : Reservation} (here : Holding [] σ) :
    Wp (closedPolicy.discipline findsOpenAttempt) (Store.owned reservation) σ fun a σ' =>
      Holding [(a.attempt.attemptId, a.attempt.AsRead)] σ' ∧
        a.attempt.attemptId = reservation.attemptId ∧ a.attempt.Fits := by
  unfold Store.owned
  refine (@selectJoined _ _ (Sql.attempt (.owned reservation.attemptId))
    (fun found => found.toList.map Joined.attempt)
    (fun a => a.attemptId = reservation.attemptId) here (fun _ _ _ => rfl) ?_).seq ?_
  · intro busy snap d row member
    simp only [List.mem_map, Option.mem_toList] at member
    obtain ⟨a, found, rfl⟩ := member
    obtain ⟨row, selected, joined⟩ := Option.bind_eq_some_iff.mp found
    rw [Db.attempt_of_join joined]
    obtain ⟨locked, found, -⟩ := Access.locked_of_selectForUpdate selected
    have named : row.attemptId = reservation.attemptId := Table.key_of_find? found
    rw [named]
    exact ⟨locked, found, rfl⟩
  · rintro read σ ⟨here, facts⟩
    cases read with
    | none => exact Wp.raise
    | some a =>
      have facts := facts a.attempt (by simp)
      exact wp_require fun _ => Wp.ret fun d rely => ⟨holding_stable σ d here rely, facts⟩

/-- A move after which the transaction needs to know nothing about attempts. -/
theorem holding_end {attemptId : String} {fact : AttemptRow → Prop}
    (f : AttemptRow → AttemptRow) (statement : Sql (Option AttemptRow))
    (exec : ∀ busy snap d,
      Engine.exec statement busy snap d = attempts.update attemptId always f snap d)
    (same : ∀ row, (f row).attemptId = row.attemptId) (here : Holding pins σ)
    (pinned : (attemptId, fact) ∈ pins)
    (step : ∀ row, fact row → row.Fits → closed.sane (f row) ∧ closed.stays row (f row)) :
    Wp (closedPolicy.discipline findsOpenAttempt) (Tx.stmt statement : Transaction _) σ
      fun _ σ' => Holding [] σ' :=
  (holding_move f statement exec same here pinned step (List.forall_mem_nil _)).mono
    fun _ _ moved => moved.drop

theorem no_calm : ∀ pin ∈ ([] : List (String × (AttemptRow → Prop))), Calm pin.2 :=
  List.forall_mem_nil _

/-- What composes while nothing is locked. -/
theorem closed_builds : Builds (KeepsHolding []) := holding_builds no_calm

/-! ### The owner's side of an attempt -/

theorem mem_named {a : AttemptRow} {attemptId : String} {fact : AttemptRow → Prop}
    (named : a.attemptId = attemptId) : (attemptId, fact) ∈ [(a.attemptId, fact)] := by
  rw [named]
  exact List.mem_singleton_self _

theorem markSend_closed (reservation : Reservation) :
    KeepsHolding [] (Store.markSend env reservation) := by
  intro σ here
  unfold Store.markSend
  refine (owned_holds here).seq fun a σ read => ?_
  obtain ⟨here, named, -⟩ := read
  have builds := holding_builds (calm_one a.attempt)
  refine wp_require fun ready => ?_
  have reserved : a.attempt.state = .reserved := by
    rw [Bool.and_eq_true] at ready
    exact of_decide_eq_true ready.1
  refine (builds.leaseAlive reservation a σ here).seq fun alive σ here => wp_require fun _ => ?_
  refine (builds.when (builds.chargeSend _ _ _ (fun _ => keepsHolding_other rfl)
    fun _ _ => keepsHolding_other rfl) σ here).seq fun _ σ here => ?_
  refine (holding_end (AttemptRow.sendIntent env.now) _ (fun _ _ _ => rfl) (fun _ => rfl) here
    (mem_named named) fun row asRead fits => ?_).seq fun _ σ here => closed_builds.ret () σ here
  exact row.moves_sendIntent fits (asRead.state.trans reserved)

theorem computeFinished_closed (reservation : Reservation) :
    KeepsHolding [] (Store.computeFinished env reservation) := by
  intro σ here
  unfold Store.computeFinished
  refine (owned_holds here).seq fun a σ read => ?_
  obtain ⟨here, named, -⟩ := read
  split
  · exact closed_builds.ret () σ here.drop
  · next isOpen =>
    refine (holding_end (AttemptRow.backendFinished env.now) _ (fun _ _ _ => rfl) (fun _ => rfl)
      here (mem_named named) fun row asRead fits => ?_).seq
      fun _ σ here => closed_builds.ret () σ here
    refine row.moves_backendFinished fits ?_
    rw [asRead.state]
    exact Bool.eq_false_iff.mpr isOpen

theorem commitFinished_closed {a : Joined} {artifact : Artifact} {usage : Option ℤ}
    {attachments : List Artifact} (here : Holding [(a.attempt.attemptId, a.attempt.AsRead)] σ)
    (compute : a.attempt.computeHeld = false) (finished : a.attempt.state = .backendFinished) :
    Wp (closedPolicy.discipline findsOpenAttempt)
      (Store.commitFinished sha256 env a artifact usage attachments) σ
      fun _ σ' => Holding [] σ' := by
  have builds := holding_builds (calm_one a.attempt)
  unfold Store.commitFinished
  refine (builds.expireOperation _ _ σ here).seq fun expired σ here => ?_
  refine (builds.insertArtifacts _ _ _ (fun _ => keepsHolding_other rfl) σ here).seq
    fun _ σ here => ?_
  refine (settle_holds here (calm_one a.attempt) (List.mem_singleton_self _)
    fun row asRead => asRead.budget).seq fun _ σ here => ?_
  refine (holding_end (AttemptRow.resultCommitted env.now) _ (fun _ _ _ => rfl) (fun _ => rfl) here
    List.mem_cons_self fun row uncharged fits => ?_).seq fun _ σ here =>
      closed_builds.decideResult _ _ _ _ (keepsHolding_other rfl) σ here
  refine row.moves_resultCommitted ?_ (uncharged.1.compute.trans compute) uncharged.2
  rw [uncharged.1.state, finished]
  rfl

theorem commitResult_closed (reservation : Reservation) (artifact : Artifact) (usage : Option ℤ)
    (attachments : List Artifact) :
    KeepsHolding [] (Store.commitResult sha256 env reservation artifact usage attachments) := by
  intro σ here
  unfold Store.commitResult
  refine (owned_holds here).seq fun a σ read => ?_
  obtain ⟨here, -, -⟩ := read
  split
  · simp only [Tx.bind_eq, Tx.stmt_bind]
    exact closed_builds.perform (by trivial) (fun _ => closed_builds.require _ _) σ here.drop
  · refine wp_require fun finished => ?_
    rw [Bool.and_eq_true, Bool.not_eq_true'] at finished
    exact commitFinished_closed here finished.1 (of_decide_eq_true finished.2)

theorem unknown_closed (reservation : Reservation) (reason : String) :
    KeepsHolding [] (Store.unknown env reservation reason) := by
  intro σ here
  unfold Store.unknown
  refine (owned_holds here).seq fun a σ read => ?_
  obtain ⟨here, -, -⟩ := read
  split
  · exact closed_builds.ret () σ here.drop
  · next isOpen =>
    refine (holding_end (AttemptRow.unknown env.now reason) _ (fun _ _ _ => rfl) (fun _ => rfl)
      here (List.mem_singleton_self _) fun row asRead fits => ?_).seq fun _ σ here => ?_
    · refine row.moves_unknown fits ?_
      rw [asRead.state]
      exact Bool.eq_false_iff.mpr isOpen
    · exact closed_builds.bind (closed_builds.expireOperation _ _) (fun _ => closed_builds.when
        (closed_builds.bind (keepsHolding_other rfl) fun _ => closed_builds.ret ())) σ here

theorem fail_closed (reservation : Reservation) (reason : String) (notSent retry : Bool)
    (delay : Time) : KeepsHolding [] (Store.fail env reservation reason notSent retry delay) := by
  intro σ here
  unfold Store.fail
  refine (owned_holds here).seq fun a σ read => ?_
  obtain ⟨here, -, -⟩ := read
  split
  · exact closed_builds.ret () σ here.drop
  · next isOpen =>
    refine wp_require fun _ => ?_
    refine (settle_holds here (calm_one a.attempt) (List.mem_singleton_self _)
      fun row asRead => asRead.budget).seq fun _ σ here => ?_
    refine (holding_end (AttemptRow.fail (if notSent then .failedNotSent else .failed) reason) _
      (fun _ _ _ => rfl) (fun _ => rfl) here List.mem_cons_self fun row uncharged fits => ?_).seq
      fun _ σ here => closed_builds.failOperation _ _ _ _ (fun _ _ => keepsHolding_other rfl) σ here
    refine row.moves_fail fits ?_ uncharged.2 (by cases notSent <;> simp)
    rw [uncharged.1.state]
    exact Bool.eq_false_iff.mpr isOpen

/-! ### Attempts whose inference is proven over -/

/-- An attempt that has not ended, or has failed, and is charged only if it was when it
was read. -/
structure AttemptRow.Stoppable (a row : AttemptRow) : Prop where
  state : row.state.ended = false ∨ row.state = .failed
  budget : row.budgetHeld = true → a.budgetHeld = true

theorem calm_stoppable (a : AttemptRow) : Calm a.Stoppable where
  renew _ _ here := ⟨here.state, here.budget⟩
  settle _ _ _ here := ⟨here.state, nofun⟩

/-- The attempts that a method has locked in order to stop them. -/
def stopping (locked : List AttemptRow) : List (String × (AttemptRow → Prop)) :=
  locked.map fun a => (a.attemptId, a.Stoppable)

theorem calm_stopping (locked : List AttemptRow) : ∀ pin ∈ stopping locked, Calm pin.2 := by
  intro pin member
  obtain ⟨a, -, rfl⟩ := List.mem_map.mp member
  exact calm_stoppable a

theorem settleStoppedAttempt_holds {locked : List AttemptRow} {a : Joined} {recover : Bool}
    {errorClass retryReason : String} (here : Holding (stopping locked) σ)
    (member : a.attempt ∈ locked) :
    Wp (closedPolicy.discipline findsOpenAttempt)
      (Store.settleStoppedAttempt env recover errorClass retryReason a) σ
      fun _ σ' => Holding (stopping locked) σ' := by
  have builds := holding_builds (calm_stopping locked)
  unfold Store.settleStoppedAttempt
  refine (settle_holds here (calm_stopping locked) (List.mem_map_of_mem member)
    fun row stoppable => stoppable.budget).seq fun _ σ here => ?_
  refine (holding_move (AttemptRow.stopped env.now errorClass) _ (fun _ _ _ => rfl)
    (fun _ => rfl) here List.mem_cons_self
    (fun row uncharged fits => row.moves_stopped fits uncharged.1.state uncharged.2)
    fun pin kept => ⟨List.mem_cons_of_mem _ kept, ?_⟩).seq fun _ σ moved => ?_
  · obtain ⟨other, -, rfl⟩ := List.mem_map.mp kept
    exact fun row here => ⟨Or.inr rfl, here.budget⟩
  · have here : Holding (stopping locked) σ := ⟨moved.1, (List.forall_mem_cons.mp moved.2).2⟩
    split
    · exact builds.ret () σ here
    · exact builds.stopOperation _ _ _ _ (keepsHolding_other rfl) σ here

/-- Stopping locked attempts one after the other. -/
theorem stopAll_holds {locked : List AttemptRow} {stopped : List Joined} {recover : Bool}
    {errorClass retryReason : String} (here : Holding (stopping locked) σ)
    (members : ∀ a ∈ stopped, a.attempt ∈ locked) :
    Wp (closedPolicy.discipline findsOpenAttempt)
      (Tx.forEach stopped (Store.settleStoppedAttempt env recover errorClass retryReason)) σ
      fun _ σ' => Holding (stopping locked) σ' := by
  refine (Wp.forEach (fun rest σ => Holding (stopping locked) σ ∧ ∀ a ∈ rest, a.attempt ∈ locked)
    (fun rest σ d here rely => ⟨holding_stable σ d here.1 rely, here.2⟩) ⟨here, members⟩
    fun a rest σ here => ?_).mono fun _ _ here => here.1
  obtain ⟨member, members⟩ := List.forall_mem_cons.mp here.2
  exact (settleStoppedAttempt_holds here.1 member).mono fun _ _ here => ⟨here, members⟩

/-- A method locks attempts that it may stop. -/
theorem selectStopping {β : Type} {statement : Sql β} (selects : β → List Joined)
    (here : Holding [] σ) (reads : ∀ busy snap d, (Engine.exec statement busy snap d).writes = [])
    (locks : ∀ busy snap d, ∀ a ∈ selects (Engine.exec statement busy snap d).result,
      Key.attempt a.attempt.attemptId ∈ (Engine.exec statement busy snap d).locks ∧
        d.attempts.find? a.attempt.attemptId = some a.attempt ∧
        (a.attempt.Fits → a.attempt.state.ended = false)) :
    Wp (closedPolicy.discipline findsOpenAttempt) (Tx.stmt statement : Transaction β) σ
      fun result σ' => Holding (stopping ((selects result).map Joined.attempt)) σ' := by
  refine (selectJoined (fun result => (selects result).map Joined.attempt)
    (fun a => a.Fits → a.state.ended = false) here reads fun busy snap d row member => ?_).mono
    fun result σ' locked => ⟨locked.1.1, fun pin member => ?_⟩
  · obtain ⟨a, selected, rfl⟩ := List.mem_map.mp member
    exact locks busy snap d a selected
  · obtain ⟨a, selected, rfl⟩ := List.mem_map.mp member
    obtain ⟨isOpen, fits⟩ := locked.2 a selected
    refine (locked.1.2 (a.attemptId, a.AsRead) (List.mem_map_of_mem selected)).mono
      fun row asRead => ⟨Or.inl ?_, asRead.budget⟩
    rw [asRead.state]
    exact isOpen fits

theorem settleLostResult_closed (attemptId : String) :
    KeepsHolding [] (Store.settleLostResult env attemptId) := by
  intro σ here
  unfold Store.settleLostResult
  refine (@selectStopping _ _ (Sql.attempt (.lostResult attemptId env.now)) Option.toList here
    (fun _ _ _ => (Outcome.map_writes _ _).trans Access.selectSkipLocked_writes) ?_).seq
    fun found σ here => ?_
  · intro busy snap d a member
    obtain ⟨row, selected, joined⟩ := Option.bind_eq_some_iff.mp (Option.mem_toList.mp member)
    rw [Db.attempt_of_join joined]
    obtain ⟨locked, found, lost⟩ := Access.locked_of_selectSkipLocked selected
    have named : row.attemptId = attemptId := Table.key_of_find? found
    rw [named]
    refine ⟨locked, found, fun _ => ?_⟩
    rw [Bool.and_eq_true] at lost
    exact Db.open_of_isLost lost.1
  · cases found with
    | none => exact closed_builds.ret false σ here.drop
    | some a =>
      exact (settleStoppedAttempt_holds here (List.mem_singleton_self _)).seq fun _ σ here =>
        closed_builds.ret true σ here.drop

theorem confirmEpochStopped_closed (poolId engineEpoch : String) (evidence : Store.Evidence)
    (recover : Bool) :
    KeepsHolding [] (Store.confirmEpochStopped env poolId engineEpoch evidence recover) := by
  unfold Store.confirmEpochStopped
  cases Store.checkEvidence poolId engineEpoch evidence recover with
  | error error => exact closed_builds.raise _
  | ok accepted =>
    simp only [Tx.bind_eq, Tx.stmt_bind]
    refine closed_builds.perform (by trivial) fun pool => ?_
    cases pool with
    | none => exact closed_builds.raise _
    | some pool =>
      refine closed_builds.bind (closed_builds.require _ _) fun _ =>
        closed_builds.bind (closed_builds.require _ _) fun _ =>
        closed_builds.perform (by trivial) fun _ => closed_builds.perform (by trivial) fun _ => ?_
      intro σ here
      refine (@selectStopping _ _ (Sql.attempt (.ofEpoch poolId engineEpoch)) id here
        (fun _ _ _ => rfl) ?_).seq fun found σ here => ?_
      · intro busy snap d a member
        obtain ⟨row, selected, joined⟩ := List.mem_filterMap.mp member
        rw [Db.attempt_of_join joined]
        obtain ⟨locked, found, held⟩ :=
          Access.locked_of_selectAllForUpdate ((List.mem_insertionSort _).mp selected)
        refine ⟨locked, found, fun fits => AttemptState.open_of_sent (fits.held ?_)⟩
        simp only [Bool.and_eq_true, Bool.or_eq_true] at held
        exact held.1.2
      · refine (stopAll_holds here fun a member => List.mem_map_of_mem
          (List.mem_of_mem_filter member)).seq fun _ σ here => ?_
        exact closed_builds.perform (by trivial) (fun _ => closed_builds.bind
          (closed_builds.accept _) fun _ => closed_builds.ret _) σ here.drop

theorem settleIdleUnknown_closed (poolId engineEpoch : String) (idleSince : Time)
    (attemptIds : List String) :
    KeepsHolding [] (Store.settleIdleUnknown env poolId engineEpoch idleSince attemptIds) := by
  unfold Store.settleIdleUnknown
  simp only [Tx.bind_eq, Tx.stmt_bind]
  refine closed_builds.perform (by trivial) fun pool => ?_
  cases pool with
  | none => exact closed_builds.ret 0
  | some pool =>
    dsimp only
    split
    · exact closed_builds.ret 0
    · refine closed_builds.perform (by trivial) fun _ => ?_
      intro σ here
      refine (@selectStopping _ _ (Sql.attempt (.idleUnknown poolId engineEpoch idleSince attemptIds))
        id here
        (fun _ _ _ => rfl) ?_).seq fun found σ here => ?_
      · intro busy snap d a member
        obtain ⟨row, selected, joined⟩ := List.mem_filterMap.mp member
        rw [Db.attempt_of_join joined]
        obtain ⟨locked, found, idle⟩ :=
          Access.locked_of_selectAllForUpdate ((List.mem_insertionSort _).mp selected)
        refine ⟨locked, found, fun _ => ?_⟩
        simp only [Bool.and_eq_true, decide_eq_true_eq] at idle
        rw [idle.1.1.1.2]
        rfl
      · exact (stopAll_holds here fun a member => List.mem_map_of_mem member).seq fun _ σ here =>
          closed_builds.ret _ σ here.drop

/-! ### Every method -/

/-- Every method keeps ended attempts as they are, as long as `reconcile_expired` writes
open attempts. -/
theorem call_closed (asked : Call) : KeepsHolding [] (asked.code sha256 env) :=
  closed_builds.call asked (fun _ => keepsHolding_other rfl)
    (fun _ _ _ => closed_builds.configurePool _ _ (keepsHolding_other rfl) (keepsHolding_other rfl))
    (fun _ _ _ _ => closed_builds.resumeEngine _ _ _ fun _ => keepsHolding_other rfl)
    (fun _ => closed_builds.submitOperation _ fun _ _ => keepsHolding_other rfl)
    (fun _ _ _ => closed_builds.reserveNext _ _ fun _ _ => closed_builds.reserveCandidate
      fun _ _ => closed_builds.reserve (fun _ fresh => keepsHolding_attempt fresh nofun)
        fun _ _ => keepsHolding_other rfl)
    (fun _ _ => markSend_closed _) computeFinished_closed
    (fun _ _ _ _ _ => commitResult_closed _ _ _ _) (fun _ _ _ => unknown_closed _ _)
    (fun _ _ _ _ _ _ => fail_closed _ _ _ _ _)
    (fun _ _ _ _ _ _ => closed_builds.finishRun _ _ _ _ _ (keepsHolding_other rfl) fun _ _ _ =>
      closed_builds.finishRoot _ _ _ _ fun _ => keepsHolding_other rfl)
    (fun _ _ _ => closed_builds.bindCompletion _ _ _ fun _ => keepsHolding_other rfl)
    (closed_builds.reconcile (fun _ => keepsHolding_routine (by trivial))
      fun _ => keepsHolding_routine (by trivial))
    (fun _ _ => settleLostResult_closed _) (fun _ _ _ _ _ => confirmEpochStopped_closed _ _ _ _)
    (fun _ _ _ _ _ => settleIdleUnknown_closed _ _ _ _)
    fun _ _ _ => keepsHolding_other rfl

end Holding

/-! ### Recovery -/

/-- Recovery calls only reserved attempts unsent, and it reserves none. -/
def recovery : RowRule AttemptRow where
  sane _ := True
  stays old row :=
    (row.state = .failedNotSent → old.state = .reserved ∨ old.state = .failedNotSent) ∧
      (row.state = .reserved → old.state = .reserved)
  refl _ := ⟨Or.inr, id⟩
  trans := by
    rintro first middle last ⟨unsent, reserved⟩ ⟨unsent', reserved'⟩
    refine ⟨fun state => ?_, reserved ∘ reserved'⟩
    rcases unsent' state with middle | middle
    · exact Or.inl (reserved middle)
    · exact unsent middle

/-- The policy that the rule makes. -/
abbrev recoveryPolicy : RowPolicy Db := recovery.on trackedAttempts

/-- The transactions of `reconcile_expired`. -/
def Call.recovers : Call → Bool
  | .reconcile | .lostResults | .settleLostResult _ => true
  | _ => false

section Recovery

variable {sha256 : String → String} {env : Env} {β : Type}

/-- Transactions that move attempts only as recovery may. -/
abbrev KeepsRecovery {α : Type} (p : Transaction α) : Prop :=
  Wp.Preserves (closedPolicy.discipline findsOpenAttempt) recoveryPolicy.Follows p

theorem recoveryPolicy_sound (d : Db) : recoveryPolicy.Sound d := fun _ _ _ => trivial

/-- A statement whose writes are all as recovery may make them. -/
theorem keepsRecovery_stmt {statement : Sql β}
    (allowed : ∀ busy snap (σ : InFlight), findsOpenAttempt σ statement →
      ∀ w ∈ (Engine.exec statement busy snap σ.view).writes, recoveryPolicy.Allows σ.view w) :
    KeepsRecovery (Tx.stmt statement) :=
  Wp.Preserves.stmt (RowChange.Follows.stable _) (fun _ follows => follows.started statement)
    fun snap σ busy follows finds => follows.after fun w member =>
      (allowed busy snap σ finds w member).keeps

theorem keepsRecovery_other {statement : Sql β} (other : statement.mayWrite .attempts = false) :
    KeepsRecovery (Tx.stmt statement) :=
  keepsRecovery_stmt fun _ _ _ _ _ => Sql.allows_of_mayWrite (fun _ => rfl) other

/-- A statement that puts an attempt into a state that recovery may put it into. -/
theorem keepsRecovery_move {attemptId : String} (f : AttemptRow → AttemptRow)
    {statement : Sql (Option AttemptRow)}
    (exec : ∀ busy snap d,
      Engine.exec statement busy snap d = attempts.update attemptId always f snap d)
    (same : ∀ row, (f row).attemptId = row.attemptId)
    (moves : ∀ (σ : InFlight) row, findsOpenAttempt σ statement →
      σ.view.attempts.find? attemptId = some row → recovery.stays row (f row)) :
    KeepsRecovery (Tx.stmt statement) := by
  refine keepsRecovery_stmt fun busy snap σ finds w member => ?_
  rw [exec] at member
  exact RowRule.allows_update (T := trackedAttempts) member (recoveryPolicy_sound _) same
    fun row found _ _ => ⟨trivial, moves σ row finds found⟩

theorem keepsRecovery_builds : Builds KeepsRecovery := by
  refine .of_terminal (Wp.Preserves.closed (RowChange.Follows.stable _)) (fun statement plain => ?_)
    fun _ _ _ _ => keepsRecovery_other rfl
  cases statement with
  | attempt statement =>
    refine keepsRecovery_stmt fun busy snap σ _ w member => ?_
    rcases AttemptSql.writes_of_plain plain.plain member with
      ⟨row, -, member⟩ | ⟨attemptId, f, member, edit⟩
    · exact RowRule.allows_insert (T := trackedAttempts) member trivial
    · -- Neither a renewal nor a settlement moves the attempt.
      rcases edit with ⟨until_, rfl⟩ | ⟨usage, estimated, rfl⟩ <;>
        exact RowRule.allows_update (T := trackedAttempts) member (recoveryPolicy_sound _)
          (fun _ => rfl) fun row _ _ _ => ⟨trivial, recovery.refl row⟩
  | _ => exact keepsRecovery_other rfl

/-- The transactions of `reconcile_expired` move attempts only as recovery may. -/
theorem call_recovers {asked : Call} (recovers : asked.recovers = true) :
    KeepsRecovery (asked.code sha256 env) := by
  have builds := keepsRecovery_builds
  cases asked with
  | reconcile =>
    refine builds.reply (builds.reconcile (fun attemptId => ?_) fun attemptId => ?_)
    · exact keepsRecovery_move AttemptRow.neverSent (fun _ _ _ => rfl) (fun _ => rfl)
        fun σ row finds found => ⟨fun _ => Or.inl (finds row found), nofun⟩
    · exact keepsRecovery_move (AttemptRow.lost env.now) (fun _ _ _ => rfl) (fun _ => rfl)
        fun σ row finds found => ⟨nofun, nofun⟩
  | lostResults => exact builds.reply builds.lostResults
  | settleLostResult attemptId =>
    refine builds.reply (builds.settleLostResult attemptId (fun attemptId errorClass => ?_)
      fun _ _ => keepsRecovery_other rfl)
    exact keepsRecovery_move (AttemptRow.stopped env.now errorClass) (fun _ _ _ => rfl)
      (fun _ => rfl) fun σ row finds found => ⟨nofun, nofun⟩
  | _ => cases recovers

end Recovery

/-! ### Runs -/

namespace Interleaved

/-- Transaction `t` is one of `reconcile_expired`. -/
def Recovering (sys : Interleaved) (t : ℕ) : Prop :=
  ∃ session, sys.sessions t = .active session ∧ session.call.1.recovers = true

/-- What a transaction guarantees when it commits. -/
def Closes (asked : Asked) (_ : Reply) (σ : InFlight) : Prop :=
  closedPolicy.Kept σ ∧ (asked.1.recovers = true → recoveryPolicy.Follows σ)

theorem sound_closed (sha256 : String → String) :
    Sound (Asked.code sha256) (Admitted findsOpenAttempt)
      (fun _ => closedPolicy.discipline findsOpenAttempt) closedPolicy.Sound Closes := by
  refine RowPolicy.toSound And.left (fun active prog ok => ok.admits active prog)
    fun asked d sound => ?_
  have kept := @call_closed sha256 asked.2 asked.1 (Local.initial d)
    ⟨.initial sound, List.forall_mem_nil _⟩
  by_cases recovers : asked.1.recovers = true
  · have follows := @call_recovers sha256 asked.2 _ recovers (Local.initial d)
      (.initial d)
    exact (kept.and follows).mono fun _ _ here => ⟨here.1.1, fun _ => here.2⟩
  · exact kept.mono fun _ _ here => ⟨here.1, fun yes => absurd yes recovers⟩

/-- A commit of `reconcile_expired` calls no sent attempt unsent. -/
theorem unsent_of_commit {sha256 : String → String} {sys next : Interleaved} {t : ℕ}
    {attemptId : String} {row : AttemptRow}
    (held : Held (fun _ => closedPolicy.discipline findsOpenAttempt) closedPolicy.Sound Closes sys)
    (recovering : sys.Recovering t)
    (commit : System.step (Asked.code sha256) sys (.commit t) = some next)
    (found : sys.committed.attempts.find? attemptId = some row)
    (sent : row.state ≠ .reserved) :
    ∃ row', next.committed.attempts.find? attemptId = some row' ∧
      (row'.state = .failedNotSent → row.state = .failedNotSent) := by
  obtain ⟨session, active, recovers⟩ := recovering
  rcases System.step_cases commit with
    ⟨same, -⟩ | ⟨t', session', value, event, active', prog, after, -⟩
  · rw [same]
    exact ⟨row, found, id⟩
  · cases event
    rw [active] at active'
    cases active'
    have keeps := ((held.post_of_ret active prog).2 recovers).keeps
    rw [after]
    obtain ⟨row', found', unsent, -⟩ := RowRule.stays_of_keeps (T := trackedAttempts) keeps found
    exact ⟨row', found', fun state => (unsent state).resolve_left sent⟩

/-- In every run in which `reconcile_expired` moves only attempts that are open, and calls
only reserved ones unsent: an attempt that has ended keeps its state; a committed result
is not followed by uncertainty; and no commit of `reconcile_expired` calls an attempt
unsent that has reached `SEND_INTENT`. -/
theorem Run.ended_attempt_stays {sha256 : String → String} {authority : Authority}
    {first last : Interleaved} {attemptId : String} {row : AttemptRow}
    (before : Run sha256 (Admitted findsOpenAttempt) (empty authority) first)
    (after : Run sha256 (Admitted findsOpenAttempt) first last)
    (found : first.committed.attempts.find? attemptId = some row) :
    ∃ row', last.committed.attempts.find? attemptId = some row' ∧
      (row.state.ended = true → row'.state = row.state) ∧
      ¬ (row'.state = .unknown ∧ row'.resultCommittedAt.isSome = true) ∧
      (row.state = .sendIntent → ∀ t next, last.Recovering t →
        System.step (Asked.code sha256) last (.commit t) = some next →
        ∃ row'', next.committed.attempts.find? attemptId = some row'' ∧
          (row''.state = .failedNotSent → row'.state = .failedNotSent)) := by
  have empty : closedPolicy.Sound (Db.empty authority) := RowRule.sound_of_empty fun _ => rfl
  have start := (sound_closed sha256).held (Held.initial empty) before
  have held := (sound_closed sha256).held start after
  have keeps := RowPolicy.relates And.left (sound_closed sha256) empty before after
  obtain ⟨row', found', ended, sent⟩ := RowRule.stays_of_keeps (T := trackedAttempts) keeps found
  have fits : row.Fits := RowRule.sane_of_sound (T := trackedAttempts) start.invariant found
  have fits' : row'.Fits := RowRule.sane_of_sound (T := trackedAttempts) held.invariant found'
  refine ⟨row', found', ended, ?_, fun state t next recovering commit => ?_⟩
  · rintro ⟨unknown, committed⟩
    have state := fits'.committed committed
    rw [unknown] at state
    cases state
  · exact unsent_of_commit held recovering commit found' (fits'.unsent (sent (fits.intent state)))

/-- `reconcile_expired` after the lease of the sample's attempt, and before its deadline. -/
def lateReconcile : Asked := (.reconcile, { Sample.env "" with now := 70000000 })

/-- The state of the sample's attempt. -/
def attemptIs (test : AttemptRow → Bool) (sys : Interleaved) : Bool :=
  (sys.committed.attempts.find? "a").any test

/-- `reconcile_expired` after the result has been committed leaves the attempt as it is. -/
theorem ended_attempt_stays_sample :
    ∃ (first last : Interleaved) (row row' : AttemptRow),
      Run Sample.sha256 (Admitted findsOpenAttempt) (empty {}) first ∧
      Run Sample.sha256 (Admitted findsOpenAttempt) first last ∧
      first.committed.attempts.find? "a" = some row ∧ row.state = .resultCommitted ∧
      last.committed.attempts.find? "a" = some row' ∧ row'.state = row.state := by
  obtain ⟨first, last, before, after, found, -⟩ := exists_runs Sample.sha256 {}
    (Admitted findsOpenAttempt) (computed ++ alone 6 result 7) (alone 7 lateReconcile 10)
    (attemptIs fun a => a.state = .resultCommitted) (fun _ => true) (by decide +kernel)
  obtain ⟨row, found, state⟩ := (Option.any_eq_true _ _).mp found
  have state : row.state = .resultCommitted := of_decide_eq_true state
  obtain ⟨row', found', same, -⟩ := Run.ended_attempt_stays before after found
  exact ⟨first, last, row, row', before, after, found, state, found', same (by rw [state]; rfl)⟩

/-- A result that commits after `reconcile_expired` has selected the attempt, and before it
writes it, is overwritten: the attempt is then unknown, with a committed result. -/
theorem ended_attempt_overwritten :
    ∃ (first last : Interleaved) (row row' : AttemptRow),
      Run Sample.sha256 (fun _ _ => True) (empty {}) first ∧
      Run Sample.sha256 (fun _ _ => True) first last ∧
      first.committed.attempts.find? "a" = some row ∧ row.state = .resultCommitted ∧
      last.committed.attempts.find? "a" = some row' ∧ row'.state = .unknown ∧
      row'.resultCommittedAt.isSome = true := by
  obtain ⟨first, last, before, after, found, found'⟩ := exists_runs Sample.sha256 {}
    (fun _ _ => True)
    (sent ++ .start 7 lateReconcile :: statements 7 5 ++
      alone 5 (.computeFinished Sample.reservation, Sample.env "") 2 ++ alone 6 result 7)
    (statements 7 7 ++ [.commit 7]) (attemptIs fun a => a.state = .resultCommitted)
    (attemptIs fun a => a.state = .unknown && a.resultCommittedAt.isSome) (by decide +kernel)
  obtain ⟨row, found, state⟩ := (Option.any_eq_true _ _).mp found
  obtain ⟨row', found', state'⟩ := (Option.any_eq_true _ _).mp found'
  rw [Bool.and_eq_true] at state'
  exact ⟨first, last, row, row', before, after, found, of_decide_eq_true state, found',
    of_decide_eq_true state'.1, state'.2⟩

end Interleaved

end IntramindRuntime.Ledger
