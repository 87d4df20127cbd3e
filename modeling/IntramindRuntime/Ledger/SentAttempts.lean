import IntramindRuntime.Ledger.Results

/-!
# What becomes of an attempt after its send

An attempt is reserved once, by the executor that adds it, and leaves that state for
good. Only `mark_send` gives it compute, and only while it is reserved. So an attempt
that has left the reserved state and holds no compute will never hold any again.

## Main definitions

* `Db.Knows`, `Db.Left`, `Db.Holds`, `Db.Over` — how far an attempt has come
* `departure` — the law that every method but `mark_send` keeps

## Main results

* `markSend_sends`, `reserveNext_adds`, `computeFinished_ends` — what the methods of an
  executor do with its attempt
* `Request.left_stays`, `Request.held_before` — nobody reserves or sends an attempt again
-/

namespace IntramindRuntime.Ledger

open Library

/-- An attempt that has left the reserved state does not return to it, and compute is
not given; a new attempt holds none. -/
def departure : RowGrowth AttemptRow where
  follows old row := (old.state ≠ .reserved → row.state ≠ .reserved) ∧
    (row.computeHeld = true → old.computeHeld = true)
  fresh row := row.computeHeld = false
  refl _ := ⟨id, id⟩
  trans first second := ⟨second.1 ∘ first.1, first.2 ∘ second.2⟩
  keeps fresh follows := Bool.eq_false_iff.mpr fun held => Bool.false_ne_true
    (fresh.symm.trans (follows.2 held))

/-- The law that every method but `mark_send` keeps. -/
abbrev departureKept : RowChange Db := departure.on trackedAttempts

namespace Db

variable (d : Db) (attemptId : String)

/-- The ledger has the attempt. -/
def Knows : Prop := d.attempts.find? attemptId ≠ none

/-- The attempt is not reserved any more. -/
def Left : Prop := ∃ a, d.attempts.find? attemptId = some a ∧ a.state ≠ .reserved

/-- The attempt holds compute. -/
def Holds : Prop := ∃ a, d.attempts.find? attemptId = some a ∧ a.computeHeld = true

/-- The inference of the attempt has ended, or it was never sent and will not be. -/
def Over : Prop :=
  ∃ a, d.attempts.find? attemptId = some a ∧ a.state ≠ .reserved ∧ a.computeHeld = false

instance : Decidable (d.Knows attemptId) := by unfold Knows; infer_instance

instance : Decidable (d.Holds attemptId) := by unfold Holds; infer_instance

variable {d attemptId}

theorem Over.left (isOver : d.Over attemptId) : d.Left attemptId :=
  let ⟨a, found, left, _⟩ := isOver
  ⟨a, found, left⟩

theorem Over.not_holds (isOver : d.Over attemptId) : ¬ d.Holds attemptId := by
  rintro ⟨a, found, held⟩
  obtain ⟨a', found', -, free⟩ := isOver
  obtain rfl : a = a' := Option.some.inj (found.symm.trans found')
  rw [held] at free
  cases free

theorem Left.knows (left : d.Left attemptId) : d.Knows attemptId := by
  obtain ⟨a, found, -⟩ := left
  intro absent
  rw [absent] at found
  cases found

theorem Left.over_of_not_holds (left : d.Left attemptId) (free : ¬ d.Holds attemptId) :
    d.Over attemptId := by
  obtain ⟨a, found, left⟩ := left
  exact ⟨a, found, left, Bool.eq_false_iff.mpr fun held => free ⟨a, found, held⟩⟩

end Db

/-! ### Every other method keeps the law -/

section Statements

variable {β : Type}

/-- All statements but the one that sends an attempt; a failed attempt is not reserved. -/
def AttemptSql.Unsending {β : Type} : AttemptSql β → Prop
  | .insert row => row.Fresh
  | .sendIntent .. => False
  | .fail _ state _ => state = .failedNotSent ∨ state = .failed
  | _ => True

/-- Statements that neither add an attempt nor send one. -/
def AttemptSql.Waning {β : Type} : AttemptSql β → Prop
  | .insert .. => False
  | statement => statement.Unsending

/-- What a statement does to an attempt that it neither adds nor sends. -/
inductive AttemptRow.Turn (old : AttemptRow) : AttemptRow → Prop
  | renew (until_ : Time) : Turn old { old with leaseExpiresAt := until_ }
  | backendFinished (now : Time) : Turn old (old.backendFinished now)
  | settle (usage : ℤ) (estimated : Bool) : Turn old (old.settle usage estimated)
  | resultCommitted (now : Time) : Turn old (old.resultCommitted now)
  | unknown (now : Time) (reason : String) : Turn old (old.unknown now reason)
  | fail {state : AttemptState} (reason : String)
      (final : state = .failedNotSent ∨ state = .failed) : Turn old (old.fail state reason)
  | neverSent : Turn old old.neverSent
  | lost (now : Time) : Turn old (old.lost now)
  | stopped (now : Time) (errorClass : String) : Turn old (old.stopped now errorClass)

/-- The writes of such a statement. -/
theorem AttemptSql.turn_of_mem {statement : AttemptSql β} {d : Db} {w : Write}
    (wanes : statement.Waning) (member : w ∈ (statement.exec (fun _ => false) d d).writes) :
    ∃ (id : String) (old row : AttemptRow), d.attempts.find? id = some old ∧
      row.attemptId = old.attemptId ∧ old.Turn row ∧ w = attempts.write row := by
  have turns {attemptId : String} {f : AttemptRow → AttemptRow}
      (member : w ∈ (attempts.update attemptId always f d d).writes)
      (same : ∀ row, (f row).attemptId = row.attemptId) (turn : ∀ row : AttemptRow, row.Turn (f row)) :
      ∃ (id : String) (old row : AttemptRow), d.attempts.find? id = some old ∧
        row.attemptId = old.attemptId ∧ old.Turn row ∧ w = attempts.write row := by
    obtain ⟨old, found, -, rfl⟩ := Access.mem_update_writes member
    exact ⟨attemptId, old, f old, found, same old, turn old, rfl⟩
  cases statement with
  | insert | sendIntent => exact wanes.elim
  | owned | lostResult | ofEpoch | idleUnknown =>
    simp only [AttemptSql.exec, Outcome.map_writes] at member
    cases member
  | lastNumber | expired | lostResults => cases member
  | renew _ until_ => exact turns member (fun _ => rfl) fun _ => .renew until_
  | backendFinished _ now => exact turns member (fun _ => rfl) fun _ => .backendFinished now
  | settle _ usage estimated => exact turns member (fun _ => rfl) fun _ => .settle usage estimated
  | resultCommitted _ now => exact turns member (fun _ => rfl) fun _ => .resultCommitted now
  | unknown _ now reason => exact turns member (fun _ => rfl) fun _ => .unknown now reason
  | fail _ state reason => exact turns member (fun _ => rfl) fun _ => .fail reason wanes
  | neverSent => exact turns member (fun _ => rfl) fun _ => .neverSent
  | lost _ now => exact turns member (fun _ => rfl) fun _ => .lost now
  | stopped _ now errorClass => exact turns member (fun _ => rfl) fun _ => .stopped now errorClass

section Turns

variable {growth : RowGrowth AttemptRow} {sha256 : String → String} {env : Env}

/-- A law that every turn follows is kept by the statements that take turns. -/
theorem keptBy_turn (follows : ∀ old row, old.Turn row → growth.follows old row)
    {statement : AttemptSql β} (wanes : statement.Waning) :
    (growth.on trackedAttempts).KeptBy statement.run := by
  refine RowChange.keptBy_stmt fun d w member => ?_
  obtain ⟨id, old, row, found, same, turn, rfl⟩ := AttemptSql.turn_of_mem wanes member
  exact RowGrowth.of_rewrite (T := trackedAttempts) (f := fun _ => row) found same
    (follows old row turn)

theorem builds_of_turn (follows : ∀ old row, old.Turn row → growth.follows old row) :
    Builds (growth.on trackedAttempts).KeptBy := by
  refine .of_terminal (growth.on trackedAttempts).keptBy_closed (fun statement plain => ?_)
    fun _ _ _ _ => keptBy_other (fun _ => rfl) rfl
  cases statement with
  | attempt statement =>
    refine keptBy_turn follows ?_
    cases statement <;> first | exact plain | exact plain.elim
  | _ => exact keptBy_other (fun _ => rfl) rfl

/-- A new attempt is fresh. -/
theorem reserveNext_keepsTurns (follows : ∀ old row, old.Turn row → growth.follows old row)
    (fresh : ∀ row : AttemptRow, row.Fresh → growth.fresh row) (poolId ownerId : String) :
    (growth.on trackedAttempts).KeptBy (Store.reserveNext env poolId ownerId) := by
  have builds := builds_of_turn follows
  refine builds.reserveNext _ _ fun _ _ => builds.reserveCandidate fun _ _ =>
    builds.reserve (fun row isFresh => ?_) fun _ _ => keptBy_other (fun _ => rfl) rfl
  refine RowChange.keptBy_stmt fun d w member => ?_
  have member : w ∈ (AttemptSql.exec (.insert row) (fun _ => false) d d).writes := member
  simp only [AttemptSql.exec] at member
  split at member
  · cases member
  · exact RowGrowth.of_insert (T := trackedAttempts) member (fresh row isFresh)

/-- A law about attempts that every turn follows is kept by the calls that neither add an
attempt nor send one. -/
theorem call_keepsTurns (follows : ∀ old row, old.Turn row → growth.follows old row)
    (asked : Call)
    (reserveNext : ∀ poolId ownerId, asked = .reserveNext poolId ownerId →
      (growth.on trackedAttempts).KeptBy (Store.reserveNext env poolId ownerId))
    (markSend : ∀ reservation, asked = .markSend reservation →
      (growth.on trackedAttempts).KeptBy (Store.markSend env reservation)) :
    (growth.on trackedAttempts).KeptBy (asked.code sha256 env) := by
  have elsewhere : ∀ {β : Type} (statement : Sql β), statement.mayWrite .attempts = false →
      (growth.on trackedAttempts).KeptBy (Tx.stmt statement) :=
    fun _ other => keptBy_other (fun _ => rfl) other
  have builds := builds_of_turn follows
  exact builds.call asked (fun _ => elsewhere _ rfl)
    (fun _ _ _ => builds.configurePool _ _ (elsewhere _ rfl) (elsewhere _ rfl))
    (fun _ _ _ _ => builds.resumeEngine _ _ _ fun _ => elsewhere _ rfl)
    (fun _ => builds.submitOperation _ fun _ _ => elsewhere _ rfl) reserveNext markSend
    (fun _ => builds.computeFinished _ (keptBy_turn follows trivial))
    (fun _ _ _ _ _ => builds.commitResult _ _ _ _ fun _ =>
      builds.commitFinished _ _ _ _ (fun _ => elsewhere _ rfl) (keptBy_turn follows trivial)
        fun _ _ _ => builds.decideResult _ _ _ _ (elsewhere _ rfl))
    (fun _ _ _ => builds.unknown _ _ (fun _ => keptBy_turn follows trivial)
      fun _ _ => elsewhere _ rfl)
    (fun _ _ _ _ _ _ => builds.fail _ _ _ _ _ (fun _ _ ended => keptBy_turn follows ended)
      fun _ _ => elsewhere _ rfl)
    (fun _ _ _ _ _ _ => builds.finishRun _ _ _ _ _ (elsewhere _ rfl) fun _ _ _ => builds.finishRoot _ _ _ _
      fun _ => elsewhere _ rfl)
    (fun _ _ _ => builds.bindCompletion _ _ _ fun _ => elsewhere _ rfl)
    (builds.reconcile (fun _ => keptBy_turn follows trivial) fun _ => keptBy_turn follows trivial)
    (fun _ _ => builds.settleLostResult _ (fun _ _ => keptBy_turn follows trivial)
      fun _ _ => elsewhere _ rfl)
    (fun _ _ _ _ _ => builds.confirmEpochStopped _ _ _ _ (fun _ _ => keptBy_turn follows trivial)
      fun _ _ => elsewhere _ rfl)
    (fun _ _ _ _ _ => builds.settleIdleUnknown _ _ _ _ (fun _ _ => keptBy_turn follows trivial)
      fun _ _ => elsewhere _ rfl)
    fun _ _ _ => elsewhere _ rfl

end Turns

end Statements

section Requests

variable {sha256 : String → String} {env : Env} {d : Db} {attemptId : String}

/-- No turn takes an attempt back to the reserved state, or gives it compute. -/
theorem AttemptRow.Turn.departs {old row : AttemptRow} (turn : old.Turn row) :
    departure.follows old row := by
  cases turn with
  | renew | settle => exact ⟨id, id⟩
  | unknown | resultCommitted | lost => exact ⟨fun _ => nofun, id⟩
  | backendFinished | neverSent | stopped => exact ⟨fun _ => nofun, fun held => by cases held⟩
  | fail _ final =>
    refine ⟨fun _ => ?_, fun held => by cases held⟩
    rcases final with rfl | rfl <;> nofun

/-- Every method but `mark_send` keeps the law. -/
theorem call_keepsDeparture (asked : Call) (other : ∀ reservation, asked ≠ .markSend reservation) :
    departureKept.KeptBy (asked.code sha256 env) :=
  call_keepsTurns (fun _ _ => AttemptRow.Turn.departs) asked
    (fun _ _ _ => reserveNext_keepsTurns (fun _ _ => AttemptRow.Turn.departs)
      (fun _ fresh => fresh.2.1) _ _)
    fun reservation here => (other reservation here).elim

/-- Every request but a `mark_send` keeps the law. -/
theorem Request.keeps_departure (request : Request)
    (other : ∀ env reservation, request ≠ .call env (.markSend reservation)) :
    departureKept.Keeps d (request.after sha256 d) := by
  refine request.keeps_of_code fun env asked asks => call_keepsDeparture asked ?_
  rintro reservation rfl
  obtain ⟨env', rfl⟩ := Request.eq_call_of_asks asks trivial
  exact other env' reservation rfl

end Requests

/-! ### What an executor does with its attempt -/

section Aside

variable {α β : Type} {env : Env} {d : Db}

/-- The statement writes no attempt. -/
def Sql.Aside {β : Type} (statement : Sql β) : Prop := statement.mayWrite .attempts = false

/-- A transaction that writes no attempt leaves all attempts alone. -/
theorem ensures_aside {p : Transaction α} (uses : p.Uses Sql.Aside) :
    p.Ensures d fun _ d' => d'.attempts = d.attempts := by
  refine Tx.Ensures.of_uses uses fun {β} statement d aside => ?_
  have unwritten : ∀ (writes : List Write) (d : Db), (∀ w ∈ writes, w.table ≠ .attempts) →
      (RowStore.applyAll writes d).attempts = d.attempts := by
    intro writes
    induction writes with
    | nil => exact fun _ _ => rfl
    | cons w rest ih =>
      intro d other
      refine (ih _ fun w member => other w (List.mem_cons_of_mem _ member)).trans ?_
      cases w with
      | attempt row => exact absurd rfl (other _ List.mem_cons_self)
      | _ => rfl
  refine unwritten _ d fun w member here => ?_
  have may := Sql.mayWrite_of_mem member
  rw [here, show statement.mayWrite .attempts = false from aside] at may
  cases may

/-- The sequence rule, for a first part that writes no attempt. -/
theorem ensures_aside_bind {p : Transaction β} {next : β → Transaction α} {post : α → Db → Prop}
    (uses : p.Uses Sql.Aside)
    (rest : ∀ value d', d'.attempts = d.attempts → (next value).Ensures d' post) :
    (p.bind next).Ensures d post :=
  Tx.Ensures.bind ((ensures_aside uses).mono fun value d' same => rest value d' same)

/-- The rule for one statement that writes no attempt. -/
theorem ensures_aside_perform {statement : Sql β} {next : β → Transaction α}
    {post : α → Db → Prop} (aside : statement.Aside)
    (rest : ∀ value d', d'.attempts = d.attempts → (next value).Ensures d' post) :
    Tx.Ensures (.perform statement next) d post :=
  ensures_aside_bind (p := Tx.stmt statement) ⟨aside, fun _ => trivial⟩ rest

theorem lockBudget_aside (spec : OperationSpec) (root : RootRow) :
    (Store.lockBudget spec root).Uses Sql.Aside := by
  unfold Store.lockBudget
  split
  · trivial
  · exact ⟨rfl, fun _ => trivial⟩

theorem findBudget_aside (spec : OperationSpec) (root : RootRow) :
    (Store.findBudget spec root).Uses Sql.Aside := by
  unfold Store.findBudget
  split
  · trivial
  · exact ⟨rfl, fun _ => trivial⟩

theorem terminal_aside (operationId : String) (state : OperationState) (reason : String) :
    (Store.terminal env operationId state reason).Uses Sql.Aside :=
  ⟨rfl, fun _ => ⟨rfl, fun _ => Tx.Uses.forEach fun _ => ⟨rfl, fun _ => trivial⟩⟩⟩

theorem expireOperation_aside (spec : OperationSpec) (observedAt : Time) :
    (Store.expireOperation env spec observedAt).Uses Sql.Aside := by
  unfold Store.expireOperation
  split
  · trivial
  · exact (terminal_aside ..).bind fun _ => trivial

theorem chargeSend_aside (reservation : Reservation) (a : Joined) (deadline : Time) :
    (Store.chargeSend env reservation a deadline).Uses Sql.Aside := by
  unfold Store.chargeSend
  simp only [Tx.bind_eq, Tx.stmt_bind]
  refine ⟨rfl, fun root => ?_⟩
  cases root with
  | none => trivial
  | some root =>
    refine ⟨rfl, fun op => ?_⟩
    cases op with
    | none => trivial
    | some op =>
      refine (uses_require _ _).bind fun _ => (uses_require _ _).bind fun _ =>
        (lockBudget_aside _ _).bind fun _ => (uses_require _ _).bind fun _ => ⟨rfl, fun _ => ?_⟩
      unfold Store.chargeBudget
      split
      · exact ⟨rfl, fun _ => trivial⟩
      · exact ⟨rfl, fun _ => ⟨rfl, fun _ => trivial⟩⟩

theorem leaseAlive_aside (reservation : Reservation) (a : Joined) :
    (Store.leaseAlive env reservation a).Uses Sql.Aside := by
  unfold Store.leaseAlive
  split
  · exact ⟨rfl, fun _ => trivial⟩
  · trivial

end Aside

section Methods

variable {sha256 : String → String} {env : Env} {d : Db}

/-- A successful `mark_send` sends its attempt, which was reserved, and touches no other. -/
theorem markSend_sends (reservation : Reservation) :
    (Store.markSend env reservation).Ensures d fun _ d' =>
      ∃ a, d.attempts.find? reservation.attemptId = some a ∧ a.state = .reserved ∧
        d'.attempts = d.attempts.put (a.sendIntent env.now) := by
  unfold Store.markSend
  refine Tx.Ensures.bind ((owned_spec reservation).mono ?_)
  rintro a _ ⟨rfl, joins, named, -⟩
  have here : d.attempts.find? reservation.attemptId = some a.attempt := named ▸ joins.attempt
  refine ensures_require fun states => ?_
  simp only [Bool.and_eq_true, decide_eq_true_eq] at states
  refine ensures_aside_bind (leaseAlive_aside reservation a) fun alive d₁ same₁ => ?_
  refine ensures_require fun _ => ?_
  have charges : (Store.when (!a.attempt.budgetHeld) (Store.chargeSend env reservation a
      (min a.root.deadline (min (a.operation.spec.deadline.getD a.root.deadline)
        (a.attempt.createdAt + a.operation.spec.attemptTimeout))))).Uses Sql.Aside :=
    uses_when (chargeSend_aside ..)
  refine ensures_aside_bind charges fun _ d₂ same₂ => ?_
  have same : d₂.attempts = d.attempts := same₂.trans same₁
  simp only [Tx.bind_eq, Tx.stmt_bind]
  refine Tx.Ensures.update rfl (fun row found _ => Tx.Ensures.ret ?_) fun missing => ?_
  · have found : d₂.attempts.find? reservation.attemptId = some row := found
    rw [same, here] at found
    cases found
    refine ⟨a.attempt, here, states.1, ?_⟩
    exact congrArg (fun table : Table AttemptRow => table.put (a.attempt.sendIntent env.now)) same
  · have absent := missing a.attempt (by rw [← here, ← same]; rfl)
    cases absent

/-- After a successful `compute_finished` the attempt is over. -/
theorem computeFinished_ends (valid : d.book.Valid) (reservation : Reservation) :
    (Store.computeFinished env reservation).Ensures d fun _ d' =>
      d'.Over reservation.attemptId := by
  unfold Store.computeFinished
  refine Tx.Ensures.bind ((owned_spec reservation).mono ?_)
  rintro a _ ⟨rfl, joins, named, -⟩
  have here : d.attempts.find? reservation.attemptId = some a.attempt := named ▸ joins.attempt
  split
  · rename_i ended
    have consistent : a.attempt.Consistent := valid.consistent _ (Table.mem_of_find? joins.attempt)
    refine Tx.Ensures.ret ⟨a.attempt, here, ?_, Bool.eq_false_iff.mpr fun held => ?_⟩
    · intro reserved
      rw [reserved] at ended
      cases ended
    · rcases (consistent.compute held).2 with state | state | state <;>
        (rw [state] at ended; cases ended)
  · simp only [Tx.bind_eq, Tx.stmt_bind]
    refine Tx.Ensures.update rfl (fun row found _ => Tx.Ensures.ret ?_) fun missing => ?_
    · have named : (row.backendFinished env.now).attemptId = reservation.attemptId :=
        Table.key_of_find? found
      refine ⟨row.backendFinished env.now, ?_, nofun, rfl⟩
      rw [← named]
      exact Table.find?_put_self
    · have absent := missing a.attempt here
      cases absent

/-- What `reserve_next` does to the attempts: it adds the one it returns a reservation for,
at its pool, or none. -/
def Adds (poolId : String) (attempts : Table AttemptRow) : Option Reservation → Db → Prop
  | none, d' => d'.attempts = attempts
  | some reservation, d' => attempts.find? reservation.attemptId = none ∧
      ∃ a : AttemptRow, a.attemptId = reservation.attemptId ∧ a.poolId = poolId ∧ a.Fresh ∧
        d'.attempts = attempts.put a

section Reserve

variable {before : Table AttemptRow} {pool : PoolRow} {ownerId : String} {candidate : Candidate}
  (same : d.attempts = before)

include same

theorem adds_none {poolId : String} :
    (Tx.ret none : Transaction (Option Reservation)).Ensures d (Adds poolId before) :=
  Tx.Ensures.ret same

theorem reserve_adds (root : RootRow) (op : OperationRow) :
    (Store.reserve env pool ownerId candidate root op).Ensures d (Adds pool.poolId before) := by
  unfold Store.reserve
  simp only [Tx.bind_eq, Tx.stmt_bind]
  refine Tx.Ensures.read rfl (ensures_insertAttempt (fun fresh => ?_) Tx.Ensures.raise)
  refine ensures_aside_perform rfl fun _ d₁ same₁ => ?_
  refine ensures_aside_perform rfl fun _ d₂ same₂ => Tx.Ensures.ret ⟨same ▸ fresh, ?_⟩
  rw [← same]
  refine ⟨_, ?_, ?_, ?_, same₂.trans same₁⟩
  · rfl
  · rfl
  · exact ⟨rfl, rfl, rfl, rfl, rfl⟩

theorem tryCandidate_adds (root : RootRow) (op : OperationRow) :
    (Store.tryCandidate env pool ownerId candidate root op).Ensures d
      (Adds pool.poolId before) := by
  unfold Store.tryCandidate
  simp only [Tx.bind_eq, Tx.stmt_bind]
  refine ensures_aside_bind (expireOperation_aside ..) fun expired d₁ same₁ => ?_
  split
  · exact adds_none (same₁.trans same)
  · split
    · exact adds_none (same₁.trans same)
    · refine ensures_aside_bind (findBudget_aside ..) fun budget d₂ same₂ => ?_
      have same₂ : d₂.attempts = before := same₂.trans (same₁.trans same)
      cases budget with
      | none =>
        exact ensures_aside_bind (terminal_aside ..) fun _ _ kept => adds_none (kept.trans same₂)
      | some budget =>
        dsimp only
        split
        · exact ensures_aside_bind (terminal_aside ..) fun _ _ kept => adds_none (kept.trans same₂)
        · split
          · exact ensures_aside_perform rfl fun _ _ kept => adds_none (kept.trans same₂)
          · exact reserve_adds same₂ root op

theorem reserveCandidate_adds :
    (Store.reserveCandidate env pool ownerId candidate).Ensures d (Adds pool.poolId before) := by
  unfold Store.reserveCandidate
  simp only [Tx.bind_eq, Tx.stmt_bind]
  refine ensures_aside_perform rfl fun root d₁ same₁ => ?_
  have same₁ : d₁.attempts = before := same₁.trans same
  cases root with
  | none => exact adds_none same₁
  | some root =>
    dsimp only
    split
    · exact adds_none same₁
    · refine ensures_aside_perform rfl fun op d₂ same₂ => ?_
      have same₂ : d₂.attempts = before := same₂.trans same₁
      cases op with
      | none => exact adds_none same₂
      | some op =>
        dsimp only
        split
        · exact adds_none same₂
        · exact tryCandidate_adds same₂ root op

/-- The candidates are tried until one is reserved. -/
theorem reserveFrom_adds (candidates : List Candidate) :
    (Store.reserveFrom env pool ownerId candidates).Ensures d (Adds pool.poolId before) := by
  induction candidates generalizing d with
  | nil => exact adds_none same
  | cons candidate rest ih =>
    unfold Store.reserveFrom
    refine Tx.Ensures.bind ((reserveCandidate_adds same).mono fun found d₁ adds => ?_)
    cases found with
    | none => exact ih adds
    | some reservation => exact Tx.Ensures.ret adds

theorem reserveNext_adds (poolId : String) :
    (Store.reserveNext env poolId ownerId).Ensures d (Adds poolId before) := by
  unfold Store.reserveNext
  simp only [Tx.bind_eq, Tx.stmt_bind]
  refine Tx.Ensures.selectForUpdate rfl ?_
  generalize read : pools.find? poolId always d = pool
  cases pool with
  | none => exact adds_none same
  | some pool =>
    obtain rfl : pool.poolId = poolId := Table.key_of_find? (Access.find?_eq_some_iff.mp read).1
    dsimp only
    split
    · exact adds_none same
    · refine ensures_aside_perform rfl fun group d₂ same₂ => ?_
      have same₂ : d₂.attempts = before := same₂.trans same
      split
      · refine ensures_aside_perform rfl fun found d₃ same₃ => ?_
        cases found with
        | none => exact Tx.Ensures.raise
        | some candidates => exact reserveFrom_adds (same₃.trans same₂) candidates
      · exact adds_none same₂

end Reserve

variable {d' : Db} {reply : Reply} {reservation : Reservation}

/-- The reservation that `reserve_next` returns is for a new attempt. -/
theorem reserveNext_reserves {poolId ownerId : String}
    (ran : (Request.call env (.reserveNext poolId ownerId)).perform sha256 d =
      .ok (.reservation (some reservation), d')) :
    ¬ d.Knows reservation.attemptId ∧ d'.Knows reservation.attemptId := by
  have adds : ((Call.reserveNext poolId ownerId).code sha256 env).Ensures d fun reply d' =>
      ∃ found, reply = .reservation found ∧ Adds poolId d.attempts found d' :=
    Tx.Ensures.bind ((reserveNext_adds rfl poolId).mono fun found _ added =>
      Tx.Ensures.ret ⟨found, rfl, added⟩)
  obtain ⟨found, same, added⟩ := adds _ _ ran
  cases same
  obtain ⟨fresh, a, named, -, -, put⟩ := added
  refine ⟨fun known => known fresh, ?_⟩
  unfold Db.Knows
  rw [put, ← named]
  exact fun absent => Option.some_ne_none _ (Table.find?_put_self.symm.trans absent)

/-- A `mark_send` that succeeds leaves its attempt sent, with compute. -/
theorem sent_of_markSend
    (ran : (Request.call env (.markSend reservation)).perform sha256 d = .ok (reply, d')) :
    ∃ a, d'.attempts.find? reservation.attemptId = some a ∧ a.state = .sendIntent ∧
      a.computeHeld = true := by
  have sends : ((Call.markSend reservation).code sha256 env).Ensures d fun _ d' =>
      ∃ a, d.attempts.find? reservation.attemptId = some a ∧ a.state = .reserved ∧
        d'.attempts = d.attempts.put (a.sendIntent env.now) :=
    ensures_reply (markSend_sends reservation)
  obtain ⟨a, found, -, put⟩ := sends _ _ ran
  have named : (a.sendIntent env.now).attemptId = reservation.attemptId := Table.key_of_find? found
  refine ⟨a.sendIntent env.now, ?_, rfl, rfl⟩
  rw [put, ← named]
  exact Table.find?_put_self

theorem over_of_computeFinished (valid : d.book.Valid)
    (ran : (Request.call env (.computeFinished reservation)).perform sha256 d = .ok (reply, d')) :
    d'.Over reservation.attemptId := by
  have ends : ((Call.computeFinished reservation).code sha256 env).Ensures d fun _ d' =>
      d'.Over reservation.attemptId := ensures_reply (computeFinished_ends valid reservation)
  exact ends _ _ ran

end Methods

/-! ### Any request -/

section Steps

variable {sha256 : String → String} {d : Db} {attemptId : String} {a : AttemptRow}

/-- No request removes an attempt, reserves one again, or gives compute to one that has
left the reserved state. -/
theorem Request.attempt_after (request : Request) (found : d.attempts.find? attemptId = some a) :
    ∃ a', (request.after sha256 d).attempts.find? attemptId = some a' ∧ (a.state ≠ .reserved →
      a'.state ≠ .reserved ∧ (a'.computeHeld = true → a.computeHeld = true)) := by
  by_cases send : ∃ env reservation, request = .call env (.markSend reservation)
  · obtain ⟨env, reservation, rfl⟩ := send
    have sends : ((Call.markSend reservation).code sha256 env).Ensures d fun _ d' =>
        ∃ a, d.attempts.find? reservation.attemptId = some a ∧ a.state = .reserved ∧
          d'.attempts = d.attempts.put (a.sendIntent env.now) :=
      ensures_reply (markSend_sends reservation)
    unfold Request.after
    split
    · rename_i reply d' ran
      obtain ⟨sent, here, reserved, put⟩ := sends reply d' ran
      have named : sent.attemptId = reservation.attemptId := Table.key_of_find? here
      rw [put, Table.find?_put]
      split
      · -- the attempt that is sent was reserved
        rename_i same
        have same : reservation.attemptId = attemptId := named.symm.trans same
        rw [← same, here] at found
        cases found
        exact ⟨_, rfl, fun left => absurd reserved left⟩
      · exact ⟨a, found, fun left => ⟨left, id⟩⟩
    · exact ⟨a, found, fun left => ⟨left, id⟩⟩
  · have keeps : departureKept.Keeps d (request.after sha256 d) :=
      request.keeps_departure fun env reservation here => send ⟨env, reservation, here⟩
    obtain ⟨a', found', stays, held⟩ :=
      RowGrowth.follows_of_keeps (T := trackedAttempts) keeps found
    exact ⟨a', found', fun left => ⟨stays left, held⟩⟩

theorem Request.knows_stays (request : Request) (known : d.Knows attemptId) :
    (request.after sha256 d).Knows attemptId := by
  obtain ⟨a, found⟩ := Option.ne_none_iff_exists'.mp known
  obtain ⟨a', found', -⟩ := @Request.attempt_after sha256 d _ _ request found
  exact fun absent => Option.some_ne_none a' (found'.symm.trans absent)

theorem Request.left_stays (request : Request) (left : d.Left attemptId) :
    (request.after sha256 d).Left attemptId := by
  obtain ⟨a, found, left⟩ := left
  obtain ⟨a', found', stays⟩ := @Request.attempt_after sha256 d _ _ request found
  exact ⟨a', found', (stays left).1⟩

/-- An attempt that was sent can only lose its compute. -/
theorem Request.held_before (request : Request) (left : d.Left attemptId)
    (held : (request.after sha256 d).Holds attemptId) : d.Holds attemptId := by
  obtain ⟨a, found, left⟩ := left
  obtain ⟨a', found', stays⟩ := @Request.attempt_after sha256 d _ _ request found
  obtain ⟨row, here, compute⟩ := held
  obtain rfl : row = a' := Option.some.inj (here.symm.trans found')
  exact ⟨a, found, (stays left).2 compute⟩

theorem Request.over_stays (request : Request) (isOver : d.Over attemptId) :
    (request.after sha256 d).Over attemptId :=
  (request.left_stays isOver.left).over_of_not_holds fun held =>
    isOver.not_holds (request.held_before isOver.left held)

end Steps

end IntramindRuntime.Ledger
