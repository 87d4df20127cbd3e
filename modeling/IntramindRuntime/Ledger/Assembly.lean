import IntramindRuntime.Ledger.Store

/-!
# How the methods are assembled

A property of transactions that composes holds of a whole method once it holds of
its parts. Most statements are plain: they satisfy such a property for reasons of
their own. A few satisfy it only because of what the method around them has locked
and checked; the methods that contain one are assembled from larger parts.

## Main definitions

* `Sql.Plain` — the plain statements
* `Assembles` — a composable property of the plain statements and of `_terminal`
* `Builds` — such a property that events may be posted under

## Main results

* `Assembles.call`, `Builds.call` — the property holds of every method, once it holds of those
  that are assembled from more than plain statements
-/

namespace IntramindRuntime.Ledger

open Library

/-- A root that has just been accepted. -/
def RootRow.Fresh (row : RootRow) : Prop :=
  row.state = .running ∧ row.result = none ∧ row.attempts = 0

/-- An operation that has just been submitted. -/
def OperationRow.Fresh (row : OperationRow) : Prop :=
  row.spec.operationId = row.operationId ∧ row.state = .ready ∧ row.result = none ∧
    row.attempts = 0

/-- An attempt that has just been reserved. -/
def AttemptRow.Fresh (row : AttemptRow) : Prop :=
  row.state = .reserved ∧ row.computeHeld = false ∧ row.budgetHeld = false ∧
    row.sendIntentAt = none ∧ row.resultCommittedAt = none

/-- An event that nobody has claimed yet. -/
def OutboxRow.Fresh (row : OutboxRow) : Prop :=
  row.deliveries = 0 ∧ row.ownerId = none ∧ row.leaseExpiresAt = none ∧ row.deliveredAt = none

/-- All statements but those that cancel or finish a root, or count an attempt. -/
def RootSql.Plain {β : Type} : RootSql β → Prop
  | .insert row => row.Fresh
  | .cancel .. | .finish .. | .charge .. => False
  | _ => True

/-- The statements that put an operation back without looking at its state. -/
def OperationSql.PutsBack {β : Type} : OperationSql β → Prop
  | .reconcile .. | .retry .. | .recover .. => True
  | _ => False

/-- All statements but those that submit an operation, end one, put one back, take one, or
count an attempt. -/
def OperationSql.Plain {β : Type} : OperationSql β → Prop
  | .insert .. | .succeed .. | .terminal .. | .reconcile .. | .retry .. | .recover ..
  | .execute .. | .countAttempt .. => False
  | _ => True

/-- All statements but those that move an attempt to another state. -/
def AttemptSql.Plain {β : Type} : AttemptSql β → Prop
  | .insert row => row.Fresh
  | .sendIntent .. | .backendFinished .. | .resultCommitted .. | .unknown .. | .fail ..
  | .neverSent .. | .lost .. | .stopped .. => False
  | _ => True

/-- The plain statements that add no attempt. -/
def AttemptSql.Minor {β : Type} : AttemptSql β → Prop
  | .insert .. => False
  | statement => statement.Plain

theorem AttemptSql.Minor.plain {β : Type} {statement : AttemptSql β} (minor : statement.Minor) :
    statement.Plain := by
  cases statement with
  | insert => exact minor.elim
  | _ => exact minor

/-- All statements but those that configure a pool and its group, or resume one. -/
def PoolSql.Plain {β : Type} : PoolSql β → Prop
  | .configureGroup .. | .configure .. | .resume .. => False
  | _ => True

/-- All statements but those that publishers send. -/
def OutboxSql.Plain {β : Type} : OutboxSql β → Prop
  | .insert row => row.Fresh
  | .claim .. | .delivered .. | .defer_ .. => False

/-- All statements but the one that adds a binding. -/
def BindingSql.Plain {β : Type} : BindingSql β → Prop
  | .insert .. => False
  | _ => True

/-- All statements but the one that records an artifact. -/
def OtherSql.Plain {β : Type} : OtherSql β → Prop
  | .insertArtifact .. => False
  | _ => True

/-- The statements that satisfy a property for reasons of their own. -/
def Sql.Plain {β : Type} : Sql β → Prop
  | .root statement => statement.Plain
  | .operation statement => statement.Plain
  | .attempt statement => statement.Minor
  | .pool statement => statement.Plain
  | .outbox _ => False
  | .binding statement => statement.Plain
  | .other statement => statement.Plain
  | _ => True

/-- The plain statements, and those that post an event. -/
def Sql.Ordinary {β : Type} : Sql β → Prop
  | .outbox statement => statement.Plain
  | statement => statement.Plain

theorem Sql.Plain.ordinary {β : Type} {statement : Sql β} (plain : statement.Plain) :
    statement.Ordinary := by
  cases statement with
  | outbox => exact plain.elim
  | _ => exact plain

/-- The calls of publishers. -/
def Call.mails : Call → Bool
  | .claimEvents .. | .delivered .. | .deferEvent .. => true
  | _ => false

/-- The calls that settle an attempt together with its operation. -/
def Call.settles : Call → Bool
  | .commitResult .. | .unknown .. | .fail .. | .settleLostResult _ | .confirmEpochStopped ..
  | .settleIdleUnknown .. => true
  | _ => false

/-- A property of transactions that composes, and that the plain statements and
`_terminal` have. -/
structure Assembles (C : ∀ {α : Type}, Transaction α → Prop) : Prop where
  closed : Tx.Closed C
  plain : ∀ {β : Type} (statement : Sql β), statement.Plain → C (Tx.stmt statement)
  terminal : ∀ env operationId state reason, state.failing = true →
    C (Store.terminal env operationId state reason)

/-- Such a property, if posting an event has it too. -/
structure Builds (C : ∀ {α : Type}, Transaction α → Prop) : Prop extends Assembles C where
  post : ∀ row : OutboxRow, row.Fresh → C (OutboxSql.insert row).run

namespace Assembles

variable {C : ∀ {α : Type}, Transaction α → Prop} {α β : Type} {sha256 : String → String}
  {env : Env}

theorem ret (builds : Assembles C) (value : α) : C (Tx.ret value : Transaction α) :=
  builds.closed.ret value

theorem raise (builds : Assembles C) (error : RuntimeError) : C (Tx.raise error : Transaction α) :=
  builds.closed.raise error

theorem bind (builds : Assembles C) {p : Transaction α} {f : α → Transaction β} (first : C p)
    (rest : ∀ value, C (f value)) : C (p.bind f) :=
  builds.closed.bind first rest

theorem perform (builds : Assembles C) {statement : Sql β} {next : β → Transaction α}
    (plain : statement.Plain) (rest : ∀ result, C (next result)) : C (.perform statement next) :=
  builds.closed.perform (builds.plain statement plain) rest

theorem require (builds : Assembles C) (condition : Bool) (error : RuntimeError) :
    C (Store.require condition error) := by
  unfold Store.require
  split
  · exact builds.ret ()
  · exact builds.raise error

theorem when (builds : Assembles C) {condition : Bool} {body : Transaction Unit} (yes : C body) :
    C (Store.when condition body) := by
  unfold Store.when
  split
  · exact yes
  · exact builds.ret ()

theorem accept (builds : Assembles C) (result : Except Violation β) : C (Store.accept result) := by
  cases result
  · exact builds.raise _
  · exact builds.ret _

/-! ### Events and the ends of operations -/

theorem expireOperation (builds : Assembles C) (spec : OperationSpec) (observedAt : Time) :
    C (Store.expireOperation env spec observedAt) := by
  unfold Store.expireOperation
  split
  · exact builds.ret false
  · exact builds.bind (builds.terminal _ _ _ _ rfl) fun _ => builds.ret true

theorem terminalAll (builds : Assembles C) (operationIds : List String) (state : OperationState)
    (reason : String) (failed : state.failing = true) :
    C (Store.terminalAll env operationIds state reason) :=
  builds.closed.forEach fun _ => builds.terminal _ _ _ _ failed

/-! ### Owners and admission -/

theorem registerOwner (builds : Assembles C) (ownerId bootGeneration : String) :
    C (Store.registerOwner env ownerId bootGeneration) := by
  unfold Store.registerOwner
  simp only [Tx.bind_eq, Tx.stmt_bind]
  exact builds.perform trivial fun _ => builds.require ..

theorem heartbeatOwner (builds : Assembles C) (ownerId bootGeneration : String) :
    C (Store.heartbeatOwner env ownerId bootGeneration) := by
  unfold Store.heartbeatOwner
  simp only [Tx.bind_eq, Tx.stmt_bind]
  exact builds.perform trivial fun _ => builds.require ..

theorem insertRoot (builds : Assembles C) (spec : RootSpec) (limits : Authority) :
    C (Store.insertRoot env spec limits) := by
  unfold Store.insertRoot
  simp only [Tx.bind_eq, Tx.stmt_bind]
  exact builds.perform trivial fun _ => builds.bind (builds.require ..) fun _ =>
    builds.bind (builds.require ..) fun _ => builds.perform ⟨rfl, rfl, rfl⟩ fun _ =>
    builds.bind (builds.accept _) fun _ => builds.closed.forEach fun _ =>
    builds.perform trivial fun _ => builds.accept _

theorem root (builds : Assembles C) (spec : RootSpec) : C (Store.root env spec) := by
  unfold Store.root
  simp only [Tx.bind_eq, Tx.stmt_bind]
  refine builds.perform trivial fun existing => ?_
  cases existing with
  | some existing => exact builds.require ..
  | none =>
    refine builds.perform trivial fun limits => builds.perform trivial fun existing => ?_
    cases existing with
    | some existing => exact builds.require ..
    | none => exact builds.insertRoot spec limits

theorem configurePool (builds : Assembles C) (spec : PoolSpec) (groupCeiling : ℤ)
    (group : C (PoolSql.configureGroup spec.groupId groupCeiling).run)
    (write : C (PoolSql.configure spec).run) : C (Store.configurePool spec groupCeiling) := by
  unfold Store.configurePool
  simp only [Tx.bind_eq, Tx.stmt_bind]
  exact builds.bind (builds.require ..) fun _ => builds.closed.perform group fun _ =>
    builds.perform trivial fun _ => builds.bind
      (builds.when (builds.perform trivial fun _ => builds.require ..)) fun _ =>
    builds.closed.perform write fun _ => builds.ret ()

theorem acceptsUnit (builds : Assembles C) (root : RootRow) (unit : BudgetUnit) :
    C (Store.acceptsUnit root unit) := by
  cases unit
  · exact builds.ret ()
  · exact builds.require ..

theorem admitOperation (builds : Assembles C) (spec : OperationSpec) (root : RootRow)
    (insert : ∀ row : OperationRow, row.Fresh → C (OperationSql.insert row).run) :
    C (Store.admitOperation env spec root) := by
  unfold Store.admitOperation
  simp only [Tx.bind_eq, Tx.stmt_bind]
  exact builds.bind (builds.require ..) fun _ => builds.bind (builds.acceptsUnit ..) fun _ =>
    builds.perform trivial fun _ => builds.perform trivial fun _ =>
    builds.perform trivial fun _ => builds.perform trivial fun _ =>
    builds.bind (builds.require ..) fun _ => builds.bind (builds.require ..) fun _ =>
    builds.bind (insert _ ⟨rfl, rfl, rfl, rfl⟩) fun _ => builds.bind (builds.accept _) fun _ =>
    builds.perform trivial fun _ => builds.bind (builds.expireOperation ..) fun _ => builds.ret _

theorem submitOperation (builds : Assembles C) (spec : OperationSpec)
    (insert : ∀ row : OperationRow, row.Fresh → C (OperationSql.insert row).run) :
    C (Store.submitOperation sha256 env spec) := by
  unfold Store.submitOperation
  simp only [Tx.bind_eq, Tx.stmt_bind]
  refine builds.bind (builds.require ..) fun _ => builds.perform trivial fun _ =>
    builds.perform trivial fun old => ?_
  cases old with
  | some old => exact builds.bind (builds.require ..) fun _ => builds.ret _
  | none =>
    refine builds.perform trivial fun root => ?_
    cases root with
    | none => exact builds.raise _
    | some root => exact builds.admitOperation spec root insert

/-! ### Reservation -/

theorem findBudget (builds : Assembles C) (spec : OperationSpec) (root : RootRow) :
    C (Store.findBudget spec root) := by
  unfold Store.findBudget
  split
  · exact builds.ret _
  · exact builds.perform trivial fun _ => builds.ret _

theorem lockBudget (builds : Assembles C) (spec : OperationSpec) (root : RootRow) :
    C (Store.lockBudget spec root) := by
  unfold Store.lockBudget
  split
  · exact builds.ret _
  · exact builds.perform trivial fun _ => builds.ret _

theorem reserve (builds : Assembles C) {pool : PoolRow} {ownerId : String} {candidate : Candidate}
    {root : RootRow} {op : OperationRow}
    (insert : ∀ row : AttemptRow, row.Fresh → C (AttemptSql.insert row).run)
    (execute : ∀ operationId attemptId, C (OperationSql.execute operationId attemptId).run) :
    C (Store.reserve env pool ownerId candidate root op) := by
  unfold Store.reserve
  simp only [Tx.bind_eq, Tx.stmt_bind]
  refine builds.perform trivial fun _ => ?_
  exact builds.bind (insert _ ⟨rfl, rfl, rfl, rfl, rfl⟩) fun _ =>
    builds.bind (builds.accept _) fun _ => builds.bind (execute ..) fun _ =>
    builds.perform trivial fun _ => builds.ret _

theorem tryCandidate (builds : Assembles C) {pool : PoolRow} {ownerId : String}
    {candidate : Candidate} {root : RootRow} {op : OperationRow}
    (reserve : C (Store.reserve env pool ownerId candidate root op)) :
    C (Store.tryCandidate env pool ownerId candidate root op) := by
  unfold Store.tryCandidate
  simp only [Tx.bind_eq, Tx.stmt_bind]
  refine builds.bind (builds.expireOperation ..) fun expired => ?_
  split
  · exact builds.ret _
  · split
    · exact builds.ret _
    · refine builds.bind (builds.findBudget ..) fun budget => ?_
      cases budget with
      | none => exact builds.bind (builds.terminal _ _ _ _ rfl) fun _ => builds.ret _
      | some budget =>
        dsimp only
        split
        · exact builds.bind (builds.terminal _ _ _ _ rfl) fun _ => builds.ret _
        · split
          · exact builds.perform trivial fun _ => builds.ret _
          · exact reserve

theorem reserveCandidate (builds : Assembles C) {pool : PoolRow} {ownerId : String}
    {candidate : Candidate}
    (reserve : ∀ root op, C (Store.reserve env pool ownerId candidate root op)) :
    C (Store.reserveCandidate env pool ownerId candidate) := by
  unfold Store.reserveCandidate
  simp only [Tx.bind_eq, Tx.stmt_bind]
  refine builds.perform trivial fun root => ?_
  cases root with
  | none => exact builds.ret _
  | some root =>
    dsimp only
    split
    · exact builds.ret _
    · refine builds.perform trivial fun op => ?_
      cases op with
      | none => exact builds.ret _
      | some op =>
        dsimp only
        split
        · exact builds.ret _
        · exact builds.tryCandidate (reserve root op)

theorem reserveNext (builds : Assembles C) (poolId ownerId : String)
    (candidate : ∀ pool candidate, C (Store.reserveCandidate env pool ownerId candidate)) :
    C (Store.reserveNext env poolId ownerId) := by
  have loop : ∀ pool candidates, C (Store.reserveFrom env pool ownerId candidates) := by
    intro pool candidates
    induction candidates with
    | nil => exact builds.ret _
    | cons first rest ih =>
      refine builds.bind (candidate pool first) fun reserved => ?_
      cases reserved with
      | none => exact ih
      | some reservation => exact builds.ret _
  unfold Store.reserveNext
  simp only [Tx.bind_eq, Tx.stmt_bind]
  refine builds.perform trivial fun pool => ?_
  cases pool with
  | none => exact builds.ret _
  | some pool =>
    dsimp only
    split
    · exact builds.ret _
    · refine builds.perform trivial fun group => ?_
      split
      · refine builds.perform trivial fun found => ?_
        cases found with
        | none => exact builds.raise _
        | some candidates => exact loop ..
      · exact builds.ret _

/-! ### The owner's side of an attempt -/

theorem owned (builds : Assembles C) (reservation : Reservation) : C (Store.owned reservation) := by
  unfold Store.owned
  simp only [Tx.bind_eq, Tx.stmt_bind]
  refine builds.perform trivial fun found => ?_
  cases found with
  | none => exact builds.raise _
  | some a => exact builds.bind (builds.require ..) fun _ => builds.ret a

theorem chargeBudget (builds : Assembles C) (rootId : String) (unit : BudgetUnit) (bound : ℤ)
    (charge : ∀ bound, C (RootSql.charge rootId bound).run) :
    C (Store.chargeBudget rootId unit bound) := by
  unfold Store.chargeBudget
  split
  · exact builds.bind (charge _) fun _ => builds.ret ()
  · exact builds.bind (charge _) fun _ => builds.perform trivial fun _ => builds.ret ()

theorem chargeSend (builds : Assembles C) (reservation : Reservation) (a : Joined)
    (deadline : Time) (count : ∀ operationId, C (OperationSql.countAttempt operationId).run)
    (charge : ∀ rootId bound, C (RootSql.charge rootId bound).run) :
    C (Store.chargeSend env reservation a deadline) := by
  unfold Store.chargeSend
  simp only [Tx.bind_eq, Tx.stmt_bind]
  refine builds.perform trivial fun root => ?_
  cases root with
  | none => exact builds.raise _
  | some root =>
    refine builds.perform trivial fun operation => ?_
    cases operation with
    | none => exact builds.raise _
    | some operation =>
      exact builds.bind (builds.require ..) fun _ => builds.bind (builds.require ..) fun _ =>
        builds.bind (builds.lockBudget ..) fun _ => builds.bind (builds.require ..) fun _ =>
        builds.bind (count _) fun _ => builds.chargeBudget _ _ _ (charge _)

theorem leaseAlive (builds : Assembles C) (reservation : Reservation) (a : Joined) :
    C (Store.leaseAlive env reservation a) := by
  unfold Store.leaseAlive
  split
  · exact builds.plain _ trivial
  · exact builds.ret true

theorem markSend (builds : Assembles C) (reservation : Reservation)
    (sendIntent : C (AttemptSql.sendIntent reservation.attemptId env.now).run)
    (chargeSend : ∀ a deadline, C (Store.chargeSend env reservation a deadline)) :
    C (Store.markSend env reservation) := by
  unfold Store.markSend
  exact builds.bind (builds.owned reservation) fun a => builds.bind (builds.require ..) fun _ =>
    builds.bind (builds.leaseAlive reservation a) fun _ => builds.bind (builds.require ..) fun _ =>
    builds.bind (builds.when (chargeSend ..)) fun _ =>
    builds.bind sendIntent fun _ => builds.ret ()

theorem heartbeat (builds : Assembles C) (reservation : Reservation) :
    C (Store.heartbeat env reservation) := by
  unfold Store.heartbeat
  refine builds.bind (builds.owned reservation) fun a => ?_
  split
  · simp only [Tx.bind_eq, Tx.stmt_bind]
    exact builds.perform trivial fun _ => builds.bind
      (builds.when (builds.perform trivial fun _ => builds.ret ())) fun _ => builds.ret _
  · exact builds.ret false

theorem computeFinished (builds : Assembles C) (reservation : Reservation)
    (backendFinished : C (AttemptSql.backendFinished reservation.attemptId env.now).run) :
    C (Store.computeFinished env reservation) := by
  unfold Store.computeFinished
  refine builds.bind (builds.owned reservation) fun a => ?_
  split
  · exact builds.ret ()
  · exact builds.bind backendFinished fun _ => builds.ret ()

theorem settleBudget (builds : Assembles C) (a : AttemptRow) (rootId : String) (charged : ℤ) :
    C (Store.settleBudget a rootId charged) := by
  unfold Store.settleBudget
  simp only [Tx.bind_eq, Tx.stmt_bind]
  split
  · exact builds.perform trivial fun _ => builds.bind (builds.accept _) fun _ => builds.ret _
  · exact builds.perform trivial fun _ => builds.bind (builds.accept _) fun _ => builds.ret _

theorem settle (builds : Assembles C) (a : AttemptRow) (rootId : String) (usage : Option ℤ) :
    C (Store.settle env a rootId usage) := by
  unfold Store.settle
  split
  · exact builds.ret ()
  · simp only [Tx.bind_eq, Tx.stmt_bind]
    refine builds.bind (builds.require ..) fun _ => builds.perform trivial fun _ =>
      builds.bind (builds.settleBudget ..) fun budget => ?_
    cases budget with
    | none => exact builds.raise _
    | some budget =>
      exact builds.bind (builds.when (builds.perform trivial fun _ => builds.ret ())) fun _ =>
        builds.when (builds.perform trivial fun _ => builds.ret ())

theorem insertArtifacts (builds : Assembles C) (a : Joined) (disposition : Disposition)
    (artifacts : List Artifact) (insert : ∀ row, C (OtherSql.insertArtifact row).run) :
    C (Store.insertArtifacts sha256 a disposition artifacts) :=
  builds.closed.forEach fun _ => builds.bind (builds.require ..) fun _ =>
    builds.bind (insert _) fun _ => builds.accept _

theorem commitFinished (builds : Assembles C) (a : Joined) (artifact : Artifact)
    (usage : Option ℤ) (attachments : List Artifact)
    (insert : ∀ row, C (OtherSql.insertArtifact row).run)
    (resultCommitted : C (AttemptSql.resultCommitted a.attempt.attemptId env.now).run)
    (decide : ∀ cancelled terminated, (a.operation.state.terminal = true → terminated = true) →
      C (Store.decideResult env a.attempt.operationId artifact cancelled terminated)) :
    C (Store.commitFinished sha256 env a artifact usage attachments) := by
  unfold Store.commitFinished
  refine builds.bind (builds.expireOperation ..) fun expired =>
    builds.bind (builds.insertArtifacts _ _ _ insert) fun _ =>
    builds.bind (builds.settle ..) fun _ => builds.bind resultCommitted fun _ => decide _ _ ?_
  exact fun ended => by rw [ended, Bool.or_true]

theorem commitResult (builds : Assembles C) (reservation : Reservation) (artifact : Artifact)
    (usage : Option ℤ) (attachments : List Artifact)
    (finished : ∀ a, C (Store.commitFinished sha256 env a artifact usage attachments)) :
    C (Store.commitResult sha256 env reservation artifact usage attachments) := by
  unfold Store.commitResult
  refine builds.bind (builds.owned reservation) fun a => ?_
  split
  · simp only [Tx.bind_eq, Tx.stmt_bind]
    exact builds.perform trivial fun _ => builds.require ..
  · exact builds.bind (builds.require ..) fun _ => finished a

theorem unknown (builds : Assembles C) (reservation : Reservation) (reason : String)
    (unknown : ∀ attemptId, C (AttemptSql.unknown attemptId env.now reason).run)
    (back : ∀ {β : Type} (statement : OperationSql β), statement.PutsBack → C statement.run) :
    C (Store.unknown env reservation reason) := by
  unfold Store.unknown
  refine builds.bind (builds.owned reservation) fun a => ?_
  split
  · exact builds.ret ()
  · exact builds.bind (unknown _) fun _ => builds.bind (builds.expireOperation ..) fun _ =>
      builds.when (builds.bind (back _ trivial) fun _ => builds.ret ())

theorem failOperation (builds : Assembles C) (a : Joined) (reason : String) (retry : Bool)
    (delay : Time) (back : a.operation.state.terminal = false → ∀ at_,
      C (OperationSql.retry a.attempt.operationId reason at_).run) :
    C (Store.failOperation env a reason retry delay) := by
  unfold Store.failOperation
  split
  · exact builds.ret ()
  · next open_ =>
    split
    · exact builds.terminal _ _ _ _ rfl
    · split
      · exact builds.terminal _ _ _ _ rfl
      · refine builds.bind (builds.expireOperation ..) fun expired => ?_
        split
        · exact builds.ret ()
        · split
          · exact builds.bind (back (eq_false_of_ne_true open_) _) fun _ => builds.ret ()
          · exact builds.terminal _ _ _ _ rfl

theorem fail (builds : Assembles C) (reservation : Reservation) (reason : String)
    (notSent retry : Bool) (delay : Time)
    (fail : ∀ attemptId state, state = .failedNotSent ∨ state = .failed →
      C (AttemptSql.fail attemptId state reason).run)
    (back : ∀ {β : Type} (statement : OperationSql β), statement.PutsBack → C statement.run) :
    C (Store.fail env reservation reason notSent retry delay) := by
  unfold Store.fail
  refine builds.bind (builds.owned reservation) fun a => ?_
  split
  · exact builds.ret ()
  · exact builds.bind (builds.require ..) fun _ => builds.bind (builds.settle ..) fun _ =>
      builds.bind (fail _ _ (by cases notSent <;> simp)) fun _ =>
      builds.failOperation _ _ _ _ fun _ _ => back _ trivial

/-! ### Roots, bindings and events -/

theorem finishRoot (builds : Assembles C) (rootId : String) (state : RootState)
    (result : Option Artifact) (reason : Option String)
    (finish : ∀ at_, C (RootSql.finish rootId at_ state result reason).run) :
    C (Store.finishRoot env rootId state result reason) := by
  unfold Store.finishRoot
  simp only [Tx.bind_eq, Tx.stmt_bind]
  refine builds.perform trivial fun _ => builds.bind (builds.require ..) fun _ =>
    builds.closed.perform (finish _) fun finished => ?_
  cases finished with
  | none => exact builds.raise _
  | some finished =>
    dsimp only
    split
    · exact builds.ret ()
    · exact builds.perform trivial fun _ => builds.terminalAll _ _ _ rfl

theorem finishRun (builds : Assembles C) (rootId tenantId : String) (state : RootState)
    (result : Option Artifact) (reason : Option String)
    (cancel : C (Store.cancel env rootId tenantId))
    (finish : ∀ state result reason, C (Store.finishRoot env rootId state result reason)) :
    C (Store.finishRun sha256 env rootId tenantId state result reason) := by
  unfold Store.finishRun
  split
  · exact builds.bind (builds.require ..) fun _ => cancel
  · simp only [Tx.bind_eq, Tx.stmt_bind]
    refine builds.bind (builds.require ..) fun _ => builds.bind (builds.require ..) fun _ =>
      builds.bind (builds.require ..) fun _ => builds.perform trivial fun root => ?_
    cases root with
    | none => exact builds.raise _
    | some root =>
      dsimp only
      split
      · exact builds.require ..
      · split
        · exact finish ..
        · exact finish ..

theorem delivered (builds : Assembles C) (eventId : EventId) (ownerId : String)
    (deliveryNumber : ℕ)
    (deliver : C (OutboxSql.delivered eventId ownerId deliveryNumber env.now).run) :
    C (Store.delivered env eventId ownerId deliveryNumber) :=
  builds.bind deliver fun _ => builds.ret _

theorem deferEvent (builds : Assembles C) (eventId : EventId) (ownerId : String)
    (deliveryNumber : ℕ) (delay : Time)
    (defer : C (OutboxSql.defer_ eventId ownerId deliveryNumber env.now delay).run) :
    C (Store.deferEvent env eventId ownerId deliveryNumber delay) :=
  builds.bind (builds.require ..) fun _ => builds.bind defer fun _ => builds.ret _

/-! ### Recovery and engines -/

theorem reconcileAttempt (builds : Assembles C) (a : Expired)
    (neverSent : ∀ attemptId, C (AttemptSql.neverSent attemptId).run)
    (lost : ∀ attemptId, C (AttemptSql.lost attemptId env.now).run) :
    C (Store.reconcileAttempt env a) := by
  unfold Store.reconcileAttempt
  split
  · exact builds.bind (builds.settle ..) fun _ => builds.bind (neverSent _) fun _ =>
      builds.perform trivial fun _ => builds.ret ()
  · exact builds.bind (lost _) fun _ => builds.perform trivial fun _ => builds.ret ()

theorem reconcile (builds : Assembles C)
    (neverSent : ∀ attemptId, C (AttemptSql.neverSent attemptId).run)
    (lost : ∀ attemptId, C (AttemptSql.lost attemptId env.now).run) :
    C (Store.reconcile env) := by
  unfold Store.reconcile
  simp only [Tx.bind_eq, Tx.stmt_bind]
  refine builds.perform trivial fun _ => builds.perform trivial fun _ =>
    builds.perform trivial fun _ => builds.perform trivial fun _ =>
    builds.bind (builds.terminalAll _ _ _ rfl) fun _ => builds.perform trivial fun _ =>
    builds.bind (builds.closed.forEach fun a => builds.reconcileAttempt a neverSent lost) fun _ =>
    builds.perform trivial fun _ => builds.bind (builds.terminalAll _ _ _ rfl) fun _ =>
    builds.perform trivial fun _ => builds.perform trivial fun _ =>
    builds.bind (builds.closed.forEach fun op => ?_) fun _ => builds.perform trivial fun _ =>
    builds.perform trivial fun _ => builds.bind (builds.terminalAll _ _ _ rfl) fun _ => builds.ret _
  split
  · exact builds.terminal _ _ _ _ rfl
  · exact builds.ret ()

theorem stopOperation (builds : Assembles C) (a : Joined) (recover : Bool)
    (errorClass retryReason : String)
    (back : C (OperationSql.recover a.attempt.operationId a.attempt.attemptId retryReason
      env.now).run) :
    C (Store.stopOperation env a recover errorClass retryReason) := by
  unfold Store.stopOperation
  simp only [Tx.bind_eq, Tx.stmt_bind]
  refine builds.perform trivial fun root => ?_
  cases root with
  | none => exact builds.raise _
  | some root =>
    refine builds.bind (builds.lockBudget ..) fun budget => ?_
    split
    · exact builds.bind back fun _ => builds.ret ()
    · exact builds.terminal _ _ _ _ rfl

theorem settleStoppedAttempt (builds : Assembles C) (recover : Bool)
    (errorClass retryReason : String) (a : Joined)
    (stopped : ∀ attemptId, C (AttemptSql.stopped attemptId env.now errorClass).run)
    (back : a.operation.state.terminal = false → C (OperationSql.recover a.attempt.operationId
      a.attempt.attemptId retryReason env.now).run) :
    C (Store.settleStoppedAttempt env recover errorClass retryReason a) := by
  unfold Store.settleStoppedAttempt
  refine builds.bind (builds.settle ..) fun _ => builds.bind (stopped _) fun _ => ?_
  split
  · exact builds.ret ()
  · next open_ => exact builds.stopOperation _ _ _ _ (back (eq_false_of_ne_true open_))

theorem lostResults (builds : Assembles C) : C (Store.lostResults env) :=
  builds.plain _ trivial

theorem settleLostResult (builds : Assembles C) (attemptId : String)
    (stopped : ∀ attemptId errorClass, C (AttemptSql.stopped attemptId env.now errorClass).run)
    (back : ∀ {β : Type} (statement : OperationSql β), statement.PutsBack → C statement.run) :
    C (Store.settleLostResult env attemptId) := by
  unfold Store.settleLostResult
  simp only [Tx.bind_eq, Tx.stmt_bind]
  refine builds.perform trivial fun found => ?_
  cases found with
  | none => exact builds.ret false
  | some a =>
    exact builds.bind (builds.settleStoppedAttempt _ _ _ _ (fun _ => stopped ..) fun _ =>
      back _ trivial) fun _ => builds.ret true

theorem quiesceEngine (builds : Assembles C) (poolId engineEpoch token : String) :
    C (Store.quiesceEngine poolId engineEpoch token) := by
  unfold Store.quiesceEngine
  simp only [Tx.bind_eq, Tx.stmt_bind]
  refine builds.bind (builds.require ..) fun _ => builds.perform trivial fun pool => ?_
  cases pool with
  | none => exact builds.raise _
  | some pool =>
    refine builds.bind (builds.require ..) fun _ => builds.bind (builds.require ..) fun _ => ?_
    split
    · exact builds.ret ()
    · exact builds.bind (builds.require ..) fun _ => builds.perform trivial fun _ => builds.ret ()

theorem resumeEngine (builds : Assembles C) (poolId engineEpoch token : String)
    (resume : ∀ target, C (PoolSql.resume poolId engineEpoch target).run) :
    C (Store.resumeEngine poolId engineEpoch token) := by
  unfold Store.resumeEngine
  simp only [Tx.bind_eq, Tx.stmt_bind]
  refine builds.bind (builds.require ..) fun _ => builds.perform trivial fun pool => ?_
  cases pool with
  | none => exact builds.raise _
  | some pool =>
    refine builds.bind (builds.require ..) fun _ => ?_
    split
    · exact builds.ret ()
    · exact builds.bind (builds.require ..) fun _ => builds.perform trivial fun _ =>
        builds.bind (builds.require ..) fun _ => builds.bind (resume _) fun _ => builds.ret ()

theorem confirmEpochStopped (builds : Assembles C) (poolId engineEpoch : String)
    (evidence : Store.Evidence) (recover : Bool)
    (stopped : ∀ attemptId errorClass, C (AttemptSql.stopped attemptId env.now errorClass).run)
    (back : ∀ {β : Type} (statement : OperationSql β), statement.PutsBack → C statement.run) :
    C (Store.confirmEpochStopped env poolId engineEpoch evidence recover) := by
  unfold Store.confirmEpochStopped
  cases Store.checkEvidence poolId engineEpoch evidence recover with
  | error error => exact builds.raise _
  | ok accepted =>
    simp only [Tx.bind_eq, Tx.stmt_bind]
    refine builds.perform trivial fun pool => ?_
    cases pool with
    | none => exact builds.raise _
    | some pool =>
      exact builds.bind (builds.require ..) fun _ => builds.bind (builds.require ..) fun _ =>
        builds.perform trivial fun _ => builds.perform trivial fun _ =>
        builds.perform trivial fun _ => builds.bind (builds.closed.forEach fun _ =>
          builds.settleStoppedAttempt _ _ _ _ (fun _ => stopped ..) fun _ =>
            back _ trivial) fun _ =>
        builds.perform trivial fun _ => builds.bind (builds.accept _) fun _ => builds.ret _

theorem settleIdleUnknown (builds : Assembles C) (poolId engineEpoch : String) (idleSince : Time)
    (attemptIds : List String)
    (stopped : ∀ attemptId errorClass, C (AttemptSql.stopped attemptId env.now errorClass).run)
    (back : ∀ {β : Type} (statement : OperationSql β), statement.PutsBack → C statement.run) :
    C (Store.settleIdleUnknown env poolId engineEpoch idleSince attemptIds) := by
  unfold Store.settleIdleUnknown
  simp only [Tx.bind_eq, Tx.stmt_bind]
  refine builds.perform trivial fun pool => ?_
  cases pool with
  | none => exact builds.ret 0
  | some pool =>
    dsimp only
    split
    · exact builds.ret 0
    · exact builds.perform trivial fun _ => builds.perform trivial fun _ =>
        builds.bind (builds.closed.forEach fun _ =>
          builds.settleStoppedAttempt _ _ _ _ (fun _ => stopped ..) fun _ =>
            back _ trivial) fun _ => builds.ret _

theorem updateTarget (builds : Assembles C) (poolId : String) (target : ℤ) (version : ℕ)
    (reason : String) : C (Store.updateTarget env poolId target version reason) := by
  unfold Store.updateTarget
  simp only [Tx.bind_eq, Tx.stmt_bind]
  refine builds.perform trivial fun pool => ?_
  cases pool with
  | none => exact builds.raise _
  | some pool =>
    exact builds.bind (builds.require ..) fun _ => builds.bind (builds.require ..) fun _ =>
      builds.perform trivial fun _ => builds.perform trivial fun _ => builds.accept _

theorem reply (builds : Assembles C) {wrap : α → Reply} {p : Transaction α} (holds : C p) :
    C (Store.reply wrap p) :=
  builds.bind holds fun _ => builds.ret _

/-- The property holds of every method, once it holds of those that are assembled from
more than plain statements. -/
theorem call (builds : Assembles C) (asked : Call)
    (submitRun : ∀ spec key inputDigest run, C (Store.submitRun env spec key inputDigest run))
    (cancel : ∀ rootId tenantId, asked = .cancel rootId tenantId →
      C (Store.cancel env rootId tenantId))
    (configurePool : ∀ spec groupCeiling, asked = .configurePool spec groupCeiling →
      C (Store.configurePool spec groupCeiling))
    (resumeEngine : ∀ poolId engineEpoch token, asked = .resumeEngine poolId engineEpoch token →
      C (Store.resumeEngine poolId engineEpoch token))
    (submitOperation : ∀ spec, C (Store.submitOperation sha256 env spec))
    (reserveNext : ∀ poolId ownerId, asked = .reserveNext poolId ownerId →
      C (Store.reserveNext env poolId ownerId))
    (markSend : ∀ reservation, asked = .markSend reservation → C (Store.markSend env reservation))
    (computeFinished : ∀ reservation, C (Store.computeFinished env reservation))
    (commitResult : ∀ reservation artifact usage attachments,
      asked = .commitResult reservation artifact usage attachments →
        C (Store.commitResult sha256 env reservation artifact usage attachments))
    (unknown : ∀ reservation reason, asked = .unknown reservation reason →
      C (Store.unknown env reservation reason))
    (fail : ∀ reservation reason notSent retry delay,
      asked = .fail reservation reason notSent retry delay →
        C (Store.fail env reservation reason notSent retry delay))
    (finishRun : ∀ rootId tenantId state result reason,
      asked = .finishRun rootId tenantId state result reason →
        C (Store.finishRun sha256 env rootId tenantId state result reason))
    (bindCompletion : ∀ operationId tenantId taskToken,
      C (Store.bindCompletion sha256 env operationId tenantId taskToken))
    (reconcile : C (Store.reconcile env))
    (settleLostResult : ∀ attemptId, asked = .settleLostResult attemptId →
      C (Store.settleLostResult env attemptId))
    (confirmEpochStopped : ∀ poolId engineEpoch evidence recover,
      asked = .confirmEpochStopped poolId engineEpoch evidence recover →
        C (Store.confirmEpochStopped env poolId engineEpoch evidence recover))
    (settleIdleUnknown : ∀ poolId engineEpoch idleSince attemptIds,
      asked = .settleIdleUnknown poolId engineEpoch idleSince attemptIds →
        C (Store.settleIdleUnknown env poolId engineEpoch idleSince attemptIds))
    (mail : asked.mails = true → ∀ {β : Type} (statement : OutboxSql β), C statement.run) :
    C (asked.code sha256 env) := by
  cases asked with
  | registerOwner => exact builds.reply (builds.registerOwner ..)
  | heartbeatOwner => exact builds.reply (builds.heartbeatOwner ..)
  | createRoot spec => exact builds.reply (builds.root spec)
  | submitRun => exact builds.reply (submitRun ..)
  | configurePool => exact builds.reply (configurePool _ _ rfl)
  | submitOperation => exact builds.reply (submitOperation _)
  | reserveNext => exact builds.reply (reserveNext _ _ rfl)
  | markSend => exact builds.reply (markSend _ rfl)
  | heartbeat => exact builds.reply (builds.heartbeat _)
  | computeFinished => exact builds.reply (computeFinished _)
  | commitResult => exact builds.reply (commitResult _ _ _ _ rfl)
  | unknown => exact builds.reply (unknown _ _ rfl)
  | fail => exact builds.reply (fail _ _ _ _ _ rfl)
  | cancel => exact builds.reply (cancel _ _ rfl)
  | finishRun => exact builds.reply (finishRun _ _ _ _ _ rfl)
  | bindCompletion => exact builds.reply (bindCompletion ..)
  | claimEvents => exact builds.reply (mail rfl _)
  | delivered => exact builds.reply (builds.delivered _ _ _ (mail rfl _))
  | deferEvent => exact builds.reply (builds.deferEvent _ _ _ _ (mail rfl _))
  | reconcile => exact builds.reply reconcile
  | lostResults => exact builds.reply builds.lostResults
  | settleLostResult => exact builds.reply (settleLostResult _ rfl)
  | quiesceEngine => exact builds.reply (builds.quiesceEngine ..)
  | resumeEngine => exact builds.reply (resumeEngine _ _ _ rfl)
  | confirmEpochStopped => exact builds.reply (confirmEpochStopped _ _ _ _ rfl)
  | settleIdleUnknown => exact builds.reply (settleIdleUnknown _ _ _ _ rfl)
  | updateTarget => exact builds.reply (builds.updateTarget ..)

/-- The property holds of every method that is assembled from plain statements,
statements on attempts, and those that count attempts or record artifacts, once it holds
of these. -/
theorem call_of_moves (builds : Assembles C) (asked : Call)
    (submitRun : ∀ spec key inputDigest run, C (Store.submitRun env spec key inputDigest run))
    (cancel : ∀ rootId tenantId, asked = .cancel rootId tenantId →
      C (Store.cancel env rootId tenantId))
    (configurePool : ∀ spec groupCeiling, asked = .configurePool spec groupCeiling →
      C (Store.configurePool spec groupCeiling))
    (resumeEngine : ∀ poolId engineEpoch token, asked = .resumeEngine poolId engineEpoch token →
      C (Store.resumeEngine poolId engineEpoch token))
    (submitOperation : ∀ spec, C (Store.submitOperation sha256 env spec))
    (moves : ∀ {β : Type} (statement : AttemptSql β), C statement.run)
    (count : ∀ operationId, C (OperationSql.countAttempt operationId).run)
    (charge : ∀ rootId bound, C (RootSql.charge rootId bound).run)
    (insert : ∀ row, C (OtherSql.insertArtifact row).run)
    (reserveNext : ∀ poolId ownerId, asked = .reserveNext poolId ownerId →
      C (Store.reserveNext env poolId ownerId))
    (back : asked.settles = true → ∀ {β : Type} (statement : OperationSql β),
      statement.PutsBack → C statement.run)
    (decideResult : asked.settles = true → ∀ operationId artifact cancelled terminated,
      C (Store.decideResult env operationId artifact cancelled terminated))
    (finishRun : ∀ rootId tenantId state result reason,
      asked = .finishRun rootId tenantId state result reason →
        C (Store.finishRun sha256 env rootId tenantId state result reason))
    (bindCompletion : ∀ operationId tenantId taskToken,
      C (Store.bindCompletion sha256 env operationId tenantId taskToken))
    (mail : asked.mails = true → ∀ {β : Type} (statement : OutboxSql β), C statement.run) :
    C (asked.code sha256 env) :=
  builds.call asked submitRun cancel configurePool resumeEngine submitOperation reserveNext
    (fun _ _ => builds.markSend _ (moves _) fun _ _ => builds.chargeSend _ _ _ count charge)
    (fun _ => builds.computeFinished _ (moves _))
    (fun _ _ _ _ here => builds.commitResult _ _ _ _ fun _ =>
      builds.commitFinished _ _ _ _ insert (moves _) fun _ _ _ =>
        decideResult (by rw [here]; rfl) _ _ _ _)
    (fun _ _ here => builds.unknown _ _ (fun _ => moves _) (back (by rw [here]; rfl)))
    (fun _ _ _ _ _ here => builds.fail _ _ _ _ _ (fun _ _ _ => moves _)
      (back (by rw [here]; rfl)))
    finishRun bindCompletion (builds.reconcile (fun _ => moves _) fun _ => moves _)
    (fun _ here => builds.settleLostResult _ (fun _ _ => moves _) (back (by rw [here]; rfl)))
    (fun _ _ _ _ here => builds.confirmEpochStopped _ _ _ _ (fun _ _ => moves _)
      (back (by rw [here]; rfl)))
    (fun _ _ _ _ here => builds.settleIdleUnknown _ _ _ _ (fun _ _ => moves _)
      (back (by rw [here]; rfl)))
    mail

end Assembles

namespace Builds

variable {C : ∀ {α : Type}, Transaction α → Prop} {α β : Type} {sha256 : String → String}
  {env : Env}

/-- The property holds of `_terminal` if it holds of its first statement. -/
theorem of_terminal (closed : Tx.Closed C)
    (plain : ∀ {β : Type} (statement : Sql β), statement.Ordinary → C (Tx.stmt statement))
    (ends : ∀ operationId state reason, state.failing = true →
      C (OperationSql.terminal operationId state reason).run) :
    Builds C where
  closed := closed
  plain statement isPlain := plain statement isPlain.ordinary
  terminal _ _ _ _ failed :=
    closed.perform (ends _ _ _ failed) fun _ => closed.perform (plain _ trivial) fun _ =>
      closed.forEach fun _ => plain _ ⟨rfl, rfl, rfl, rfl⟩
  post row fresh := plain (.outbox (.insert row)) fresh

theorem event (builds : Builds C) (eventId : EventId) (kind : EventKind) (aggregateId : String)
    (payload : EventPayload) : C (Store.event env eventId kind aggregateId payload) :=
  builds.post _ ⟨rfl, rfl, rfl, rfl⟩

theorem completionEvents (builds : Builds C) (operationId : String) :
    C (Store.completionEvents env operationId) := by
  unfold Store.completionEvents
  simp only [Tx.bind_eq, Tx.stmt_bind]
  exact builds.perform trivial fun _ => builds.closed.forEach fun _ => builds.event ..

theorem submitRun (builds : Builds C) (spec : RootSpec) (key inputDigest : String)
    (run : RunSpec) : C (Store.submitRun env spec key inputDigest run) := by
  unfold Store.submitRun
  simp only [Tx.bind_eq, Tx.stmt_bind]
  refine builds.perform trivial fun _ => builds.perform trivial fun old => ?_
  cases old with
  | some old => exact builds.bind (builds.require ..) fun _ => builds.ret _
  | none =>
    exact builds.bind (builds.root spec) fun _ => builds.perform trivial fun _ =>
      builds.bind (builds.accept _) fun _ => builds.bind (builds.event ..) fun _ => builds.ret _

theorem decideResult (builds : Builds C) (operationId : String) (artifact : Artifact)
    (cancelled terminated : Bool) (succeed : C (OperationSql.succeed operationId artifact).run) :
    C (Store.decideResult env operationId artifact cancelled terminated) := by
  unfold Store.decideResult
  exact builds.bind (builds.when (builds.bind succeed fun _ => builds.ret ())) fun _ =>
    builds.bind (builds.when (builds.terminal _ _ _ _ rfl)) fun _ => builds.completionEvents _

theorem cancel (builds : Builds C) (rootId tenantId : String)
    (cancels : C (RootSql.cancel rootId env.now).run) :
    C (Store.cancel env rootId tenantId) := by
  unfold Store.cancel
  simp only [Tx.bind_eq, Tx.stmt_bind]
  refine builds.perform trivial fun root => ?_
  cases root with
  | none => exact builds.raise _
  | some root =>
    dsimp only
    split
    · exact builds.ret ()
    · exact builds.closed.perform cancels fun _ => builds.perform trivial fun _ =>
        builds.bind (builds.terminalAll _ _ _ rfl) fun _ => builds.event ..

theorem finishRun (builds : Builds C) (rootId tenantId : String) (state : RootState)
    (result : Option Artifact) (reason : Option String)
    (cancels : C (RootSql.cancel rootId env.now).run)
    (finish : ∀ state result reason, C (Store.finishRoot env rootId state result reason)) :
    C (Store.finishRun sha256 env rootId tenantId state result reason) :=
  builds.toAssembles.finishRun _ _ _ _ _ (builds.cancel _ _ cancels) finish

theorem bindCompletion (builds : Builds C) (operationId tenantId taskToken : String)
    (insert : ∀ row, C (BindingSql.insert row).run) :
    C (Store.bindCompletion sha256 env operationId tenantId taskToken) := by
  unfold Store.bindCompletion
  simp only [Tx.bind_eq, Tx.stmt_bind]
  refine builds.perform trivial fun op => ?_
  cases op with
  | none => exact builds.raise _
  | some op =>
    exact builds.closed.perform (insert _) fun _ => builds.when (builds.completionEvents _)

/-- The property holds of every method, once it holds of those that are assembled from
more than plain statements. -/
theorem call (builds : Builds C) (asked : Call)
    (cancels : ∀ rootId, C (RootSql.cancel rootId env.now).run)
    (configurePool : ∀ spec groupCeiling, asked = .configurePool spec groupCeiling →
      C (Store.configurePool spec groupCeiling))
    (resumeEngine : ∀ poolId engineEpoch token, asked = .resumeEngine poolId engineEpoch token →
      C (Store.resumeEngine poolId engineEpoch token))
    (submitOperation : ∀ spec, C (Store.submitOperation sha256 env spec))
    (reserveNext : ∀ poolId ownerId, asked = .reserveNext poolId ownerId →
      C (Store.reserveNext env poolId ownerId))
    (markSend : ∀ reservation, asked = .markSend reservation → C (Store.markSend env reservation))
    (computeFinished : ∀ reservation, C (Store.computeFinished env reservation))
    (commitResult : ∀ reservation artifact usage attachments,
      asked = .commitResult reservation artifact usage attachments →
        C (Store.commitResult sha256 env reservation artifact usage attachments))
    (unknown : ∀ reservation reason, asked = .unknown reservation reason →
      C (Store.unknown env reservation reason))
    (fail : ∀ reservation reason notSent retry delay,
      asked = .fail reservation reason notSent retry delay →
        C (Store.fail env reservation reason notSent retry delay))
    (finishRun : ∀ rootId tenantId state result reason,
      asked = .finishRun rootId tenantId state result reason →
        C (Store.finishRun sha256 env rootId tenantId state result reason))
    (bindCompletion : ∀ operationId tenantId taskToken,
      C (Store.bindCompletion sha256 env operationId tenantId taskToken))
    (reconcile : C (Store.reconcile env))
    (settleLostResult : ∀ attemptId, asked = .settleLostResult attemptId →
      C (Store.settleLostResult env attemptId))
    (confirmEpochStopped : ∀ poolId engineEpoch evidence recover,
      asked = .confirmEpochStopped poolId engineEpoch evidence recover →
        C (Store.confirmEpochStopped env poolId engineEpoch evidence recover))
    (settleIdleUnknown : ∀ poolId engineEpoch idleSince attemptIds,
      asked = .settleIdleUnknown poolId engineEpoch idleSince attemptIds →
        C (Store.settleIdleUnknown env poolId engineEpoch idleSince attemptIds))
    (mail : asked.mails = true → ∀ {β : Type} (statement : OutboxSql β), C statement.run) :
    C (asked.code sha256 env) :=
  builds.toAssembles.call asked (fun _ _ _ _ => builds.submitRun ..)
    (fun _ _ _ => builds.cancel _ _ (cancels _)) configurePool resumeEngine submitOperation
    reserveNext markSend computeFinished commitResult unknown fail finishRun bindCompletion reconcile settleLostResult
    confirmEpochStopped settleIdleUnknown mail

/-- The property holds of every method that is assembled from plain statements,
statements on attempts, and those that count attempts or record artifacts, once it holds
of these. -/
theorem call_of_moves (builds : Builds C) (asked : Call)
    (cancels : ∀ rootId, C (RootSql.cancel rootId env.now).run)
    (configurePool : ∀ spec groupCeiling, asked = .configurePool spec groupCeiling →
      C (Store.configurePool spec groupCeiling))
    (resumeEngine : ∀ poolId engineEpoch token, asked = .resumeEngine poolId engineEpoch token →
      C (Store.resumeEngine poolId engineEpoch token))
    (submitOperation : ∀ spec, C (Store.submitOperation sha256 env spec))
    (moves : ∀ {β : Type} (statement : AttemptSql β), C statement.run)
    (count : ∀ operationId, C (OperationSql.countAttempt operationId).run)
    (charge : ∀ rootId bound, C (RootSql.charge rootId bound).run)
    (insert : ∀ row, C (OtherSql.insertArtifact row).run)
    (reserveNext : ∀ poolId ownerId, asked = .reserveNext poolId ownerId →
      C (Store.reserveNext env poolId ownerId))
    (back : asked.settles = true → ∀ {β : Type} (statement : OperationSql β),
      statement.PutsBack → C statement.run)
    (decideResult : asked.settles = true → ∀ operationId artifact cancelled terminated,
      C (Store.decideResult env operationId artifact cancelled terminated))
    (finishRun : ∀ rootId tenantId state result reason,
      asked = .finishRun rootId tenantId state result reason →
        C (Store.finishRun sha256 env rootId tenantId state result reason))
    (bindCompletion : ∀ operationId tenantId taskToken,
      C (Store.bindCompletion sha256 env operationId tenantId taskToken))
    (mail : asked.mails = true → ∀ {β : Type} (statement : OutboxSql β), C statement.run) :
    C (asked.code sha256 env) :=
  builds.toAssembles.call_of_moves asked (fun _ _ _ _ => builds.submitRun ..)
    (fun _ _ _ => builds.cancel _ _ (cancels _)) configurePool resumeEngine submitOperation moves
    count charge insert reserveNext back decideResult finishRun bindCompletion mail

end Builds

end IntramindRuntime.Ledger
