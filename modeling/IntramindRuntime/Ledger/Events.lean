import IntramindRuntime.Ledger.Completions

/-!
# What the outbox says

Every event says something: that a run was submitted, that its user has cancelled it, or that an
activity waits. The transaction that posts an event has made that so, and no later one undoes it.
What publishers do to an event is to claim it, to put it off, and to mark it as delivered.

## Main definitions

* `Db.Backs` — what an event says is so
* `settingKept` — the law about rows that events speak of, which every statement keeps
* `OutboxRow.letter` — what of an event is to be delivered
* `postal` — the law about events that every call but an acknowledgement keeps

## Main results

* `call_keepsTruth`, `Reachable.truthful` — what the events of a reachable ledger say is so
* `Request.keeps_postal` — events stay, and only an acknowledgement marks one
-/

namespace IntramindRuntime.Ledger

open Library

/-! ### Rows that events speak of -/

/-- The submission of a cell. -/
def Cell.submission? : Cell → Option SubmissionRow
  | .submission row => row
  | _ => none

/-- `runtime_submissions`. -/
def trackedSubmissions : Tracked Db Write Key SubmissionRow where
  toAccess := submissions
  get := Cell.submission?
  get_lock _ _ := rfl
  get_write _ _ := Table.find?_put_self
  key_write _ := rfl
  lock_injective := Key.submission.inj
  cells k := by
    cases k with
    | submission id => exact Or.inl ⟨id, rfl⟩
    | _ => exact Or.inr fun _ => rfl
  other w := by
    cases w with
    | submission row => exact Or.inl ⟨row, rfl⟩
    | _ => exact Or.inr fun _ same => by cases same

/-- A root keeps its specification, and stays cancelled. -/
def rootSetting : RowGrowth RootRow where
  follows old row := row.spec = old.spec ∧ (old.cancelRequested = true → row.cancelRequested = true)
  fresh _ := True
  refl _ := ⟨rfl, id⟩
  trans first second := ⟨second.1.trans first.1, second.2 ∘ first.2⟩
  keeps _ _ := trivial

/-- The law about the rows that events speak of. -/
abbrev settingKept : RowChange Db :=
  ((RowGrowth.immutable SubmissionRow).on trackedSubmissions).both
    (((RowGrowth.immutable BindingRow).on trackedBindings).both (rootSetting.on trackedRoots))

/-- What an event says is so: its run was submitted, its user has cancelled it, or an activity
waits. -/
def Db.Backs (d : Db) (event : OutboxRow) : Prop :=
  match event.eventId with
  | .start rootId => event.kind = .startWorkflow ∧ event.aggregateId = rootId ∧
      ∃ submission root, d.submissions.find? rootId = some submission ∧
        d.roots.find? rootId = some root ∧
        event.payload = .intent { submission.spec with
          deadline := some (.accepted root.spec.deadline) }
  | .cancel rootId => event.kind = .cancelWorkflow ∧ event.aggregateId = rootId ∧
      ∃ root, d.roots.find? rootId = some root ∧ root.cancelRequested = true
  | .complete bindingId => event.kind = .completeActivity ∧ event.payload = .binding bindingId ∧
      ∃ binding, d.bindings.find? bindingId = some binding

/-- What the events say is so. -/
def Db.Truthful (d : Db) : Prop :=
  ∀ id event, d.outbox.find? id = some event → d.Backs event

/-- What of an event is to be delivered. -/
def OutboxRow.letter (event : OutboxRow) : EventId × EventKind × String × EventPayload :=
  (event.eventId, event.kind, event.aggregateId, event.payload)

section Setting

variable {β : Type} {d d' : Db}

/-- A submission is written once. -/
theorem OtherSql.absent_of_mem {statement : OtherSql β} {row : SubmissionRow}
    (member : Write.submission row ∈ (statement.exec d d).writes) :
    d.submissions.find? row.runId = none := by
  cases statement with
  | authorityForUpdate | authority | lockSubmission | submission | ownerAlive | lockModel =>
    cases member
  | insertSubmission new =>
    simp only [OtherSql.exec] at member
    split at member
    · cases member
    · obtain ⟨same, absent⟩ := Access.mem_insert_writes member
      cases same
      exact absent
  | insertArtifact | insertUpdate => cases (Access.mem_insert_writes member).1
  | registerOwner =>
    rcases Access.mem_upsert_writes member with ⟨here, -⟩ | ⟨_, -, -, here⟩ <;> cases here
  | renewOwner =>
    obtain ⟨_, -, -, here⟩ := Access.mem_update_writes member
    cases here
  | admitModel => cases (Access.mem_insertIgnore_writes member).1
  | purgeDirect | dropWaiters =>
    obtain ⟨_, -, here⟩ := List.mem_map.mp member
    cases here
  | expireDirect | stopDirect | idleDirect =>
    obtain ⟨_, -, -, here⟩ := Access.mem_updateAll_writes member
    cases here

theorem keepsSetting_stmt (statement : Sql β) :
    settingKept.KeptBy (Tx.stmt statement : Transaction β) := by
  refine RowChange.KeptBy.both ?_ (RowChange.KeptBy.both ?_ ?_)
  · cases statement with
    | other statement =>
      refine RowChange.keptBy_stmt fun d w member => ?_
      by_cases submits : ∃ row, w = .submission row
      · obtain ⟨row, rfl⟩ := submits
        refine RowGrowth.of_write (T := trackedSubmissions) (fun old found => ?_) fun _ => trivial
        cases (OtherSql.absent_of_mem member).symm.trans found
      · exact RowGrowth.of_other (T := trackedSubmissions) fun row same => submits ⟨row, same⟩
    | _ => exact keptBy_other (fun _ => rfl) rfl
  · cases statement with
    | binding statement =>
      refine RowChange.keptBy_stmt fun d w member => ?_
      have member : w ∈ (statement.exec d d).writes := member
      cases statement with
      | insert row => exact RowGrowth.of_insertIgnore (T := trackedBindings) member trivial
      | ofOperation => cases member
    | _ => exact keptBy_other (fun _ => rfl) rfl
  · cases statement with
    | root statement =>
      refine RowChange.keptBy_stmt fun d w member => ?_
      have member : w ∈ (statement.exec d d).writes := member
      cases statement with
      | forUpdate | forUpdateOfTenant | ofTenant | countRunning => cases member
      | insert row => exact RowGrowth.of_insert (T := trackedRoots) member trivial
      | settle =>
        exact RowGrowth.of_updateChecked (T := trackedRoots) member (fun _ => rfl)
          fun _ _ _ => ⟨rfl, id⟩
      | expire =>
        exact RowGrowth.of_updateAll (T := trackedRoots) member (fun _ => rfl)
          fun _ _ => ⟨rfl, id⟩
      | cancel =>
        exact RowGrowth.of_update (T := trackedRoots) member (fun _ => rfl)
          fun _ _ _ => ⟨rfl, fun _ => rfl⟩
      | _ =>
        exact RowGrowth.of_update (T := trackedRoots) member (fun _ => rfl)
          fun _ _ _ => ⟨rfl, id⟩
    | _ => exact keptBy_other (fun _ => rfl) rfl

/-- Every transaction keeps the rows that events speak of. -/
theorem keepsSetting {α : Type} (p : Transaction α) : settingKept.KeptBy p :=
  RowChange.keptBy_of_uses (Tx.Uses.always p) fun statement _ => keepsSetting_stmt statement

end Setting

/-! ### What happens to an event -/

/-- What may happen to an event once it is posted: `acknowledged` may be marked as delivered. -/
def postal (acknowledged : Option EventId) : RowGrowth OutboxRow where
  follows old row := row.letter = old.letter ∧
    (row.deliveredAt = old.deliveredAt ∨ acknowledged = some old.eventId)
  fresh row := row.deliveredAt = none ∨ acknowledged = some row.eventId
  refl _ := ⟨rfl, Or.inl rfl⟩
  trans first second := by
    obtain ⟨letter, mark⟩ := first
    obtain ⟨letter', mark'⟩ := second
    refine ⟨letter'.trans letter, ?_⟩
    rcases mark' with same' | marked
    · exact mark.imp_left same'.trans
    · exact Or.inr (marked.trans (congrArg some (congrArg Prod.fst letter)))
  keeps fresh follows := by
    obtain ⟨letter, mark⟩ := follows
    have named := congrArg some (congrArg Prod.fst letter)
    rcases mark with same | marked
    · exact fresh.imp same.trans fun marked => marked.trans named.symm
    · exact Or.inr (marked.trans named.symm)

/-- The event that a statement posts. -/
def OutboxSql.posted {β : Type} : OutboxSql β → Option OutboxRow
  | .insert row => some row
  | _ => none

/-- The event that a statement marks as delivered. -/
def OutboxSql.acknowledges {β : Type} : OutboxSql β → Option EventId
  | .delivered eventId .. => some eventId
  | _ => none

section Events

variable {β : Type} {d d' : Db} {acknowledged : Option EventId} {w : Write}

/-- What a statement may write to the outbox. -/
theorem OutboxSql.cases_of_mem {statement : OutboxSql β}
    (member : w ∈ (statement.exec (fun _ => false) d d).writes) :
    ∃ row, w = .event row ∧
      (d.outbox.find? row.eventId = none ∧ statement.posted = some row ∨
        ∃ old, d.outbox.find? row.eventId = some old ∧
          (postal statement.acknowledges).follows old row) := by
  cases statement with
  | insert row =>
    obtain ⟨rfl, absent⟩ := Access.mem_insertIgnore_writes member
    exact ⟨row, rfl, Or.inl ⟨absent, rfl⟩⟩
  | claim ownerId now limit =>
    obtain ⟨row, listed, rfl⟩ := List.mem_map.mp member
    obtain ⟨old, free, rfl⟩ := List.mem_map.mp listed
    obtain ⟨_, -, selected⟩ := List.mem_filterMap.mp (List.mem_of_mem_take free)
    obtain ⟨-, found, -⟩ := Access.locked_of_selectSkipLocked selected
    have named : old.eventId = _ := Table.key_of_find? found
    exact ⟨_, rfl, Or.inr ⟨old, named ▸ found, rfl, Or.inl rfl⟩⟩
  | delivered eventId ownerId delivery now =>
    obtain ⟨old, found, -, rfl⟩ := Access.mem_update_writes member
    have named : old.eventId = eventId := Table.key_of_find? found
    exact ⟨_, rfl, Or.inr ⟨old, named ▸ found, rfl, Or.inr (congrArg some named.symm)⟩⟩
  | defer_ eventId ownerId delivery now delay =>
    obtain ⟨old, found, -, rfl⟩ := Access.mem_update_writes member
    have named : old.eventId = eventId := Table.key_of_find? found
    exact ⟨_, rfl, Or.inr ⟨old, named ▸ found, rfl, Or.inl rfl⟩⟩

/-- A statement keeps a law about events that says no more than what may happen to them. -/
theorem keptBy_outbox {growth : RowGrowth OutboxRow} {statement : OutboxSql β}
    (follows : ∀ old row, (postal statement.acknowledges).follows old row →
      growth.follows old row)
    (fresh : ∀ row, statement.posted = some row → growth.fresh row) :
    (growth.on trackedOutbox).KeptBy statement.run := by
  refine RowChange.keptBy_stmt fun d w member => ?_
  obtain ⟨row, rfl, ⟨absent, posted⟩ | ⟨old, found, mark⟩⟩ := OutboxSql.cases_of_mem member
  · refine RowGrowth.of_write (T := trackedOutbox) (fun old found => ?_) fun _ => fresh row posted
    cases absent.symm.trans found
  · refine RowGrowth.of_write (T := trackedOutbox) (fun old' found' => ?_) fun absent => ?_
    · obtain rfl := Option.some.inj (found.symm.trans found')
      exact follows old row mark
    · cases found.symm.trans absent

end Events

/-! ### What events say stays so -/

/-- No event is posted, and what is to be delivered stays. -/
def letters : RowGrowth OutboxRow where
  follows old row := row.letter = old.letter
  fresh _ := False
  refl _ := rfl
  trans first second := second.trans first
  keeps fresh _ := fresh

/-- A transaction after which what the events say is still so. -/
abbrev KeepsTruth {α : Type} (p : Transaction α) : Prop := Maintains Db.Truthful p

section Truth

variable {α β : Type} {sha256 : String → String} {env : Env} {d d' : Db} {event event' : OutboxRow}

theorem Db.Backs.later (backed : d.Backs event) (keeps : settingKept.Keeps d d')
    (same : event'.letter = event.letter) : d'.Backs event' := by
  obtain ⟨id, same⟩ := Prod.mk.inj same
  obtain ⟨kind, same⟩ := Prod.mk.inj same
  obtain ⟨aggregateId, payload⟩ := Prod.mk.inj same
  unfold Db.Backs at backed ⊢
  rw [id, kind, aggregateId, payload]
  generalize event.eventId = named at backed ⊢
  cases named with
  | start rootId =>
    obtain ⟨kind, named, submission, root, submitted, found, payload⟩ := backed
    obtain ⟨root', found', spec, -⟩ :=
      RowGrowth.follows_of_keeps (T := trackedRoots) keeps.right.right found
    have submitted' := RowGrowth.find?_of_immutable (T := trackedSubmissions) keeps.left submitted
    exact ⟨kind, named, submission, root', submitted', found', spec ▸ payload⟩
  | cancel rootId =>
    obtain ⟨kind, named, root, found, cancelled⟩ := backed
    obtain ⟨root', found', -, still⟩ :=
      RowGrowth.follows_of_keeps (T := trackedRoots) keeps.right.right found
    exact ⟨kind, named, root', found', still cancelled⟩
  | complete bindingId =>
    obtain ⟨kind, payload, binding, found⟩ := backed
    exact ⟨kind, payload, binding,
      RowGrowth.find?_of_immutable (T := trackedBindings) keeps.right.left found⟩

/-- An event that is to start a workflow. -/
theorem Db.Backs.start (backed : d.Backs event) (kind : event.kind = .startWorkflow) :
    event.eventId = .start event.aggregateId ∧ ∃ submission root,
      d.submissions.find? event.aggregateId = some submission ∧
      d.roots.find? event.aggregateId = some root ∧
      event.payload = .intent { submission.spec with
        deadline := some (.accepted root.spec.deadline) } := by
  unfold Db.Backs at backed
  generalize event.eventId = named at backed ⊢
  cases named with
  | start rootId =>
    obtain ⟨-, rfl, claim⟩ := backed
    exact ⟨rfl, claim⟩
  | cancel | complete => cases backed.1.symm.trans kind

/-- An event that is to cancel a workflow. -/
theorem Db.Backs.cancel (backed : d.Backs event) (kind : event.kind = .cancelWorkflow) :
    event.eventId = .cancel event.aggregateId ∧ ∃ root,
      d.roots.find? event.aggregateId = some root ∧ root.cancelRequested = true := by
  unfold Db.Backs at backed
  generalize event.eventId = named at backed ⊢
  cases named with
  | cancel rootId =>
    obtain ⟨-, rfl, claim⟩ := backed
    exact ⟨rfl, claim⟩
  | start | complete => cases backed.1.symm.trans kind

/-- An event that is to complete an activity. -/
theorem Db.Backs.complete (backed : d.Backs event) (kind : event.kind = .completeActivity)
    {bindingId : String} (payload : event.payload = .binding bindingId) :
    event.eventId = .complete bindingId := by
  unfold Db.Backs at backed
  generalize event.eventId = named at backed ⊢
  cases named with
  | complete =>
    cases backed.2.1.symm.trans payload
    rfl
  | start | cancel => cases backed.1.symm.trans kind

theorem Db.Truthful.of_keeps (truthful : d.Truthful) (setting : settingKept.Keeps d d')
    (keeps : (letters.on trackedOutbox).Keeps d d') : d'.Truthful := by
  intro id event found
  rcases RowGrowth.cases_of_keeps (T := trackedOutbox) keeps found with
    ⟨old, before, same⟩ | ⟨-, fresh⟩
  · exact (truthful id old before).later setting same
  · exact fresh.elim

theorem keepsTruth_of_letters {p : Transaction α} (kept : (letters.on trackedOutbox).KeptBy p) :
    KeepsTruth p :=
  fun d truthful => ((keepsSetting p d).and (kept d)).mono fun _ _ keeps =>
    truthful.of_keeps keeps.1 keeps.2

theorem keepsTruth_other {statement : Sql β} (other : statement.mayWrite .outbox = false) :
    KeepsTruth (Tx.stmt statement : Transaction β) :=
  keepsTruth_of_letters (keptBy_other (fun _ => rfl) other)

/-- An event may be posted if what it says is so. -/
theorem event_keepsTruth (eventId : EventId) (kind : EventKind) (aggregateId : String)
    (payload : EventPayload) (truthful : d.Truthful)
    (backed : d.Backs ⟨eventId, kind, aggregateId, payload, env.now, none, none, none, 0, env.now⟩) :
    (Store.event env eventId kind aggregateId payload).Ensures d fun _ d' => d'.Truthful := by
  suffices posted : (Store.event env eventId kind aggregateId payload).Ensures d
      fun _ d' => settingKept.Keeps d d' → d'.Truthful from
    ((keepsSetting _ d).and posted).mono fun _ _ reached => reached.2 reached.1
  refine Tx.Ensures.perform (Tx.Ensures.ret fun keeps id event found => ?_)
  simp only [Engine.exec, OutboxSql.exec, Access.insertIgnore] at found keeps
  split at found
  · exact (truthful id event found).later keeps rfl
  · have found : (d.outbox.put _).find? id = some event := found
    rw [Table.find?_put] at found
    split at found
    · cases found
      exact backed.later keeps rfl
    · exact (truthful id event found).later keeps rfl

/-- The events of an operation are posted for its bindings. -/
theorem completionEvents_keepsTruth (operationId : String) :
    KeepsTruth (Store.completionEvents env operationId) := by
  intro d truthful
  refine Tx.Ensures.read rfl ((Tx.Ensures.forEach (fun rest (d' : Db) => d'.Truthful ∧
    ∀ bindingId ∈ rest, ∃ binding, d'.bindings.find? bindingId = some binding)
    ⟨truthful, fun bindingId member => ?_⟩ fun bindingId rest d₁ reached => ?_).mono
      fun _ _ reached => reached.1)
  · obtain ⟨binding, found, -⟩ := Db.mem_bindingsOf.mp member
    exact ⟨binding, found⟩
  · obtain ⟨truthful, bound⟩ := reached
    obtain ⟨binding, found⟩ := bound bindingId List.mem_cons_self
    refine ((event_keepsTruth (.complete bindingId) .completeActivity operationId
      (.binding bindingId) truthful ⟨rfl, rfl, binding, found⟩).and (keepsSetting _ d₁)).mono
      fun _ d₂ reached => ⟨reached.1, fun other member => ?_⟩
    obtain ⟨binding, found⟩ := bound other (List.mem_cons_of_mem _ member)
    exact ⟨binding,
      RowGrowth.find?_of_immutable (T := trackedBindings) reached.2.right.left found⟩

theorem keepsTruth_assembles : Assembles KeepsTruth where
  closed := maintains_closed Db.Truthful
  plain statement plain := by
    cases statement with
    | outbox => exact plain.elim
    | _ => exact keepsTruth_other rfl
  terminal _ _ _ _ _ := (maintains_closed Db.Truthful).perform (keepsTruth_other rfl)
    fun _ => completionEvents_keepsTruth _

/-- Once a root is accepted, it is there. -/
theorem insertRoot_admits (spec : RootSpec) (limits : Authority) :
    (Store.insertRoot env spec limits).Ensures d fun _ d' =>
      ∃ root, d'.roots.find? spec.rootId = some root ∧ root.spec = spec := by
  unfold Store.insertRoot
  simp only [Tx.bind_eq, Tx.stmt_bind]
  refine Tx.Ensures.read rfl (ensures_require fun _ => ensures_require fun _ => ?_)
  refine Tx.Ensures.insert rfl (fun _ => ?_) Tx.Ensures.raise
  -- the budgets of the root come after it
  refine ((keepsSetting _ _).mono) fun _ d' keeps => ?_
  have stored : (d.roots.put (Store.rootRow spec)).find? spec.rootId = some (Store.rootRow spec) :=
    Table.find?_put_self
  obtain ⟨root, found, same, -⟩ := RowGrowth.follows_of_keeps (T := trackedRoots)
    keeps.right.right stored
  exact ⟨root, found, same⟩

theorem root_admits (spec : RootSpec) : (Store.root env spec).Ensures d fun _ d' =>
    ∃ root, d'.roots.find? spec.rootId = some root ∧ root.spec = spec := by
  have same {existing : RootRow} {d : Db}
      (found : roots.find? spec.rootId always d = some existing) :
      (Store.sameRoot spec existing).Ensures d fun _ d' =>
        ∃ root, d'.roots.find? spec.rootId = some root ∧ root.spec = spec := by
    obtain ⟨found, -⟩ := Access.find?_eq_some_iff.mp found
    unfold Store.sameRoot Store.require
    split
    · next same => exact Tx.Ensures.ret ⟨existing, found, of_decide_eq_true same⟩
    · exact Tx.Ensures.raise
  unfold Store.root
  simp only [Tx.bind_eq, Tx.stmt_bind]
  refine Tx.Ensures.selectForUpdate rfl ?_
  split
  · next found => exact same found
  · refine Tx.Ensures.perform (Tx.Ensures.selectForUpdate rfl ?_)
    split
    · next found => exact same found
    · exact insertRoot_admits spec _

theorem insertSubmission_submits (row : SubmissionRow) :
    (((OtherSql.insertSubmission row).run : Transaction _).bind Store.accept).Ensures d
      fun _ d' => d'.submissions.find? row.runId = some row := by
  refine Tx.Ensures.perform ?_
  simp only [Engine.exec, OtherSql.exec]
  split
  · exact Tx.Ensures.raise
  · simp only [Access.insert]
    split
    · exact Tx.Ensures.raise
    · exact Tx.Ensures.ret Table.find?_put_self

/-- A run is to be started once it was submitted. -/
theorem submitRun_keepsTruth (spec : RootSpec) (key inputDigest : String) (run : RunSpec) :
    KeepsTruth (Store.submitRun env spec key inputDigest run) := by
  have assembles := keepsTruth_assembles
  intro d truthful
  unfold Store.submitRun
  simp only [Tx.bind_eq, Tx.stmt_bind]
  refine Tx.Ensures.perform (Tx.Ensures.read rfl ?_)
  split
  · exact ensures_require fun _ => Tx.Ensures.ret truthful
  · refine Tx.Ensures.bind (((assembles.root spec d truthful).and (root_admits spec)).mono
      fun _ d₁ reached => ?_)
    obtain ⟨truthful, root, found, same⟩ := reached
    let row : SubmissionRow := ⟨spec.rootId, spec.tenantId, key, inputDigest, run⟩
    let submit : Transaction Unit := (OtherSql.insertSubmission row).run.bind Store.accept
    change Tx.Ensures (submit.bind fun _ => (Store.event env (.start spec.rootId) .startWorkflow
      spec.rootId _).bind fun _ => .ret spec.rootId) d₁ fun _ d' => d'.Truthful
    have kept : submit.Ensures d₁ fun _ d' => d'.Truthful :=
      (maintains_closed Db.Truthful).bind (keepsTruth_other rfl) (assembles.accept ·) d₁ truthful
    refine Tx.Ensures.bind (((kept.and (insertSubmission_submits row)).and
      (keepsSetting submit d₁)).mono fun _ d₂ reached => ?_)
    obtain ⟨⟨truthful, submitted⟩, keeps⟩ := reached
    obtain ⟨root', found', same', -⟩ :=
      RowGrowth.follows_of_keeps (T := trackedRoots) keeps.right.right found
    refine Tx.Ensures.bind ((event_keepsTruth (.start spec.rootId) .startWorkflow spec.rootId _
      truthful ⟨rfl, rfl, row, root', submitted, found', ?_⟩).mono fun _ d₃ told =>
        Tx.Ensures.ret told)
    rw [same', same]

/-- A run is to be cancelled once its user has cancelled it. -/
theorem cancel_keepsTruth (rootId tenantId : String) :
    KeepsTruth (Store.cancel env rootId tenantId) := by
  have assembles := keepsTruth_assembles
  intro d truthful
  unfold Store.cancel
  simp only [Tx.bind_eq, Tx.stmt_bind]
  refine Tx.Ensures.read rfl ?_
  split
  · exact Tx.Ensures.raise
  · next root here =>
    obtain ⟨found, -⟩ := Access.find?_eq_some_iff.mp here
    split
    · exact Tx.Ensures.ret truthful
    · have cancels : (RootSql.cancel rootId env.now).run.Ensures d fun _ d' =>
          ∃ root, d'.roots.find? rootId = some root ∧ root.cancelRequested = true := by
        refine Tx.Ensures.update rfl (fun row found' _ => Tx.Ensures.ret ?_) fun missing => ?_
        · have named : row.rootId = rootId := Table.key_of_find? found'
          exact ⟨row.cancel env.now, named ▸ Table.find?_put_self, rfl⟩
        · cases missing root found
      change Tx.Ensures ((RootSql.cancel rootId env.now).run.bind fun _ => _) d _
      refine Tx.Ensures.bind (((keepsTruth_other rfl d truthful).and cancels).mono
        fun _ d₁ reached => Tx.Ensures.read rfl ?_)
      obtain ⟨truthful, root, found, cancelled⟩ := reached
      refine Tx.Ensures.bind (((assembles.terminalAll _ _ _ rfl d₁ truthful).and
        (keepsSetting _ d₁)).mono fun _ d₂ reached => ?_)
      obtain ⟨root', found', -, still⟩ :=
        RowGrowth.follows_of_keeps (T := trackedRoots) reached.2.right.right found
      exact event_keepsTruth (.cancel rootId) .cancelWorkflow rootId (.run rootId) reached.1
        ⟨rfl, rfl, root', found', still cancelled⟩

theorem bindCompletion_keepsTruth (operationId tenantId taskToken : String) :
    KeepsTruth (Store.bindCompletion sha256 env operationId tenantId taskToken) := by
  have assembles := keepsTruth_assembles
  unfold Store.bindCompletion
  simp only [Tx.bind_eq, Tx.stmt_bind]
  refine assembles.perform trivial fun op => ?_
  cases op with
  | none => exact assembles.raise _
  | some op =>
    exact assembles.closed.perform (keepsTruth_other rfl) fun _ =>
      assembles.when (completionEvents_keepsTruth _)

/-- After every call what the events say is so. -/
theorem call_keepsTruth (asked : Call) : KeepsTruth (asked.code sha256 env) := by
  have assembles := keepsTruth_assembles
  have other {β : Type} {statement : Sql β} (other : statement.mayWrite .outbox = false) :
      KeepsTruth (Tx.stmt statement : Transaction β) := keepsTruth_other other
  by_cases mails : asked.mails = true
  · have mail {β : Type} {statement : OutboxSql β} (silent : statement.posted = none) :
        KeepsTruth statement.run :=
      keepsTruth_of_letters (keptBy_outbox (fun _ _ follows => follows.1) fun row posts => by
        cases silent.symm.trans posts)
    cases asked with
    | claimEvents => exact assembles.reply (mail rfl)
    | delivered => exact assembles.reply (assembles.delivered _ _ _ (mail rfl))
    | deferEvent => exact assembles.reply (assembles.deferEvent _ _ _ _ (mail rfl))
    | _ => cases mails
  · refine assembles.call_of_moves asked submitRun_keepsTruth
      (fun _ _ _ => cancel_keepsTruth _ _) (fun _ _ _ => ?_)
      (fun _ _ _ _ => ?_) (fun _ => ?_) (fun _ => other rfl) (fun _ => other rfl)
      (fun _ _ => other rfl) (fun _ => other rfl) (fun _ _ _ => ?_) (fun _ {_} _ _ => other rfl)
      (fun _ _ _ _ _ => ?_) (fun _ _ _ _ _ _ => ?_) (fun _ _ _ => ?_) fun here => (mails here).elim
    · exact assembles.configurePool _ _ (other rfl) (other rfl)
    · exact assembles.resumeEngine _ _ _ fun _ => other rfl
    · exact assembles.submitOperation _ fun _ _ => other rfl
    · refine assembles.reserveNext _ _ fun _ _ => assembles.reserveCandidate fun _ _ => ?_
      exact assembles.reserve (fun _ _ => other rfl) fun _ _ => other rfl
    · exact assembles.bind (assembles.when (assembles.bind (other rfl) fun _ => assembles.ret ()))
        fun _ => assembles.bind (assembles.when (assembles.terminal _ _ _ _ rfl))
          fun _ => completionEvents_keepsTruth _
    · refine assembles.finishRun _ _ _ _ _ (cancel_keepsTruth _ _) fun _ _ _ => ?_
      exact assembles.finishRoot _ _ _ _ fun _ => other rfl
    · exact bindCompletion_keepsTruth _ _ _

end Truth

/-- What the events of a reachable ledger say is so. -/
theorem Reachable.truthful {sha256 : String → String} {authority : Authority} {d : Db}
    (reached : Reachable sha256 authority d) : d.Truthful := by
  refine reached.maintained ?_ fun env asked => call_keepsTruth asked
  intro id event found
  cases found

/-! ### Acknowledgements -/

/-- The event that a call marks as delivered. -/
def Call.marks : Call → Option EventId
  | .delivered eventId .. => some eventId
  | _ => none

/-- The event that a request marks as delivered. -/
def Request.marks : Request → Option EventId
  | .call _ asked => asked.marks
  | .reconcileExpired .. => none

section Acknowledgements

variable {sha256 : String → String} {env : Env} {d : Db}

theorem keepsPostal_builds : Builds ((postal none).on trackedOutbox).KeptBy := by
  refine .of_terminal ((postal none).on trackedOutbox).keptBy_closed (fun statement plain => ?_)
    fun _ _ _ _ => keptBy_other (fun _ => rfl) rfl
  cases statement with
  | outbox statement =>
    cases statement with
    | insert row =>
      refine keptBy_outbox (fun _ _ follows => follows) fun row posts => Or.inl ?_
      cases posts
      exact plain.2.2.2
    | claim | delivered | defer_ => exact plain.elim
  | _ => exact keptBy_other (fun _ => rfl) rfl

theorem quiet_keepsPostal (asked : Call) (quiet : asked.mails = false) :
    ((postal none).on trackedOutbox).KeptBy (asked.code sha256 env) := by
  have builds := keepsPostal_builds
  have other {β : Type} {statement : Sql β} (other : statement.mayWrite .outbox = false) :
      ((postal none).on trackedOutbox).KeptBy (Tx.stmt statement : Transaction β) :=
    keptBy_other (fun _ => rfl) other
  refine builds.call_of_moves asked (fun _ => other rfl) (fun _ _ _ => ?_) (fun _ _ _ _ => ?_)
    (fun _ => ?_)
    (fun _ => other rfl) (fun _ => other rfl) (fun _ _ => other rfl) (fun _ => other rfl)
    (fun _ _ _ => ?_) (fun _ {_} _ _ => other rfl) (fun _ _ _ _ _ => ?_) (fun _ _ _ _ _ _ => ?_)
    (fun _ _ _ => ?_) fun mails => ?_
  · exact builds.configurePool _ _ (other rfl) (other rfl)
  · exact builds.resumeEngine _ _ _ fun _ => other rfl
  · exact builds.submitOperation _ fun _ _ => other rfl
  · refine builds.reserveNext _ _ fun _ _ => builds.reserveCandidate fun _ _ => ?_
    exact builds.reserve (fun _ _ => other rfl) fun _ _ => other rfl
  · exact builds.decideResult _ _ _ _ (other rfl)
  · exact builds.finishRun _ _ _ _ _ (other rfl) fun _ _ _ =>
      builds.finishRoot _ _ _ _ fun _ => other rfl
  · exact builds.bindCompletion _ _ _ fun _ => other rfl
  · cases quiet.symm.trans mails

/-- Only an acknowledgement marks an event, and none is lost or rewritten. -/
theorem call_keepsPostal (asked : Call) :
    ((postal asked.marks).on trackedOutbox).KeptBy (asked.code sha256 env) := by
  have builds := keepsPostal_builds
  have mail {β : Type} {statement : OutboxSql β} (silent : statement.posted = none) :
      ((postal statement.acknowledges).on trackedOutbox).KeptBy statement.run :=
    keptBy_outbox (fun _ _ follows => follows) fun row posts => by
      cases silent.symm.trans posts
  cases asked with
  | claimEvents => exact builds.reply (mail rfl)
  | deferEvent => exact builds.reply (builds.deferEvent _ _ _ _ (mail rfl))
  | delivered eventId =>
    have closed := ((postal (some eventId)).on trackedOutbox).keptBy_closed (S := Sql)
      (ε := RuntimeError)
    exact closed.bind (closed.bind (mail rfl) fun _ => closed.ret _) fun _ => closed.ret _
  | _ => exact quiet_keepsPostal _ rfl

/-- Only an acknowledgement marks an event, and none is lost or rewritten. -/
theorem Request.keeps_postal (request : Request) :
    ((postal request.marks).on trackedOutbox).Keeps d (request.after sha256 d) := by
  refine request.keeps_of_code fun env asked asks => ?_
  cases request with
  | call _ called =>
    cases asks
    exact call_keepsPostal asked
  | reconcileExpired =>
    rcases asks with rfl | rfl | ⟨attemptId, rfl⟩ <;> exact call_keepsPostal _

/-- A publisher is handed events as they are in the outbox. -/
theorem claimEvents_hands (ownerId : String) (limit : ℕ) :
    (Store.claimEvents env ownerId limit).Ensures d fun rows _ => ∀ row ∈ rows, ∃ event,
      d.outbox.find? row.eventId = some event ∧ row.letter = event.letter := by
  refine Tx.Ensures.perform (Tx.Ensures.ret fun row listed => ?_)
  have member : Write.event row ∈
      ((OutboxSql.claim ownerId env.now limit).exec (fun _ => false) d d).writes :=
    List.mem_map_of_mem listed
  obtain ⟨row', same, ⟨-, posted⟩ | ⟨event, found, letter, -⟩⟩ := OutboxSql.cases_of_mem member
  · cases posted
  · cases same
    exact ⟨event, found, letter⟩

end Acknowledgements

/-! ### Bindings -/

section Bindings

variable {sha256 : String → String} {env : Env} {d : Db}

/-- A binding is named after the activity that waits. -/
def BindingRow.Named (sha256 : String → String) (row : BindingRow) : Prop :=
  row.bindingId = sha256 row.taskToken

abbrev namesKept (sha256 : String → String) : RowChange Db :=
  (RowGrowth.lasting (BindingRow.Named sha256)).on trackedBindings

theorem keepsNames_builds : Builds (namesKept sha256).KeptBy := by
  refine .of_terminal (namesKept sha256).keptBy_closed (fun statement plain => ?_)
    fun _ _ _ _ => keptBy_other (fun _ => rfl) rfl
  cases statement with
  | binding statement =>
    refine RowChange.keptBy_stmt fun d w member => ?_
    cases statement with
    | insert => exact plain.elim
    | ofOperation =>
      have none : w ∈ ([] : List Write) := member
      cases none
  | _ => exact keptBy_other (fun _ => rfl) rfl

theorem call_keepsNames (asked : Call) : (namesKept sha256).KeptBy (asked.code sha256 env) := by
  have builds := @keepsNames_builds sha256
  have other {β : Type} {statement : Sql β} (other : statement.mayWrite .bindings = false) :
      (namesKept sha256).KeptBy (Tx.stmt statement : Transaction β) :=
    keptBy_other (fun _ => rfl) other
  refine builds.call_of_moves asked (fun _ => other rfl) (fun _ _ _ => ?_) (fun _ _ _ _ => ?_)
    (fun _ => ?_)
    (fun _ => other rfl) (fun _ => other rfl) (fun _ _ => other rfl) (fun _ => other rfl)
    (fun _ _ _ => ?_) (fun _ {_} _ _ => other rfl) (fun _ _ _ _ _ => ?_)
    (fun _ _ _ _ _ _ => ?_) (fun _ _ taskToken => ?_) fun _ {_} _ => other rfl
  · exact builds.configurePool _ _ (other rfl) (other rfl)
  · exact builds.resumeEngine _ _ _ fun _ => other rfl
  · exact builds.submitOperation _ fun _ _ => other rfl
  · refine builds.reserveNext _ _ fun _ _ => builds.reserveCandidate fun _ _ => ?_
    exact builds.reserve (fun _ _ => other rfl) fun _ _ => other rfl
  · exact builds.decideResult _ _ _ _ (other rfl)
  · exact builds.finishRun _ _ _ _ _ (other rfl) fun _ _ _ =>
      builds.finishRoot _ _ _ _ fun _ => other rfl
  · unfold Store.bindCompletion
    simp only [Tx.bind_eq, Tx.stmt_bind]
    refine builds.perform trivial fun op => ?_
    cases op with
    | none => exact builds.raise _
    | some op =>
      refine builds.closed.perform (RowChange.keptBy_stmt fun d w member => ?_) fun _ =>
        builds.when (builds.completionEvents _)
      exact RowGrowth.of_insertIgnore (T := trackedBindings) member rfl

/-- In a reachable ledger, an activity has one binding at most. -/
theorem Reachable.binding_named {authority : Authority} (reached : Reachable sha256 authority d)
    {id : String} {row : BindingRow} (found : d.bindings.find? id = some row) :
    id = sha256 row.taskToken := by
  have named : row.Named sha256 := reached.sane trackedBindings (fun _ => rfl)
    (fun _ asked => call_keepsNames asked) id row found
  have here : row.bindingId = id := Table.key_of_find? found
  exact here.symm.trans named

end Bindings

/-! ### Roots that have ended -/

section Ended

variable {label : Label} {allowed : Label → Prop} {b b' : Book} {sha256 : String → String}
  {env : Env} {d : Db} {id : String}

/-- A root that has ended does not run again. -/
theorem Move.keeps_over (move : Move label b b') (over_ : b.running id = some false) :
    b'.running id = some false := by
  have set {rootId : String} : Function.update b.running rootId (some false) id = some false := by
    by_cases here : id = rootId
    · rw [here, Function.update_self]
    · rw [Function.update_of_ne here, over_]
  cases move with
  | @openRoot _ rootId limit fresh =>
    have other : id ≠ rootId := by
      rintro rfl
      cases fresh.symm.trans over_
    change Function.update b.running rootId (some true) id = some false
    rw [Function.update_of_ne other, over_]
  | endRoot => exact set
  | endCharged =>
    unfold Book.overspend
    split
    · exact set
    · exact over_
  | _ => exact over_

theorem Path.keeps_over (path : Path allowed b b') (over_ : b.running id = some false) :
    b'.running id = some false := by
  induction path with
  | refl => exact over_
  | tail _ step ih =>
    obtain ⟨label, -, move⟩ := step
    exact move.keeps_over ih

theorem Request.keeps_over (request : Request) (valid : d.book.Valid) {root : RootRow}
    (found : d.roots.find? id = some root) (ended : root.state ≠ .running) : ∃ root',
      (request.after sha256 d).roots.find? id = some root' ∧ root'.state ≠ .running := by
  have path : Path (request.allows d) d.book (request.after sha256 d).book :=
    request.refines valid
  have before : d.book.running id = some false := by
    rw [Db.book_running_of_found found, decide_eq_false ended]
  obtain ⟨root', found', same⟩ := Option.map_eq_some_iff.mp (path.keeps_over before)
  exact ⟨root', found', of_decide_eq_false same⟩

theorem terminalAll_keepsRoots (operationIds : List String) (state : OperationState)
    (reason : String) : ((RowGrowth.frozen RootRow).on trackedRoots).KeptBy
      (Store.terminalAll env operationIds state reason) :=
  frozen_of_uses (fun _ => rfl) (Tx.Uses.forEach fun _ =>
    ⟨rfl, fun _ => ⟨rfl, fun _ => Tx.Uses.forEach fun _ => ⟨rfl, fun _ => trivial⟩⟩⟩)

theorem finishRoot_ends (rootId : String) {state : RootState} (ends : state ≠ .running)
    (result : Option Artifact) (reason : Option String) :
    (Store.finishRoot env rootId state result reason).Ensures d fun _ d' =>
      ∃ root, d'.roots.find? rootId = some root ∧ root.state ≠ .running := by
  unfold Store.finishRoot
  simp only [Tx.bind_eq, Tx.stmt_bind]
  refine Tx.Ensures.read rfl (ensures_require fun _ => ?_)
  refine Tx.Ensures.update rfl (fun root found _ => ?_) fun _ => Tx.Ensures.raise
  have named : root.rootId = rootId := Table.key_of_find? found
  let finished := root.finish (env.clock .completion rootId) state result reason
  have here : (d.roots.put finished).find? rootId = some finished :=
    named ▸ Table.find?_put_self
  have ended : finished.state ≠ .running := by
    change (if root.deadline ≤ env.clock .completion rootId then .failed else state) ≠
      RootState.running
    split
    · exact RootState.noConfusion
    · exact ends
  dsimp only
  split
  · exact Tx.Ensures.ret ⟨finished, here, ended⟩
  · refine Tx.Ensures.read rfl ?_
    refine (terminalAll_keepsRoots _ _ _ _).mono fun _ d' keeps => ⟨finished, ?_, ended⟩
    exact (RowGrowth.find?_of_frozen (T := trackedRoots) keeps).trans here

/-- A run that a publisher ends has ended then. -/
theorem finishRun_ends (rootId tenantId : String) (reason : Option String) :
    (Store.finishRun sha256 env rootId tenantId .failed none reason).Ensures d fun _ d' =>
      ∃ root, d'.roots.find? rootId = some root ∧ root.state ≠ .running := by
  unfold Store.finishRun
  rw [if_neg RootState.noConfusion]
  simp only [Tx.bind_eq, Tx.stmt_bind]
  refine ensures_require fun _ => ensures_require fun _ => ensures_require fun _ => ?_
  refine Tx.Ensures.read rfl ?_
  split
  · exact Tx.Ensures.raise
  · next root here =>
    obtain ⟨found, -⟩ := Access.find?_eq_some_iff.mp here
    split
    · next ended =>
      unfold Store.require
      split
      · exact Tx.Ensures.ret ⟨root, found, ended⟩
      · exact Tx.Ensures.raise
    · split
      · exact finishRoot_ends rootId RootState.noConfusion none _
      · exact finishRoot_ends rootId RootState.noConfusion none _

end Ended

end IntramindRuntime.Ledger
