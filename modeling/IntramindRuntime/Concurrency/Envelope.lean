import IntramindRuntime.Concurrency.Interleaving

/-!
# Controllers and the envelope of a pool

`update_target` names the version of the envelope that its target was computed for.
It reads the pool, compares the version, and then writes the target with an `UPDATE`
that looks at nothing: whatever another transaction has made of the envelope in
between is overwritten. As long as that `UPDATE` replaces the version that was named,
the method is a compare-and-set.

## Main definitions

* `Adjustment` — the calls that change the envelope of a pool
* `versioned` — a pool changes only together with its version
* `Db.InEnvelope` — targets are within the ceilings
* `Adjusting.Current` — an `update_target` that commits replaces the version it names

## Main results

* `Adjusting.Run.compare_and_set` — in every run in which they do, each version is replaced
  by one call at most, and targets stay within the ceilings
-/

namespace IntramindRuntime.Ledger

open Library RowStore

/-- A call that changes the envelope of a pool. -/
inductive Adjustment
  | configurePool (spec : PoolSpec) (groupCeiling : ℤ)
  | updateTarget (env : Env) (poolId : String) (target : ℤ) (version : ℕ) (reason : String)

/-- The transaction of a call. -/
def Adjustment.code : Adjustment → Transaction Unit
  | .configurePool spec groupCeiling => Store.configurePool spec groupCeiling
  | .updateTarget env poolId target version reason =>
    Store.updateTarget env poolId target version reason

/-- The ledger with adjustments in flight. -/
abbrev Adjusting := System Sql RuntimeError Unit Adjustment Db Write Key

/-- What the `UPDATE` of `update_target` makes of a pool. -/
def PoolRow.retarget (target : ℕ) (pool : PoolRow) : PoolRow :=
  { pool with target := target, envelopeVersion := pool.envelopeVersion + 1 }

/-- The row that `update_target` records. -/
def updateRow (env : Env) (poolId : String) (target : ℤ) (version : ℕ) (reason : String) :
    ControllerUpdateRow where
  updateId := env.updateId
  poolId := poolId
  envelopeVersion := version + 1
  target := target
  reason := reason

/-- A pool changes only together with its version, which never goes back. -/
def versioned : RowRule PoolRow where
  sane _ := True
  stays old row := old.envelopeVersion < row.envelopeVersion ∨ row = old
  refl _ := Or.inr rfl
  trans := by
    rintro first middle last (grows | rfl) (grows' | rfl)
    · exact Or.inl (grows.trans grows')
    · exact Or.inl grows
    · exact Or.inl grows'
    · exact Or.inr rfl

/-- The policy that the rule makes. -/
abbrev versionedPolicy : RowPolicy Db := versioned.on trackedPools

/-- A pool of the same version is the same. -/
theorem versioned_eq {old row : PoolRow} (stays : versioned.stays old row)
    (same : row.envelopeVersion = old.envelopeVersion) : row = old :=
  stays.resolve_left fun grows => grows.ne same.symm

/-- The target of every pool is within its ceiling. -/
def Db.InEnvelope (d : Db) : Prop :=
  ∀ id row, d.pools.find? id = some row → row.target ≤ row.hardCeiling

/-! ### What a transaction writes to pools -/

section Writes

variable {S : Type → Type} {β : Type} {fact : PoolRow → Prop} {σ : Local Sql Db Write Key}

/-- Whatever a transaction has written to pools satisfies a fact. -/
def WritesPools (fact : PoolRow → Prop) (writes : List Write) : Prop :=
  ∀ row, Write.pool row ∈ writes → fact row

/-- A pool is as before the writes, or one of these. -/
theorem WritesPools.cases {writes : List Write} (holds : WritesPools fact writes) {d : Db}
    {id : String} {row : PoolRow} (found : (applyAll writes d).pools.find? id = some row) :
    d.pools.find? id = some row ∨ (fact row ∧ Write.pool row ∈ writes) := by
  rcases trackedPools.find?_applyAll writes d id with same | ⟨new, member, -, written⟩
  · exact Or.inl (same.symm.trans found)
  · obtain rfl := Option.some.inj (written.symm.trans found)
    exact Or.inr ⟨holds new member, member⟩

theorem WritesPools.append {first second : List Write} (left : WritesPools fact first)
    (right : WritesPools fact second) : WritesPools fact (first ++ second) :=
  fun row member => (List.mem_append.mp member).elim (left row) (right row)

end Writes

/-! ### Statements -/

section Statements

variable {β : Type} {σ : Local Sql Db Write Key} {statement : Sql β}

/-- Nothing is forbidden. -/
def anything : Admits := fun _ _ _ => True

/-- What a transaction of either kind relies on. -/
abbrev adjusting : Discipline Sql Db Write Key := versionedPolicy.discipline anything

/-- A statement that writes no pool. -/
def LeavesPools (statement : Sql β) : Prop :=
  ∀ busy snapshot current row,
    Write.pool row ∉ (Engine.exec statement busy snapshot current).writes

theorem leavesPools_of_mayWrite (other : statement.mayWrite .pools = false) :
    LeavesPools statement := fun _ _ _ row member =>
  Sql.ne_write_of_mayWrite (T := trackedPools) (fun _ => rfl) other member row rfl

theorem leavesPools_configureGroup (groupId : String) (hardCeiling : ℤ) :
    LeavesPools (Sql.pool (.configureGroup groupId hardCeiling)) := by
  intro busy snapshot current row member
  rcases Access.mem_upsert_writes member with ⟨same, -⟩ | ⟨_, -, -, same⟩ <;> cases same

theorem LeavesPools.allows (leaves : LeavesPools statement) (busy : Key → Bool) (snapshot : Db)
    (σ : Local Sql Db Write Key) :
    ∀ w ∈ (Engine.exec statement busy snapshot σ.view).writes, versionedPolicy.Allows σ.view w := by
  intro w member
  refine RowRule.allows_other fun row same => ?_
  subst same
  exact leaves busy snapshot σ.view row member

theorem LeavesPools.writes {fact : PoolRow → Prop} (leaves : LeavesPools statement)
    (busy : Key → Bool) (snapshot current : Db) :
    WritesPools fact (Engine.exec statement busy snapshot current).writes :=
  fun row member => absurd member (leaves busy snapshot current row)

/-- A transaction that keeps versions, and writes only pools with a fact. -/
abbrev Adjusts (fact : PoolRow → Prop) (σ : Local Sql Db Write Key) : Prop :=
  versionedPolicy.Kept σ ∧ WritesPools fact σ.writes

variable {fact : PoolRow → Prop}

theorem adjusts_stable : Wp.Stable adjusting (Adjusts fact) :=
  fun σ d here rely => ⟨RowPolicy.Kept.stable σ d here.1 rely, here.2⟩

theorem adjusts_closed :
    Tx.Closed (S := Sql) (ε := RuntimeError) fun p => Wp.Preserves adjusting (Adjusts fact) p :=
  Wp.Preserves.closed adjusts_stable

theorem adjusts_other (leaves : LeavesPools statement) :
    Wp.Preserves adjusting (Adjusts fact) (Tx.stmt statement : Transaction β) :=
  Wp.Preserves.stmt adjusts_stable (fun _ here => ⟨here.1.started statement, here.2⟩)
    fun snap σ busy here _ => ⟨here.1.after (leaves.allows busy snap σ),
      here.2.append (leaves.writes busy snap σ.view)⟩

/-- The target of a pool is within its ceiling. -/
def PoolRow.Within (pool : PoolRow) : Prop := pool.target ≤ pool.hardCeiling

/-- `configure_pool` writes the target and the ceiling of a specification. -/
theorem adjusts_configure (spec : PoolSpec) :
    Wp.Preserves adjusting (Adjusts PoolRow.Within) (Tx.stmt (Sql.pool (.configure spec)) :
      Transaction Bool) := by
  refine Wp.Preserves.stmt adjusts_stable (fun _ here => ⟨here.1.started _, here.2⟩)
    fun snap σ busy here _ => ⟨here.1.after fun w member => ?_, here.2.append fun row member => ?_⟩
  · rcases Access.mem_upsert_writes member with ⟨rfl, absent⟩ | ⟨old, found, -, rfl⟩
    · refine RowRule.allows_write (T := trackedPools) trivial fun old before => ?_
      have none : (trackedPools.table σ.view).find? (Keyed.key (PoolRow.ofSpec spec)) = none := absent
      rw [none] at before
      cases before
    · refine RowRule.allows_write (T := trackedPools) trivial fun old' before => ?_
      have key : old.poolId = spec.poolId := Table.key_of_find? found
      have same : old' = old := by
        refine Option.some.inj (before.symm.trans (Eq.trans ?_ found))
        exact congrArg _ key
      subst same
      exact Or.inl (Nat.lt_succ_self _)
  · rcases Access.mem_upsert_writes member with ⟨same, -⟩ | ⟨old, -, -, same⟩
    · obtain rfl := Write.pool.inj same
      exact spec.target_le
    · obtain rfl := Write.pool.inj same
      exact spec.target_le

/-- What composes and holds of the statements of `configure_pool` holds of the method. -/
theorem configurePool_closed {C : ∀ {α : Type}, Transaction α → Prop} (closed : Tx.Closed C)
    (spec : PoolSpec) (groupCeiling : ℤ)
    (group : C (Tx.stmt (Sql.pool (.configureGroup spec.groupId groupCeiling))))
    (read : C (Tx.stmt (Sql.pool (.forUpdate spec.poolId))))
    (count : C (Tx.stmt (Sql.pool (.unsettled spec.poolId))))
    (write : C (Tx.stmt (Sql.pool (.configure spec)))) :
    C (Store.configurePool spec groupCeiling) := by
  have require (condition : Bool) (error : RuntimeError) : C (Store.require condition error) := by
    unfold Store.require
    split
    · exact closed.ret ()
    · exact closed.raise error
  unfold Store.configurePool
  simp only [Tx.bind_eq, Tx.stmt_bind]
  refine closed.bind (require _ _) fun _ => closed.perform group fun _ =>
    closed.perform read fun old => closed.bind ?_ fun _ =>
      closed.perform write fun _ => closed.ret ()
  unfold Store.when
  split
  · exact closed.perform count fun _ => require _ _
  · exact closed.ret ()

theorem configurePool_adjusts (spec : PoolSpec) (groupCeiling : ℤ) :
    Wp.Preserves adjusting (Adjusts PoolRow.Within) (Store.configurePool spec groupCeiling) :=
  configurePool_closed adjusts_closed spec groupCeiling
    (adjusts_other (leavesPools_configureGroup _ _))
    (adjusts_other fun _ _ _ _ member => (List.not_mem_nil member).elim)
    (adjusts_other fun _ _ _ _ member => (List.not_mem_nil member).elim) (adjusts_configure spec)

end Statements

/-! ### The write of a target -/

section Targets

variable {env : Env} {σ : Local Sql Db Write Key} {poolId : String} {pool : PoolRow} {target : ℕ}

/-- The pool has changed since it was read only together with its version. -/
def Db.PoolSince (poolId : String) (pool : PoolRow) (d : Db) : Prop :=
  ∃ row, d.pools.find? poolId = some row ∧ versioned.stays pool row

theorem lasting_poolSince (poolId : String) (pool : PoolRow) :
    versionedPolicy.Lasting (Db.PoolSince poolId pool) := by
  rintro d d' ⟨row, found, stays⟩ keeps
  obtain ⟨row', found', stays'⟩ := RowRule.stays_of_keeps (T := trackedPools) keeps found
  exact ⟨row', found', versioned.trans stays stays'⟩

/-- A pool that the transaction has read before is locked and retargeted, and nothing else
of the pools is written. -/
structure Swaps (poolId : String) (pool : PoolRow) (target : ℕ) (σ : Local Sql Db Write Key) :
    Prop where
  held : σ.held (.pool poolId)
  written : ∃ row, σ.committed.pools.find? poolId = some row ∧ versioned.stays pool row ∧
    σ.view.pools.find? poolId = some (row.retarget target) ∧
    WritesPools (fun written => written = row.retarget target) σ.writes

theorem Swaps.stable : Wp.Stable adjusting (Swaps poolId pool target) := by
  rintro σ d ⟨held, row, found, stays, now, only⟩ rely
  refine ⟨held, row, ?_, stays, ?_, only⟩
  · have same := congrArg Cell.pool? (rely.1 _ held)
    exact same.trans found
  · have same := congrArg Cell.pool? (rely.cell_view held)
    exact same.trans now

theorem Swaps.after {β : Type} {statement : Sql β} (swaps : Swaps poolId pool target σ)
    (leaves : LeavesPools statement) (busy : Key → Bool) (snapshot : Db) :
    Swaps poolId pool target (σ.after (Engine.exec statement busy snapshot σ.view)) := by
  obtain ⟨held, row, found, stays, now, only⟩ := swaps
  refine ⟨Local.held_after _ _ held, row, found, stays, ?_, only.append (leaves.writes _ _ _)⟩
  have untouched : ∀ w ∈ (Engine.exec statement busy snapshot σ.view).writes,
      key Db w ≠ .pool poolId := by
    intro w member here
    rcases trackedPools.other w with ⟨row, rfl⟩ | elsewhere
    · exact leaves busy snapshot σ.view row member
    · exact elsewhere poolId here
  have same := congrArg Cell.pool? (cell_applyAll_of_notMem σ.view untouched)
  rw [Local.view_after]
  exact same.trans now

/-- A plain read of a pool by a transaction that has written nothing. -/
theorem readPool (kept : versionedPolicy.Kept σ) (nothing : σ.writes = []) :
    Wp adjusting (PoolSql.find poolId).run σ fun read σ' =>
      (versionedPolicy.Kept σ' ∧ ∀ pool ∈ read, σ'.view.PoolSince poolId pool) ∧
        σ'.writes = [] := by
  refine Wp.and (kept.read (Sql.pool (.find poolId))
    (fun read d => ∀ pool ∈ read, d.PoolSince poolId pool) ?_ (fun _ _ _ => rfl) ?_) ?_
  · exact fun read d d' since keeps pool seen => lasting_poolSince poolId pool (since pool seen) keeps
  · exact fun busy snap d sound keeps pool seen =>
      RowRule.stays_of_keeps (T := trackedPools) keeps seen
  · have unwritten : Wp.Preserves adjusting (fun σ => σ.writes = [])
        (Tx.stmt (Sql.pool (.find poolId)) : Transaction (Option PoolRow)) :=
      Wp.Preserves.stmt (fun _ _ nothing _ => nothing) (fun _ nothing => nothing)
        fun _ _ _ nothing _ => List.append_eq_nil_iff.mpr ⟨nothing, rfl⟩
    exact unwritten σ nothing

/-- The `UPDATE` of `update_target` writes whatever version it finds. -/
theorem retarget_swaps (kept : versionedPolicy.Kept σ) (since : σ.view.PoolSince poolId pool)
    (nothing : σ.writes = []) :
    Wp adjusting (PoolSql.retarget poolId target).run σ fun _ σ' =>
      versionedPolicy.Kept σ' ∧ Swaps poolId pool target σ' := by
  have waiting : ∀ snap : Db, Wp.Stable adjusting fun σ' : Local Sql Db Write Key =>
      (versionedPolicy.Kept σ' ∧ σ'.view.PoolSince poolId pool) ∧ σ'.writes = [] ∧
        (snap.pools.find? poolId).isSome :=
    fun snap σ' d here rely =>
      ⟨RowPolicy.Kept.stable_with (lasting_poolSince poolId pool) σ' d here.1 rely, here.2⟩
  refine Wp.perform waiting (fun d rely => ?_) fun snap σ' busy here _ => Wp.ret fun d rely => ?_
  · obtain ⟨kept, since⟩ :=
      RowPolicy.Kept.stable_with (lasting_poolSince poolId pool) σ d ⟨kept, since⟩ rely
    obtain ⟨row, found, -⟩ := id since
    exact ⟨⟨kept.started _, since⟩, nothing, Option.isSome_of_eq_some found⟩
  · obtain ⟨⟨kept, row, found, stays⟩, nothing, seen⟩ := here
    have target' : pools.target poolId (fun _ => true) snap σ'.view = some row := by
      refine Access.target_eq_some_iff.mpr ⟨?_, found, rfl⟩
      rwa [Access.find?_true]
    have outcome : Engine.exec (Sql.pool (.retarget poolId target)) busy snap σ'.view =
        ⟨pools.locks poolId (fun _ => true) snap, [.pool (row.retarget target)],
          some (row.retarget target)⟩ := by
      have exec : Engine.exec (Sql.pool (.retarget poolId target)) busy snap σ'.view =
          pools.update poolId (fun _ => true) (PoolRow.retarget target) snap σ'.view := rfl
      rw [exec, Access.update, target']
      rfl
    have key : row.poolId = poolId := Table.key_of_find? found
    have committed : σ'.view = σ'.committed := by rw [Local.view, nothing, applyAll_nil]
    have allowed : versionedPolicy.Allows σ'.view (.pool (row.retarget target)) := by
      refine RowRule.allows_write (T := trackedPools) trivial fun old before => ?_
      have same : old = row := by
        refine Option.some.inj (before.symm.trans (Eq.trans ?_ found))
        exact congrArg _ key
      subst same
      exact Or.inl (Nat.lt_succ_self _)
    have swaps : Swaps poolId pool target
        (σ'.after (Engine.exec (Sql.pool (.retarget poolId target)) busy snap σ'.view)) := by
      rw [outcome]
      refine ⟨?_, row, ?_, stays, ?_, ?_⟩
      · refine Local.held_after_of_lock _ _ ?_
        rw [Access.locks_of_target target']
        exact List.mem_singleton_self _
      · exact committed ▸ found
      · rw [Local.view_after, applyAll_cons, applyAll_nil]
        have moved : (apply (Write.pool (row.retarget target)) σ'.view).pools.find?
            (Keyed.key (row.retarget target)) = some (row.retarget target) := Table.find?_put_self
        rwa [key_pool, show (row.retarget target).poolId = poolId from key] at moved
      · intro written member
        rw [Local.after_writes, nothing] at member
        exact Write.pool.inj (List.mem_singleton.mp member)
    refine ⟨RowPolicy.Kept.stable _ d (kept.after ?_) rely, Swaps.stable _ d swaps rely⟩
    intro w member
    rw [outcome] at member
    exact List.mem_singleton.mp member ▸ allowed

/-- A transaction that has retargeted the pool it checked against the version it names. -/
def Retargets (poolId : String) (target : ℤ) (version : ℕ) (σ : Local Sql Db Write Key) : Prop :=
  ∃ pool : PoolRow, pool.envelopeVersion = version ∧ target.toNat ≤ pool.hardCeiling ∧
    Swaps poolId pool target.toNat σ

theorem updateTarget_retargets {target : ℤ} {version : ℕ} {reason : String}
    (kept : versionedPolicy.Kept σ) (nothing : σ.writes = []) :
    Wp adjusting (Store.updateTarget env poolId target version reason) σ fun _ σ' =>
      versionedPolicy.Kept σ' ∧ Retargets poolId target version σ' := by
  unfold Store.updateTarget
  refine (readPool kept nothing).seq fun read σ here => ?_
  obtain ⟨⟨kept, since⟩, nothing⟩ := here
  cases read with
  | none => exact Wp.raise
  | some pool =>
    dsimp only
    refine wp_require fun same => wp_require fun within => ?_
    have bound : target.toNat ≤ pool.hardCeiling := by
      rw [Bool.and_eq_true, decide_eq_true_eq, decide_eq_true_eq] at within
      exact Int.toNat_le.mpr within.2
    refine (retarget_swaps kept (since pool rfl) nothing).seq fun _ σ here => ?_
    have leaves (row : ControllerUpdateRow) : LeavesPools (Sql.other (.insertUpdate row)) :=
      leavesPools_of_mayWrite rfl
    have keeps : Wp.Preserves adjusting
        (fun σ => versionedPolicy.Kept σ ∧ Swaps poolId pool target.toNat σ)
        (Tx.stmt (Sql.other (.insertUpdate (updateRow env poolId target version reason))) :
          Transaction (Except Violation Unit)) :=
      Wp.Preserves.stmt (RowPolicy.Kept.stable.and Swaps.stable)
        (fun _ here => ⟨here.1.started _, here.2.held, here.2.written⟩)
        fun snap σ busy here _ => ⟨here.1.after ((leaves _).allows busy snap σ),
          here.2.after (leaves _) busy snap⟩
    refine (keeps σ here).seq fun recorded σ here => ?_
    cases recorded with
    | error refused => exact Wp.raise
    | ok value =>
      refine Wp.ret fun d rely => ?_
      obtain ⟨kept, swaps⟩ := (RowPolicy.Kept.stable.and Swaps.stable) σ d here rely
      exact ⟨kept, pool, of_decide_eq_true same, bound, swaps⟩

end Targets

/-! ### Recorded versions -/

section Records

variable {env : Env} {σ : Local Sql Db Write Key}

/-- What a controller has recorded stays. -/
def recorded : RowRule ControllerUpdateRow where
  sane _ := True
  stays old row := row = old
  refl _ := rfl
  trans first second := second.trans first

/-- The policy that the rule makes. -/
abbrev recordedPolicy : RowPolicy Db := recorded.on trackedUpdates

/-- What a transaction relies on that records an update. -/
abbrev recording : Discipline Sql Db Write Key := recordedPolicy.discipline anything

/-- An update is in the ledger. -/
abbrev Db.Records (update : ControllerUpdateRow) (d : Db) : Prop :=
  d.controllerUpdates.find? update.updateId = some update

theorem lasting_records (update : ControllerUpdateRow) :
    recordedPolicy.Lasting (Db.Records update) := by
  intro d d' found keeps
  obtain ⟨row, found', rfl⟩ := RowRule.stays_of_keeps (T := trackedUpdates) keeps found
  exact found'

theorem records_pool {β : Type} (statement : PoolSql β) :
    Wp.Preserves recording (recordedPolicy.Kept (S := Sql)) statement.run :=
  RowPolicy.Kept.stmt fun _ _ _ _ _ _ member =>
    RowRule.allows_other (Sql.ne_write_of_mayWrite (T := trackedUpdates) (fun _ => rfl) rfl member)

theorem insertUpdate_records (kept : recordedPolicy.Kept σ) (update : ControllerUpdateRow) :
    Wp recording (OtherSql.insertUpdate update).run σ fun result σ' =>
      recordedPolicy.Kept σ' ∧ (result = .ok () → σ'.view.Records update) := by
  refine Wp.perform (fun _ => RowPolicy.Kept.stable) (fun d rely => ?_)
    fun snap σ' busy kept _ => Wp.ret fun d rely => ?_
  · exact (RowPolicy.Kept.stable σ d kept rely).started _
  · have exec : Engine.exec (Sql.other (.insertUpdate update)) busy snap σ'.view =
        controllerUpdates.insert σ'.view update := rfl
    have kept : recordedPolicy.Kept
        (σ'.after (Engine.exec (Sql.other (.insertUpdate update)) busy snap σ'.view)) :=
      kept.after fun w member => RowRule.allows_insert (T := trackedUpdates) member trivial
    have lasts : recordedPolicy.Lasting fun d =>
        (Engine.exec (Sql.other (.insertUpdate update)) busy snap σ'.view).result = .ok () →
          d.Records update :=
      fun d d' holds keeps accepted => lasting_records update (holds accepted) keeps
    refine RowPolicy.Kept.stable_with lasts _ d ⟨kept, fun accepted => ?_⟩ rely
    · rw [exec] at accepted ⊢
      unfold Access.insert at accepted ⊢
      split at accepted
      · cases accepted
      · rename_i free
        rw [if_neg free, Local.view_after, applyAll_cons, applyAll_nil]
        exact Table.find?_put_self

theorem updateTarget_records {poolId : String} {target : ℤ} {version : ℕ} {reason : String}
    (kept : recordedPolicy.Kept σ) :
    Wp recording (Store.updateTarget env poolId target version reason) σ fun _ σ' =>
      recordedPolicy.Kept σ' ∧ σ'.view.Records (updateRow env poolId target version reason) := by
  unfold Store.updateTarget
  refine (records_pool (.find poolId) σ kept).seq fun read σ kept => ?_
  cases read with
  | none => exact Wp.raise
  | some pool =>
    dsimp only
    refine wp_require fun _ => wp_require fun _ => ?_
    refine (records_pool (.retarget poolId target.toNat) σ kept).seq fun _ σ kept => ?_
    refine (insertUpdate_records kept _).seq fun result σ here => ?_
    cases result with
    | error refused => exact Wp.raise
    | ok value =>
      refine Wp.ret fun d rely => ?_
      exact RowPolicy.Kept.stable_with (lasting_records _) σ d ⟨here.1, here.2 rfl⟩ rely

theorem configurePool_records (spec : PoolSpec) (groupCeiling : ℤ) :
    Wp.Preserves recording (recordedPolicy.Kept (S := Sql))
      (Store.configurePool spec groupCeiling) :=
  configurePool_closed (Wp.Preserves.closed RowPolicy.Kept.stable) spec groupCeiling
    (records_pool _) (records_pool _) (records_pool _) (records_pool _)

end Records

/-! ### Runs -/

/-- The update that a call records if it succeeds. -/
def Adjustment.update? : Adjustment → Option ControllerUpdateRow
  | .configurePool .. => none
  | .updateTarget env poolId target version reason =>
    some (updateRow env poolId target version reason)

/-- What a call has done when it is about to commit. -/
def Adjustment.Done (call : Adjustment) (σ : Local Sql Db Write Key) : Prop :=
  match call with
  | .configurePool .. => WritesPools PoolRow.Within σ.writes
  | .updateTarget _ poolId target version _ => Retargets poolId target version σ

/-- A pool has at least the version that an update recorded. -/
def Db.Reached (update : ControllerUpdateRow) (d : Db) : Prop :=
  ∃ pool, d.pools.find? update.poolId = some pool ∧ update.envelopeVersion ≤ pool.envelopeVersion

theorem lasting_reached (update : ControllerUpdateRow) :
    versionedPolicy.Lasting (Db.Reached update) := by
  rintro d d' ⟨pool, found, reached⟩ keeps
  obtain ⟨row, found', grows | rfl⟩ := RowRule.stays_of_keeps (T := trackedPools) keeps found
  · exact ⟨row, found', reached.trans grows.le⟩
  · exact ⟨row, found', reached⟩

/-- The update of a call, if it has one, is in the ledger. -/
def Adjustment.Recorded (call : Adjustment) (d : Db) : Prop :=
  ∀ update ∈ call.update?, d.Records update

/-- The version that a call has made, if it makes one, has been reached. -/
def Adjustment.Replaced (call : Adjustment) (d : Db) : Prop :=
  ∀ update ∈ call.update?, d.Reached update

theorem Adjustment.Done.reached {call : Adjustment} {σ : Local Sql Db Write Key}
    (done : call.Done σ) {update : ControllerUpdateRow} (records : call.update? = some update) :
    σ.view.Reached update := by
  cases call with
  | configurePool => cases records
  | updateTarget env poolId target version reason =>
    obtain rfl := Option.some.inj records
    obtain ⟨pool, same, -, -, row, -, stays, now, -⟩ := done
    refine ⟨_, now, Nat.succ_le_succ ?_⟩
    rcases stays with grows | rfl
    · exact same ▸ grows.le
    · exact same.ge

namespace Adjusting

/-- The update that a transaction has committed, reporting success. -/
def succeeded (sys : Adjusting) (t : ℕ) : Option ControllerUpdateRow :=
  match sys.sessions t with
  | .committed call () => call.update?
  | _ => none

/-- An `update_target` that commits replaces the version that it names. The pool is locked
since its `UPDATE`. -/
def Current (sys : Adjusting) : Event Adjustment → Prop
  | .commit t =>
    match sys.sessions t with
    | .active session =>
      match session.call with
      | .updateTarget _ poolId _ version _ =>
        ∀ pool ∈ sys.committed.pools.find? poolId, pool.envelopeVersion = version
      | .configurePool .. => True
    | _ => True
  | _ => True

instance (sys : Adjusting) (event : Event Adjustment) : Decidable (Current sys event) := by
  unfold Current
  split
  · split
    · split <;> infer_instance
    · infer_instance
  · infer_instance

/-- The runs of adjustments all of whose steps are allowed. -/
abbrev Run (allowed : Adjusting → Event Adjustment → Prop) : Adjusting → Adjusting → Prop :=
  System.Run Adjustment.code allowed

variable {allowed : Adjusting → Event Adjustment → Prop} {first last : Adjusting} {d : Db}

theorem sound_versioned (allowed : Adjusting → Event Adjustment → Prop) :
    Sound Adjustment.code allowed (fun _ => adjusting) versionedPolicy.Sound
      fun call _ σ => versionedPolicy.Kept σ ∧ call.Done σ := by
  refine RowPolicy.toSound And.left (fun _ _ _ => trivial) fun call d sound => ?_
  cases call with
  | configurePool spec groupCeiling =>
    exact configurePool_adjusts spec groupCeiling _
      ⟨.initial sound, fun _ member => (List.not_mem_nil member).elim⟩
  | updateTarget env poolId target version reason =>
    exact updateTarget_retargets (.initial sound) rfl

theorem sound_recorded (allowed : Adjusting → Event Adjustment → Prop) :
    Sound Adjustment.code allowed (fun _ => recording) recordedPolicy.Sound
      fun call _ σ => recordedPolicy.Kept σ ∧ call.Recorded σ.view := by
  refine RowPolicy.toSound And.left (fun _ _ _ => trivial) fun call d sound => ?_
  cases call with
  | configurePool spec groupCeiling =>
    exact (configurePool_records spec groupCeiling _ (.initial sound)).mono
      fun _ _ kept => ⟨kept, fun _ none => by cases none⟩
  | updateTarget env poolId target version reason =>
    refine (updateTarget_records (.initial sound)).mono fun _ _ done => ⟨done.1, ?_⟩
    rintro update ⟨⟩
    exact done.2

private theorem versioned_start (d : Db) : versionedPolicy.Sound d := fun _ _ _ => trivial

private theorem recorded_start (d : Db) : recordedPolicy.Sound d := fun _ _ _ => trivial

/-- What a success has recorded stays in the ledger. -/
theorem Run.records (run : Run allowed (System.initial d) last) {t : ℕ}
    {update : ControllerUpdateRow} (done : last.succeeded t = some update) :
    last.committed.Records update := by
  have lasts : ∀ (call : Adjustment) (_ : Unit), recordedPolicy.Lasting call.Recorded :=
    fun call _ d d' holds keeps update records =>
      lasting_records update (holds update records) keeps
  have persists :=
    RowPolicy.persists And.left (sound_recorded allowed) And.right lasts (recorded_start d) run
  unfold succeeded at done
  split at done
  · rename_i call ended
    exact persists t call () ended update done
  · cases done

/-- A pool has at least the version that a success has recorded. -/
theorem Run.reached (run : Run allowed (System.initial d) last) {t : ℕ}
    {update : ControllerUpdateRow} (done : last.succeeded t = some update) :
    last.committed.Reached update := by
  have lasts : ∀ (call : Adjustment) (_ : Unit), versionedPolicy.Lasting call.Replaced :=
    fun call _ d d' holds keeps update records =>
      lasting_reached update (holds update records) keeps
  have persists := RowPolicy.persists And.left (sound_versioned allowed)
    (fun done update records => done.2.reached records) lasts (versioned_start d) run
  unfold succeeded at done
  split at done
  · rename_i call ended
    exact persists t call () ended update done
  · cases done

/-- What a commit in the right moment makes of a pool. -/
theorem commits (held : Held (fun _ => adjusting) versionedPolicy.Sound
      (fun call _ σ => versionedPolicy.Kept σ ∧ call.Done σ) last) {t : ℕ}
    {session : Session Sql RuntimeError Unit Adjustment Db Write}
    (active : last.sessions t = .active session) (ended : session.prog = .ret ())
    (current : Current last (.commit t)) :
    (last.committed.InEnvelope → (last.localOf t session).view.InEnvelope) ∧
      ∀ env poolId target version reason,
        session.call = .updateTarget env poolId target version reason →
        ∃ pool, last.committed.pools.find? poolId = some pool ∧ pool.envelopeVersion = version ∧
          (last.localOf t session).view.pools.find? poolId = some (pool.retarget target.toNat) := by
  obtain ⟨-, done⟩ := held.post_of_ret active ended
  unfold Current at current
  simp only [active] at current
  cases call : session.call with
  | configurePool spec groupCeiling =>
    rw [call] at done
    refine ⟨fun within id row found => ?_, fun _ _ _ _ _ same => by cases same⟩
    exact (done.cases found).elim (within id row) And.left
  | updateTarget env poolId target version reason =>
    rw [call] at done
    simp only [call] at current
    obtain ⟨pool, same, bound, held, row, found, stays, now, only⟩ := done
    have here : row.envelopeVersion = version := current row found
    -- the version is the one that was checked, and so is the pool
    obtain rfl := versioned_eq stays (here.trans same.symm)
    refine ⟨fun within id row' found' => ?_, ?_⟩
    · rcases only.cases found' with before | ⟨rfl, -⟩
      · exact within id row' before
      · exact bound
    · rintro _ _ _ _ _ ⟨⟩
      exact ⟨row, found, here, now⟩

/-- Targets stay within the ceilings. -/
theorem Run.inEnvelope (within : d.InEnvelope) (run : Run Current (System.initial d) last) :
    last.committed.InEnvelope := by
  induction run with
  | refl => exact within
  | @tail middle last event run ok step ih =>
    have held := (sound_versioned Current).held (Held.initial (versioned_start d)) run
    rcases System.step_cases step with ⟨same, -⟩ | ⟨t, session, value, rfl, active, prog, after, -⟩
    · rw [same]
      exact ih
    · rw [after]
      exact (commits held active prog ok).1 ih

/-- Only a commit of the transaction itself makes it succeed. -/
theorem succeeded_step {sys : Adjusting} {event : Event Adjustment}
    (step : sys.step Adjustment.code event = some last) {u : ℕ} {update : ControllerUpdateRow}
    (done : last.succeeded u = some update) :
    sys.succeeded u = some update ∨ (event = .commit u ∧ ∃ session,
      sys.sessions u = .active session ∧ session.prog = .ret () ∧
        session.call.update? = some update) := by
  unfold succeeded at done ⊢
  split at done
  · rename_i call ended
    rcases System.step_cases step with ⟨-, before⟩ | ⟨t, session, value, rfl, active, prog, -, -⟩
    · rw [before u call () ended]
      exact Or.inl done
    · simp only [System.step, active, prog] at step
      obtain rfl := Option.some.inj step
      rcases eq_or_ne u t with rfl | apart
      · rw [System.setStatus_sessions_self] at ended
        cases ended
        exact Or.inr ⟨rfl, session, active, prog, done⟩
      · rw [System.setStatus_sessions_of_ne _ apart] at ended
        have before : sys.sessions u = .committed call () := ended
        rw [before]
        exact Or.inl done
  · cases done

/-- A success makes the next version of its pool. -/
theorem commits_next (held : Held (fun _ => adjusting) versionedPolicy.Sound
      (fun call _ σ => versionedPolicy.Kept σ ∧ call.Done σ) last) {t : ℕ}
    {session : Session Sql RuntimeError Unit Adjustment Db Write}
    (active : last.sessions t = .active session) (ended : session.prog = .ret ())
    (current : Current last (.commit t)) {update : ControllerUpdateRow}
    (records : session.call.update? = some update) :
    ∃ pool, last.committed.pools.find? update.poolId = some pool ∧
      update.envelopeVersion = pool.envelopeVersion + 1 := by
  cases call : session.call with
  | configurePool => rw [call] at records; cases records
  | updateTarget env poolId target version reason =>
    rw [call] at records
    obtain rfl := Option.some.inj records
    obtain ⟨pool, found, rfl, -⟩ := (commits held active ended current).2 _ _ _ _ _ call
    exact ⟨pool, found, rfl⟩

/-- Two successes never record the same version of a pool. -/
theorem Run.distinct (run : Run Current (System.initial d) last) {t u : ℕ}
    {update update' : ControllerUpdateRow} (done : last.succeeded t = some update)
    (done' : last.succeeded u = some update') (pool : update.poolId = update'.poolId)
    (version : update.envelopeVersion = update'.envelopeVersion) : t = u := by
  induction run with
  | refl => cases done
  | @tail middle last event run ok step ih =>
    have held := (sound_versioned Current).held (Held.initial (versioned_start d)) run
    -- a later success would have to replace a version that is gone
    have late {t u : ℕ} {update update' : ControllerUpdateRow}
        (before : succeeded middle t = some update) (commit : event = .commit u)
        {session : Session Sql RuntimeError Unit Adjustment Db Write}
        (active : middle.sessions u = .active session) (prog : session.prog = .ret ())
        (records : session.call.update? = some update') (pool : update.poolId = update'.poolId) :
        update.envelopeVersion ≠ update'.envelopeVersion := by
      obtain ⟨reached, found, bound⟩ := Run.reached run before
      obtain ⟨current, found', next⟩ := commits_next held active prog (commit ▸ ok) records
      rw [pool, found'] at found
      obtain rfl := Option.some.inj found
      omega
    rcases succeeded_step step done with before | ⟨commit, session, active, prog, records⟩
    · rcases succeeded_step step done' with before' | ⟨commit', session', active', prog', records'⟩
      · exact ih before before'
      · exact absurd version (late before commit' active' prog' records' pool)
    · rcases succeeded_step step done' with before' | ⟨commit', -⟩
      · exact absurd version.symm (late before' commit active prog records pool.symm)
      · exact Event.commit.inj (commit.symm.trans commit')

/-- In every run in which each `update_target` that commits replaces the version that it
names, it takes effect on exactly the pool that it was computed for. A version is then
replaced by one of them at most, what they record are different versions, and targets
stay within the ceilings. -/
theorem Run.compare_and_set (within : d.InEnvelope)
    (before : Run Current (System.initial d) first) (after : Run Current first last) :
    last.committed.InEnvelope ∧
    (∀ t update, last.succeeded t = some update → last.committed.Records update) ∧
    (∀ t u update update', last.succeeded t = some update → last.succeeded u = some update' →
      update.poolId = update'.poolId → update.envelopeVersion = update'.envelopeVersion →
      t = u) ∧
    (∀ id pool pool', first.committed.pools.find? id = some pool →
      last.committed.pools.find? id = some pool' →
      pool'.envelopeVersion = pool.envelopeVersion → pool' = pool) ∧
    ∀ t session, last.sessions t = .active session → session.prog = .ret () →
      Current last (.commit t) → ∀ env poolId target version reason,
        session.call = .updateTarget env poolId target version reason →
        ∃ pool, last.committed.pools.find? poolId = some pool ∧ pool.envelopeVersion = version ∧
          (last.localOf t session).view.pools.find? poolId =
            some (pool.retarget target.toNat) := by
  have run := before.trans after
  refine ⟨Run.inEnvelope within run, fun _ _ => Run.records run,
    fun _ _ _ _ => Run.distinct run, ?_, ?_⟩
  · intro id pool pool' found found' same
    have keeps :=
      RowPolicy.relates And.left (sound_versioned Current) (versioned_start d) before after
    obtain ⟨row, there, stays⟩ := RowRule.stays_of_keeps (T := trackedPools) keeps found
    obtain rfl := Option.some.inj (there.symm.trans found')
    exact versioned_eq stays same
  · intro t session active ended current
    have held := (sound_versioned Current).held (Held.initial (versioned_start d)) run
    exact (commits held active ended current).2

/-- A transaction of `n` statements, with nobody in between. -/
def alone (t : ℕ) (call : Adjustment) (n : ℕ) : List (Event Adjustment) :=
  .start t call :: (List.replicate n [Event.look t, Event.exec t]).flatten ++ [.commit t]

/-- A schedule from the empty ledger whose outcome passes a test is a run. -/
theorem exists_run (allowed : Adjusting → Event Adjustment → Prop)
    [∀ sys event, Decidable (allowed sys event)] (schedule : List (Event Adjustment))
    (test : Adjusting → Bool)
    (passed : ((System.play Adjustment.code allowed (System.initial (Db.empty {}))
      schedule).any test) = true) :
    ∃ last, Run allowed (System.initial (Db.empty {})) last ∧ test last = true := by
  obtain ⟨last, played, passed⟩ := (Option.any_eq_true _ _).mp passed
  exact ⟨last, System.Run.of_play played, passed⟩

/-- A pool of the sample, with a ceiling for its target. -/
def configuring (maximum : ℕ+) : Adjustment :=
  .configurePool { Sample.pool "e" with
    hardCeiling := maximum, target := min 2 maximum, target_le := min_le_right 2 (maximum : ℕ) } 4

/-- A target for the sample's pool. -/
def targeting (updateId : ℕ) (target : ℤ) (version : ℕ) : Adjustment :=
  .updateTarget { Sample.env "" with updateId := updateId } "p" target version "load"

/-- The first statement of a transaction. -/
def begun (t : ℕ) (call : Adjustment) : List (Event Adjustment) :=
  [.start t call, .look t, .exec t]

/-- The rest of an `update_target` that has read the pool. -/
def written (t : ℕ) : List (Event Adjustment) :=
  [.look t, .exec t, .look t, .exec t, .commit t]

/-- A second target for the version that a first one replaces is refused. -/
theorem compare_and_set_sample :
    ∃ (first last : Adjusting) (pool : PoolRow),
      Run Current (System.initial (Db.empty {})) first ∧ Run Current first last ∧
      last.committed.pools.find? "p" = some pool ∧ pool.target ≤ pool.hardCeiling ∧
      last.succeeded 1 = some (updateRow { Sample.env "" with updateId := 1 } "p" 3 1 "load") ∧
      ∀ u update, last.succeeded u = some update → update.poolId = "p" →
        update.envelopeVersion = 2 → 1 = u := by
  obtain ⟨last, run, passed⟩ := exists_run Current
    (alone 0 (configuring 4) 3 ++ alone 1 (targeting 1 3 1) 3 ++ begun 2 (targeting 2 4 1))
    (fun sys => (sys.committed.pools.find? "p").isSome &&
      succeeded sys 1 = some (updateRow { Sample.env "" with updateId := 1 } "p" 3 1 "load"))
    (by decide +kernel)
  obtain ⟨there, done⟩ := Bool.and_eq_true_iff.mp passed
  have done := of_decide_eq_true done
  obtain ⟨pool, found⟩ := Option.isSome_iff_exists.mp there
  obtain ⟨inEnvelope, -, distinct, -⟩ :=
    Run.compare_and_set (d := Db.empty {}) (fun _ _ none => by cases none) run (.refl last)
  refine ⟨last, last, pool, run, .refl last, found, inEnvelope "p" pool found, done, ?_⟩
  intro u update done' same version
  exact distinct 1 u _ update done done' same.symm version.symm

/-- Two targets for the same version both succeed when each is checked before the other is
written, and record the same version. And a target that was checked before its ceiling was
lowered is written above it. -/
theorem target_overwrites :
    (∃ (last : Adjusting) (update update' : ControllerUpdateRow),
      Run (fun _ _ => True) (System.initial (Db.empty {})) last ∧
      last.succeeded 1 = some update ∧ last.succeeded 2 = some update' ∧
      update.poolId = update'.poolId ∧ update.envelopeVersion = update'.envelopeVersion) ∧
    ∃ (last : Adjusting) (pool : PoolRow),
      Run (fun _ _ => True) (System.initial (Db.empty {})) last ∧
      last.committed.pools.find? "p" = some pool ∧ pool.hardCeiling < pool.target := by
  constructor
  · obtain ⟨last, run, passed⟩ := exists_run (fun _ _ => True)
      (alone 0 (configuring 4) 3 ++ begun 1 (targeting 1 3 1) ++
        alone 2 (targeting 2 4 1) 3 ++ written 1)
      (fun sys =>
        succeeded sys 1 = some (updateRow { Sample.env "" with updateId := 1 } "p" 3 1 "load") &&
        succeeded sys 2 = some (updateRow { Sample.env "" with updateId := 2 } "p" 4 1 "load"))
      (by decide +kernel)
    simp only [Bool.and_eq_true, decide_eq_true_eq] at passed
    exact ⟨last, _, _, run, passed.1, passed.2, rfl, rfl⟩
  · obtain ⟨last, run, passed⟩ := exists_run (fun _ _ => True)
      (alone 0 (configuring 4) 3 ++ begun 1 (targeting 1 3 1) ++
        alone 2 (configuring 1) 4 ++ written 1)
      (fun sys => (sys.committed.pools.find? "p").any fun pool => pool.hardCeiling < pool.target)
      (by decide +kernel)
    obtain ⟨pool, found, above⟩ := (Option.any_eq_true _ _).mp passed
    exact ⟨last, pool, run, found, of_decide_eq_true above⟩

end Adjusting

end IntramindRuntime.Ledger
