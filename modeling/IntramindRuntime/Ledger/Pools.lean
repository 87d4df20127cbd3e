import IntramindRuntime.Ledger.Results

/-!
# Which pools the ledger has

Only `configure_pool` adds a pool, and nothing takes one away. A pool is written under the
identifier in its specification, after its group, so that joining pools and groups loses no
pool.

## Main definitions

* `Db.Grouped` — every pool has a group, and the identifier in its specification
* `Request.configures` — the pool that a request configures

## Main results

* `Request.grouped` — requests keep the pools in their groups
* `Request.pool_stays`, `Request.pool_before` — a request adds no pool but the one it configures
-/

namespace IntramindRuntime.Ledger

open Library

/-- Every pool has the identifier in its specification, and a group. -/
def Db.Grouped (d : Db) : Prop :=
  ∀ id pool, d.pools.find? id = some pool →
    pool.spec.poolId = id ∧ d.groups.find? pool.groupId ≠ none

theorem Db.empty_grouped (authority : Authority) : (Db.empty authority).Grouped := by
  intro id pool found
  cases found

/-- The group of a cell. -/
def Cell.group? : Cell → Option GroupRow
  | .group row => row
  | _ => none

/-- `runtime_groups`. -/
def trackedGroups : Tracked Db Write Key GroupRow where
  toAccess := groups
  get := Cell.group?
  get_lock _ _ := rfl
  get_write _ _ := Table.find?_put_self
  key_write _ := rfl
  lock_injective := Key.group.inj
  cells k := by
    cases k with
    | group id => exact Or.inl ⟨id, rfl⟩
    | _ => exact Or.inr fun _ => rfl
  other w := by
    cases w with
    | group row => exact Or.inl ⟨row, rfl⟩
    | _ => exact Or.inr fun _ same => by cases same

/-- A pool keeps its specification and its group, and none is added. -/
def placed : RowGrowth PoolRow where
  follows old row := row.spec = old.spec ∧ row.groupId = old.groupId
  fresh _ := False
  refl _ := ⟨rfl, rfl⟩
  trans first second := ⟨second.1.trans first.1, second.2.trans first.2⟩
  keeps fresh _ := fresh

/-- The law that every method but `configure_pool` keeps. -/
abbrev placedKept : RowChange Db :=
  (placed.on trackedPools).both ((RowGrowth.frozen GroupRow).on trackedGroups)

/-- The transaction keeps the law. -/
abbrev KeepsPlaces {α : Type} (p : Transaction α) : Prop := placedKept.KeptBy p

section Statements

variable {β : Type}

theorem keepsPlaces_other {statement : Sql β} (pools : statement.mayWrite .pools = false)
    (groups : statement.mayWrite .groups = false) : KeepsPlaces (Tx.stmt statement) :=
  (keptBy_other (fun _ => rfl) pools).both (keptBy_other (fun _ => rfl) groups)

/-- An update of a pool that changes neither its specification nor its group. -/
theorem keepsPlaces_update {d : Db} {w : Write} {poolId : String} {cond : PoolRow → Bool}
    {f : PoolRow → PoolRow} (member : w ∈ (pools.update poolId cond f d d).writes)
    (key : ∀ row, (f row).poolId = row.poolId) (follows : ∀ row, placed.follows row (f row)) :
    placedKept.keeps (RowStore.key Db w) (RowStore.cell (RowStore.key Db w) d)
      (RowStore.cell (RowStore.key Db w) (RowStore.apply w d)) := by
  refine ⟨RowGrowth.of_update (T := trackedPools) member key fun row _ _ => follows row,
    RowGrowth.of_other fun row same => ?_⟩
  obtain ⟨pool, -, -, written⟩ := Access.mem_update_writes member
  cases written.symm.trans same

theorem keepsPlaces_resume {poolId engineEpoch : String} {target : ℕ} :
    KeepsPlaces (PoolSql.resume poolId engineEpoch target).run :=
  RowChange.keptBy_stmt fun _ _ member =>
    keepsPlaces_update member (fun _ => rfl) fun _ => ⟨rfl, rfl⟩

/-- The other statements on pools write no group, and neither specification nor group of a
pool. -/
theorem keepsPlaces_pool {statement : PoolSql β} (plain : statement.Plain) :
    KeepsPlaces statement.run := by
  refine RowChange.keptBy_stmt fun d w member => ?_
  have member : w ∈ (statement.exec d d).writes := member
  cases statement with
  | configureGroup | configure | resume => exact plain.elim
  | group | forUpdate | find | specs | unsettled | computing => cases member
  | degrade | quiesce | stop | retarget =>
    exact keepsPlaces_update member (fun _ => rfl) fun row => ⟨rfl, rfl⟩

theorem keepsPlaces_builds : Builds KeepsPlaces := by
  refine .of_terminal placedKept.keptBy_closed (fun statement plain => ?_)
    fun _ _ _ _ => keepsPlaces_other rfl rfl
  cases statement with
  | pool statement => exact keepsPlaces_pool plain
  | _ => exact keepsPlaces_other rfl rfl

end Statements

/-- The pool that a request configures. -/
def Request.configures : Request → Option String
  | .call _ (.configurePool spec _) => some spec.poolId
  | _ => none

section Requests

variable {sha256 : String → String} {env : Env} {d : Db} {id : String}

/-- Every other method keeps the law. -/
theorem call_keepsPlaces (asked : Call)
    (other : ∀ spec groupCeiling, asked ≠ .configurePool spec groupCeiling) :
    KeepsPlaces (asked.code sha256 env) := by
  have builds := keepsPlaces_builds
  have attempt : ∀ {β : Type} (statement : AttemptSql β), KeepsPlaces statement.run :=
    fun _ => keepsPlaces_other rfl rfl
  exact builds.call_of_moves asked (fun _ => keepsPlaces_other rfl rfl)
    (fun spec groupCeiling here => (other spec groupCeiling here).elim)
    (fun _ _ _ _ => builds.resumeEngine _ _ _ fun _ => keepsPlaces_resume)
    (fun _ => builds.submitOperation _ fun _ _ => keepsPlaces_other rfl rfl) attempt
    (fun _ => keepsPlaces_other rfl rfl) (fun _ _ => keepsPlaces_other rfl rfl)
    (fun _ => keepsPlaces_other rfl rfl)
    (fun _ _ _ => builds.reserveNext _ _ fun _ _ => builds.reserveCandidate fun _ _ =>
      builds.reserve (fun _ _ => attempt _) fun _ _ => keepsPlaces_other rfl rfl)
    (fun _ {_} _ _ => keepsPlaces_other rfl rfl)
    (fun _ _ _ _ _ => builds.decideResult _ _ _ _ (keepsPlaces_other rfl rfl))
    (fun _ _ _ _ _ _ => builds.finishRun _ _ _ _ _ (keepsPlaces_other rfl rfl) fun _ _ _ =>
      builds.finishRoot _ _ _ _ fun _ => keepsPlaces_other rfl rfl)
    (fun _ _ _ => builds.bindCompletion _ _ _ fun _ => keepsPlaces_other rfl rfl)
    fun _ _ _ => keepsPlaces_other rfl rfl

/-- The pools after a configuration: the one that was configured is there, and no other is new. -/
structure Configured (spec : PoolSpec) (d d' : Db) : Prop where
  grouped : d.Grouped → d'.Grouped
  stays : ∀ id, d.pools.find? id ≠ none → d'.pools.find? id ≠ none
  only : ∀ id, d'.pools.find? id ≠ none → d.pools.find? id ≠ none ∨ id = spec.poolId

theorem configurePool_configures (spec : PoolSpec) (groupCeiling : ℤ) :
    (Store.configurePool spec groupCeiling).Ensures d fun _ d' => Configured spec d d' := by
  -- the group is there when the pool is written
  have configure {d₁ : Db} {row : PoolRow} (pools' : d₁.pools = d.pools)
      (groups' : ∀ id, d.groups.find? id ≠ none ∨ id = spec.groupId → d₁.groups.find? id ≠ none)
      (named : row.poolId = spec.poolId) (specified : row.spec = spec)
      (placed : row.groupId = spec.groupId) :
      Configured spec d (RowStore.apply (pools.write row) d₁ : Db) := by
    have table (id : String) : (RowStore.apply (pools.write row) d₁ : Db).pools.find? id =
        if row.poolId = id then some row else d.pools.find? id := by
      rw [← pools']
      exact Table.find?_put
    refine ⟨fun grouped id pool found => ?_, fun id before => ?_, fun id after => ?_⟩
    · rw [table] at found
      split at found
      · rename_i same
        cases found
        exact ⟨by rw [specified, ← same, named], groups' _ (Or.inr placed)⟩
      · obtain ⟨same, group⟩ := grouped id pool found
        exact ⟨same, groups' _ (Or.inl group)⟩
    · rw [table]
      split
      · exact Option.some_ne_none row
      · exact before
    · rw [table] at after
      split at after
      · rename_i same
        exact Or.inr (same.symm.trans named)
      · exact Or.inl after
  have write {d₁ : Db} (pools' : d₁.pools = d.pools)
      (groups' : ∀ id, d.groups.find? id ≠ none ∨ id = spec.groupId → d₁.groups.find? id ≠ none) :
      (Tx.perform (Sql.pool (.configure spec)) fun _ => .ret () : Transaction Unit).Ensures d₁
        fun _ d' => Configured spec d d' := by
    refine Tx.Ensures.upsert rfl (fun _ => Tx.Ensures.ret (configure pools' groups' rfl rfl rfl))
      (fun old found _ => Tx.Ensures.ret (configure pools' groups' ?_ rfl rfl))
      fun _ _ never => by cases never
    exact Table.key_of_find? found
  have grouped {row : GroupRow} (named : row.groupId = spec.groupId) (id : String)
      (here : d.groups.find? id ≠ none ∨ id = spec.groupId) :
      (RowStore.apply (groups.write row) d : Db).groups.find? id ≠ none := by
    have table : (RowStore.apply (groups.write row) d : Db).groups.find? id =
        if row.groupId = id then some row else d.groups.find? id := Table.find?_put
    rw [table]
    split
    · exact Option.some_ne_none row
    · rename_i other
      exact here.resolve_right fun same => other (named.trans same.symm)
  unfold Store.configurePool
  simp only [Tx.bind_eq, Tx.stmt_bind]
  refine ensures_require fun _ => ?_
  refine Tx.Ensures.upsert rfl (fun _ => ?_) (fun old found _ => ?_) fun _ _ never => by cases never
  · refine Tx.Ensures.selectForUpdate rfl (ensures_when (fun _ => ?_) fun _ => ?_)
    · exact Tx.Ensures.read rfl (ensures_require fun _ => write rfl (grouped rfl))
    · exact write rfl (grouped rfl)
  · have named : old.groupId = spec.groupId := Table.key_of_find? found
    refine Tx.Ensures.selectForUpdate rfl (ensures_when (fun _ => ?_) fun _ => ?_)
    · exact Tx.Ensures.read rfl (ensures_require fun _ => write rfl (grouped named))
    · exact write rfl (grouped named)

/-- What a request does to the pools. -/
theorem Request.places (request : Request) :
    placedKept.Keeps d (request.after sha256 d) ∨ ∃ spec, request.configures = some spec.poolId ∧
      Configured spec d (request.after sha256 d) := by
  by_cases configures : ∃ env spec groupCeiling,
      request = .call env (.configurePool spec groupCeiling)
  · obtain ⟨env, spec, groupCeiling, rfl⟩ := configures
    refine Or.inr ⟨spec, rfl, ?_⟩
    unfold Request.after
    split
    · next reply d' ran =>
      have done : (Call.code sha256 env (.configurePool spec groupCeiling)).Ensures d
          fun _ d' => Configured spec d d' :=
        ensures_reply (configurePool_configures spec groupCeiling)
      exact done reply d' ran
    · exact ⟨id, fun _ here => here, fun _ here => Or.inl here⟩
  · refine Or.inl (request.keeps_of_code fun env asked asks => call_keepsPlaces asked ?_)
    rintro spec groupCeiling rfl
    obtain ⟨env', rfl⟩ := Request.eq_call_of_asks asks trivial
    exact configures ⟨env', spec, groupCeiling, rfl⟩

theorem Request.pool_stays (request : Request) (found : d.pools.find? id ≠ none) :
    (request.after sha256 d).pools.find? id ≠ none := by
  obtain ⟨pool, found⟩ := Option.ne_none_iff_exists'.mp found
  rcases request.places with keeps | ⟨spec, -, configured⟩
  · obtain ⟨row, after, -⟩ := RowGrowth.follows_of_keeps (T := trackedPools) keeps.left found
    exact fun absent => Option.some_ne_none row (after.symm.trans absent)
  · exact configured.stays id fun absent => Option.some_ne_none pool (found.symm.trans absent)

theorem Request.pool_before (request : Request)
    (found : (request.after sha256 d).pools.find? id ≠ none) :
    d.pools.find? id ≠ none ∨ request.configures = some id := by
  rcases request.places with keeps | ⟨spec, configures, configured⟩
  · obtain ⟨pool, found⟩ := Option.ne_none_iff_exists'.mp found
    rcases RowGrowth.cases_of_keeps (T := trackedPools) keeps.left found with
      ⟨old, before, -⟩ | ⟨-, never⟩
    · exact Or.inl fun absent => Option.some_ne_none old (before.symm.trans absent)
    · exact never.elim
  · refine (configured.only id found).imp_right fun same => ?_
    rw [same]
    exact configures

/-- Every request keeps the pools in their groups. -/
theorem Request.grouped (request : Request) (grouped : d.Grouped) :
    (request.after sha256 d).Grouped := by
  rcases request.places with keeps | ⟨spec, -, configured⟩
  · intro id pool found
    rcases RowGrowth.cases_of_keeps (T := trackedPools) keeps.left found with
      ⟨old, before, spec, group⟩ | ⟨-, never⟩
    · have groups : (request.after sha256 d).groups.find? pool.groupId =
          d.groups.find? pool.groupId := RowGrowth.find?_of_frozen (T := trackedGroups) keeps.right
      rw [spec, groups, group]
      exact grouped id old before
    · exact never.elim
  · exact configured.grouped grouped

end Requests

end IntramindRuntime.Ledger
