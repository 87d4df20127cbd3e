import IntramindRuntime.Ledger.CleanupPhases

/-!
# Requests that no pool can serve

Which pools an operation may be given to is written three times: in the query that looks for
candidates, in the checks that follow it, and in the cleanup pass, which fails a request that
no configured pool will ever take. The three agree but for one case. The query compares the
capacity profile of an operation as it is, while the pass and the checks take an empty name
for no name at all: such an operation is never selected, and never failed.

## Main definitions

* `PoolRow.Offers` — the model, the kind and the capabilities of a pool suit an operation
* `PoolRow.Fits` — a pool suits an operation in all but its capacity profile
* `PoolRow.Selects` — the query and the checks of `reserve_next` take an operation for a pool
* `Db.FailsForCapacity` — an operation has failed because no pool can serve it

## Main results

* `impossible_isSome_iff` — when the pass calls an operation impossible
* `reconcile_judges` — what the pass does to an operation that it looks at
* `impossible_iff_unservable` — the pass fails what no pool can be given, unless the capacity
  profile is the empty name
-/

namespace IntramindRuntime.Ledger

open Library

/-! ### What pools offer and take -/

/-- The model, the kind and the capabilities of the pool are those that the operation needs. -/
structure PoolRow.Offers (pool : PoolRow) (spec : OperationSpec) : Prop where
  model : pool.spec.modelProfile = spec.modelProfile
  kind : pool.spec.kind = spec.kind
  capabilities : spec.requiredCapabilities ⊆ pool.spec.capabilities

/-- The pool suits the operation in all but its capacity profile. -/
structure PoolRow.Fits (pool : PoolRow) (spec : OperationSpec) : Prop
    extends pool.Offers spec where
  size : spec.budgetBound ≤ pool.spec.requestLimit
  batch : spec.kind = .embedding → spec.textsCount ≤ pool.spec.maxBatchSize
  revision : spec.kind = .embedding → spec.modelRevision? = some pool.spec.modelRevision

/-- The checks of `reserve_next` that pass over a candidate. -/
def Store.passesOver (pool : PoolRow) (spec : OperationSpec) : Bool :=
  (spec.capacityProfileId.any fun profile => profile ≠ "" && profile ≠ pool.spec.profileId) ||
    !decide (spec.requiredCapabilities ⊆ pool.spec.capabilities) ||
    decide (pool.spec.requestLimit < spec.budgetBound)

/-- The query of `reserve_next` finds the operation for the pool, and the checks after the
query do not pass over it. -/
structure PoolRow.Selects (pool : PoolRow) (spec : OperationSpec) : Prop
    extends pool.Accepts spec where
  checked : Store.passesOver pool spec = false

section Compatibility

variable {pool : PoolRow} {spec : OperationSpec} {env : Env}

/-- What the query finds, the checks let through. -/
theorem PoolRow.selects_iff : pool.Selects spec ↔ pool.Accepts spec := by
  refine ⟨Selects.toAccepts, fun accepts => { accepts with checked := ?_ }⟩
  unfold Store.passesOver
  have named : (spec.capacityProfileId.any fun profile =>
      profile ≠ "" && profile ≠ pool.spec.profileId) = false := by
    rw [Option.any_eq_false]
    intro profile here
    simp [accepts.profile profile here]
  rw [named, decide_eq_true accepts.capabilities, decide_eq_false (not_lt.mpr accepts.size)]
  rfl

/-- A pool takes what it fits, if the operation names no other profile. -/
theorem PoolRow.accepts_iff (modelled : pool.modelProfile = pool.spec.modelProfile) :
    pool.Accepts spec ↔
      pool.Fits spec ∧ ∀ profile ∈ spec.capacityProfileId, profile = pool.spec.profileId := by
  constructor
  · intro accepts
    refine ⟨⟨⟨?_, accepts.kind.symm, accepts.capabilities⟩, accepts.size, fun kind => ?_,
      fun kind => ?_⟩, accepts.profile⟩
    · exact modelled.symm.trans accepts.model.symm
    · exact accepts.batch (accepts.kind.symm.trans kind)
    · exact accepts.revision (accepts.kind.symm.trans kind)
  · rintro ⟨fits, profile⟩
    refine ⟨?_, fits.kind.symm, profile, fits.size, fun kind => ?_, fun kind => ?_,
      fits.capabilities⟩
    · exact fits.model.symm.trans modelled.symm
    · exact fits.batch (fits.kind.symm.trans kind)
    · exact fits.revision (fits.kind.symm.trans kind)

end Compatibility

/-! ### What the pass calls impossible -/

section Verdict

variable {pools : List PoolRow} {spec : OperationSpec}

/-- The reasons for which the pass fails an operation that no pool can serve. -/
def Store.capacityReasons : List String :=
  ["capacity_profile_changed", "model_revision_changed", "context_exceeds_all_pools",
    "request_exceeds_all_pools"]

theorem Store.mem_capacityReasons {specs : List PoolSpec} {reason : String}
    (verdict : impossible specs spec = some reason) : reason ∈ capacityReasons := by
  unfold impossible at verdict
  simp only at verdict
  split_ifs at verdict <;> cases verdict <;> decide

/-- The pass calls an operation impossible if a pool offers what it needs, but no pool of its
profile fits it; the empty name is the profile of every pool. -/
theorem impossible_isSome_iff :
    (Store.impossible (pools.map PoolRow.spec) spec).isSome ↔
      (∃ pool ∈ pools, pool.Offers spec) ∧ ¬ ∃ pool ∈ pools, pool.Fits spec ∧
        ∀ profile ∈ spec.capacityProfileId, profile = "" ∨ pool.spec.profileId = profile := by
  -- the verdict looks at the pools that are left in the end
  have verdict (compatible profiled revised : List PoolSpec) (small : PoolSpec → Bool)
      (reason : String) (left : ∀ p ∈ revised, p ∈ profiled) :
      (if compatible.isEmpty then none
        else if profiled.isEmpty then some "capacity_profile_changed"
        else if revised.isEmpty then some "model_revision_changed"
        else if revised.all small then some reason else none : Option String).isSome ↔
      (∃ p, p ∈ compatible) ∧ ¬ ∃ p ∈ revised, small p = false := by
    rw [← List.isEmpty_eq_false_iff_exists_mem]
    have none_left (empty : revised = []) : ¬ ∃ p ∈ revised, small p = false := by
      rintro ⟨p, member, -⟩
      rw [empty] at member
      cases member
    split_ifs with noneCompatible noneProfiled noneRevised all
    · simp [List.isEmpty_iff.mp noneCompatible]
    · have empty : revised = [] := List.eq_nil_iff_forall_not_mem.mpr fun p member => by
        have := left p member
        rw [List.isEmpty_iff.mp noneProfiled] at this
        cases this
      simpa [noneCompatible] using none_left empty
    · simpa [noneCompatible] using none_left (List.isEmpty_iff.mp noneRevised)
    · simpa [noneCompatible] using all
    · simpa [noneCompatible] using all
  unfold Store.impossible
  rw [verdict _ _ _ _ _ fun p member => (List.mem_filter.mp member).1]
  simp only [List.mem_filter, List.mem_map, Bool.and_eq_true, Bool.or_eq_true, decide_eq_true_eq,
    Option.all_eq_true, Bool.or_eq_false_iff, Bool.and_eq_false_iff, decide_eq_false_iff_not,
    not_lt]
  refine and_congr ?_ (not_congr ?_)
  · constructor
    · rintro ⟨_, ⟨pool, member, rfl⟩, ⟨model, kind⟩, capabilities⟩
      exact ⟨pool, member, model, kind, capabilities⟩
    · rintro ⟨pool, member, offers⟩
      exact ⟨pool.spec, ⟨pool, member, rfl⟩, ⟨offers.model, offers.kind⟩, offers.capabilities⟩
  · constructor
    · rintro ⟨_, ⟨⟨⟨⟨pool, member, rfl⟩, ⟨model, kind⟩, capabilities⟩, profile⟩, revision⟩, size,
        batch⟩
      refine ⟨pool, member, ⟨⟨model, kind, capabilities⟩, size, fun embedding => ?_,
        fun embedding => ?_⟩, profile⟩
      · exact batch.resolve_left fun other => other embedding
      · exact revision.resolve_left fun other => other embedding
    · rintro ⟨pool, member, fits, profile⟩
      refine ⟨pool.spec, ⟨⟨⟨⟨pool, member, rfl⟩, ⟨fits.model, fits.kind⟩, fits.capabilities⟩,
        profile⟩, ?_⟩, fits.size, ?_⟩
      · exact Decidable.imp_iff_not_or.mp fits.revision
      · exact Decidable.imp_iff_not_or.mp fits.batch

end Verdict

/-! ### Pools serve the model of their specification -/

section Modelled

variable {β : Type} {sha256 : String → String} {env : Env} {d : Db} {authority : Authority}

/-- The model that a pool serves is the one of its specification. -/
abbrev modelledKept : RowChange Db :=
  (RowGrowth.lasting fun row : PoolRow => row.modelProfile = row.spec.modelProfile).on trackedPools

theorem modelledKept_pool (statement : PoolSql β) : modelledKept.KeptBy statement.run := by
  refine RowChange.keptBy_stmt fun d w member => ?_
  have member : w ∈ (statement.exec d d).writes := member
  cases statement with
  | configureGroup =>
    refine RowGrowth.of_other fun row same => ?_
    rcases Access.mem_upsert_writes member with ⟨written, -⟩ | ⟨_, -, -, written⟩ <;>
      cases written.symm.trans same
  | group | forUpdate | find | specs | unsettled | computing => cases member
  | configure spec =>
    exact RowGrowth.of_upsert (T := trackedPools) member (fun _ => rfl) rfl fun _ _ => rfl
  | degrade | quiesce | resume | stop | retarget =>
    exact RowGrowth.of_update (T := trackedPools) member (fun _ => rfl) fun _ _ _ => id

theorem call_keepsModelled (asked : Call) : modelledKept.KeptBy (asked.code sha256 env) := by
  have builds : Builds modelledKept.KeptBy := by
    refine .of_terminal modelledKept.keptBy_closed (fun statement plain => ?_)
      fun _ _ _ _ => keptBy_other (fun _ => rfl) rfl
    cases statement with
    | pool statement => exact modelledKept_pool statement
    | _ => exact keptBy_other (fun _ => rfl) rfl
  exact builds.call_of_moves asked (fun _ => keptBy_other (fun _ => rfl) rfl)
    (fun _ _ _ => builds.configurePool _ _ (modelledKept_pool _) (modelledKept_pool _))
    (fun _ _ _ _ => builds.resumeEngine _ _ _ fun _ => modelledKept_pool _)
    (fun _ => builds.submitOperation _ fun _ _ => keptBy_other (fun _ => rfl) rfl)
    (fun _ => keptBy_other (fun _ => rfl) rfl) (fun _ => keptBy_other (fun _ => rfl) rfl)
    (fun _ _ => keptBy_other (fun _ => rfl) rfl) (fun _ => keptBy_other (fun _ => rfl) rfl)
    (fun _ _ _ => builds.reserveNext _ _ fun _ _ => builds.reserveCandidate fun _ _ =>
      builds.reserve (fun _ _ => keptBy_other (fun _ => rfl) rfl) fun _ _ => keptBy_other (fun _ => rfl) rfl)
    (fun _ {_} _ _ => keptBy_other (fun _ => rfl) rfl)
    (fun _ _ _ _ _ => builds.decideResult _ _ _ _ (keptBy_other (fun _ => rfl) rfl))
    (fun _ _ _ _ _ _ => builds.finishRun _ _ _ _ _ (keptBy_other (fun _ => rfl) rfl) fun _ _ _ =>
      builds.finishRoot _ _ _ _ fun _ => keptBy_other (fun _ => rfl) rfl)
    (fun _ _ _ => builds.bindCompletion _ _ _ fun _ => keptBy_other (fun _ => rfl) rfl)
    fun _ _ _ => keptBy_other (fun _ => rfl) rfl

/-- The pools of a reachable ledger serve the models of their specifications. -/
theorem Reachable.modelled (reached : Reachable sha256 authority d) :
    ∀ pool ∈ d.pools.rows, pool.modelProfile = pool.spec.modelProfile := fun pool member =>
  reached.sane trackedPools (fun _ => rfl) (fun _ asked => call_keepsModelled asked) pool.poolId
    pool (Table.find?_of_mem member)

end Modelled

/-! ### What the pass does to the operations it looks at -/

/-- The operation has failed because no pool can serve it. -/
def Db.FailsForCapacity (d : Db) (operationId : String) : Prop :=
  ∃ op, d.operations.find? operationId = some op ∧ op.state = .failed ∧
    ∃ reason ∈ Store.capacityReasons, op.waitReason = some reason

section Judged

variable {sha256 : String → String} {env : Env} {d : Db} {authority : Authority}

/-- The pass fails the operations that it looks at and calls impossible, and no others of
them for want of a pool. -/
theorem reconcile_judges (valid : d.book.Valid) :
    (Store.takeBack env).Returns d fun _ d₁ => d₁.pools = d.pools ∧
      (Store.reconcile env).Returns d fun _ d' => ∀ op ∈ d₁.examined,
        (d'.FailsForCapacity op.operationId ↔
          (Store.impossible (d.pools.rows.map PoolRow.spec) op.spec).isSome) := by
  obtain ⟨count, d₁, ran, taken⟩ := takeBack_returns env valid
  refine ⟨count, d₁, ran, taken.pools, ?_⟩
  rw [Store.reconcile_eq]
  refine Tx.Returns.bind ⟨count, d₁, ran, Tx.Returns.bind (failImpossible_returns.mono
    fun _ d₂ failed => Tx.Returns.bind (endRoots_returns.mono fun _ d₃ ended =>
      Tx.Returns.ret fun op member => ?_))⟩
  have judged := failed.2 op member
  rw [taken.pools, OperationRow.judged] at judged
  obtain ⟨last, found⟩ := Option.ne_none_iff_exists'.mp (ended.known op.operationId (by
    rw [judged]
    exact Option.some_ne_none _))
  cases verdict : Store.impossible (d.pools.rows.map PoolRow.spec) op.spec with
  | some reason =>
    -- an operation that has failed stays as it is
    rw [verdict] at judged
    obtain ⟨old, found', -, -, kept, -⟩ := ended.operation op.operationId last found
    obtain rfl := Option.some.inj (judged.symm.trans found')
    rw [kept rfl] at found
    exact iff_of_true ⟨_, found, rfl, reason, Store.mem_capacityReasons verdict, rfl⟩ rfl
  | none =>
    rw [verdict] at judged
    have waiting := (Db.mem_of_examined member).2
    refine iff_of_false ?_ Bool.false_ne_true
    rintro ⟨row, found', state, -⟩
    obtain ⟨old, before, same⟩ := ended.outcome op.operationId row found'
    obtain rfl := Option.some.inj (judged.symm.trans before)
    rcases same with rfl | cancelled
    · rw [state] at waiting
      cases waiting
    · rw [state] at cancelled
      cases cancelled

/-- The pass fails an operation for want of a pool exactly when no pool can be given it, unless
the capacity profile of the operation is the empty name and a pool fits it in all else. -/
theorem impossible_iff_unservable (reached : Reachable sha256 authority d)
    (named : ∀ pool ∈ d.pools.rows, pool.spec.profileId ≠ "") :
    (Store.takeBack env).Returns d fun _ d₁ => d₁.pools = d.pools ∧
      (Store.reconcile env).Returns d fun _ d' => ∀ op ∈ d₁.examined,
        (∃ pool ∈ d.pools.rows, pool.Offers op.spec) →
          ((d'.FailsForCapacity op.operationId ↔
              ¬ ∃ pool ∈ d.pools.rows, pool.Selects op.spec) ↔
            (op.spec.capacityProfileId ≠ some "" ∨
              ¬ ∃ pool ∈ d.pools.rows, pool.Fits op.spec)) := by
  refine (reconcile_judges reached.valid).mono fun _ d₁ taken =>
    ⟨taken.1, taken.2.mono fun _ d' judges op examined offered => ?_⟩
  rw [judges op examined, impossible_isSome_iff, and_iff_right offered, not_iff_not]
  -- a pool selects what it fits, if it is of the profile
  have selects : (∃ pool ∈ d.pools.rows, pool.Selects op.spec) ↔
      ∃ pool ∈ d.pools.rows, pool.Fits op.spec ∧
        ∀ profile ∈ op.spec.capacityProfileId, profile = pool.spec.profileId :=
    exists_congr fun pool => and_congr_right fun member =>
      PoolRow.selects_iff.trans (PoolRow.accepts_iff (reached.modelled pool member))
  rw [selects]
  by_cases empty : op.spec.capacityProfileId = some ""
  · have unselected : ¬ ∃ pool ∈ d.pools.rows, pool.Fits op.spec ∧
        ∀ profile ∈ op.spec.capacityProfileId, profile = pool.spec.profileId := by
      rintro ⟨pool, member, -, same⟩
      exact named pool member (same "" empty).symm
    have fitting : (∃ pool ∈ d.pools.rows, pool.Fits op.spec ∧ ∀ profile ∈
        op.spec.capacityProfileId, profile = "" ∨ pool.spec.profileId = profile) ↔
        ∃ pool ∈ d.pools.rows, pool.Fits op.spec := by
      refine exists_congr fun pool => and_congr_right fun _ => and_iff_left fun profile here => ?_
      rw [empty] at here
      exact Or.inl (Option.mem_some_iff.mp here).symm
    rw [iff_false_right unselected, fitting, or_iff_right (not_not.mpr empty)]
  · refine iff_of_true (exists_congr fun pool => and_congr_right fun _ => and_congr_right fun _ =>
      forall_congr' fun profile => forall_congr' fun here => ?_) (Or.inl empty)
    have other : profile ≠ "" := by
      rintro rfl
      exact empty here
    rw [or_iff_right other, eq_comm]

end Judged

namespace Sample

/-- The operation of the sample, whose capacity profile is the empty name. -/
def nameless : OperationSpec := { light with capacityProfileId := some "" }

/-- It waits, and nothing else. -/
def unseen : List Request :=
  [.call (env "") (.configurePool (pool "e") 4), .call (env "") (.createRoot root),
    .call (env "") (.submitOperation nameless)]

/-- Its row. -/
def namelessRow : OperationRow := Store.operationRow (env "") nameless

end Sample

/-- An operation that the pool can be given is not failed. -/
theorem impossible_iff_unservable_calm :
    (Store.takeBack (Sample.env "")).Returns (Sample.reached Sample.calm) fun _ d₁ =>
      Sample.lightRow ∈ d₁.examined ∧
        (Store.reconcile (Sample.env "")).Returns (Sample.reached Sample.calm) fun _ d' =>
          (d'.FailsForCapacity "o" ↔
            ¬ ∃ pool ∈ (Sample.reached Sample.calm).pools.rows, pool.Selects Sample.light) := by
  have reached : Reachable (fun _ => "") {} (Sample.reached Sample.calm) :=
    Reachable.afterAll Sample.calm
  have pools : (Sample.reached Sample.calm).pools.rows = [Sample.poolRow] := by decide +kernel
  have listed : ((Store.takeBack (Sample.env "")).run (Sample.reached Sample.calm)).toOption.map
      (fun r => r.2.examined) = some [Sample.lightRow] := by decide +kernel
  obtain ⟨count, d₁, ran, -, judges⟩ := impossible_iff_unservable reached fun pool member => by
    rw [pools, List.mem_singleton] at member
    rw [member]
    decide
  have member : Sample.lightRow ∈ d₁.examined := by
    rw [ran] at listed
    have examined : d₁.examined = [Sample.lightRow] := Option.some.inj listed
    exact examined ▸ List.mem_singleton_self _
  refine ⟨count, d₁, ran, member, judges.mono fun _ d' judges => ?_⟩
  refine (judges Sample.lightRow member ⟨Sample.poolRow, ?_, rfl, rfl, by decide⟩).mpr
    (Or.inl nofun)
  exact pools ▸ List.mem_singleton_self _

/-- An operation whose profile is the empty name is neither failed nor ever selected. -/
theorem impossible_iff_unservable_fails :
    ¬ ∀ (sha256 : String → String) (authority : Authority) (d : Db) (env : Env),
      Reachable sha256 authority d → (∀ pool ∈ d.pools.rows, pool.spec.profileId ≠ "") →
      (Store.takeBack env).Returns d fun _ d₁ => d₁.pools = d.pools ∧
        (Store.reconcile env).Returns d fun _ d' => ∀ op ∈ d₁.examined,
          (∃ pool ∈ d.pools.rows, pool.Offers op.spec) →
            (d'.FailsForCapacity op.operationId ↔
              ¬ ∃ pool ∈ d.pools.rows, pool.Selects op.spec) := by
  intro agree
  have reached : Reachable (fun _ => "") {} (Sample.reached Sample.unseen) :=
    Reachable.afterAll Sample.unseen
  have pools : (Sample.reached Sample.unseen).pools.rows = [Sample.poolRow] := by decide +kernel
  have listed : ((Store.takeBack (Sample.env "")).run (Sample.reached Sample.unseen)).toOption.map
      (fun r => r.2.examined) = some [Sample.namelessRow] := by decide +kernel
  obtain ⟨count, d₁, ran, -, value, d', ran', equivalent⟩ := agree (fun _ => "") {} _
    (Sample.env "") reached fun pool member => by
      rw [pools, List.mem_singleton] at member
      rw [member]
      decide
  have member : Sample.namelessRow ∈ d₁.examined := by
    rw [ran] at listed
    have examined : d₁.examined = [Sample.namelessRow] := Option.some.inj listed
    exact examined ▸ List.mem_singleton_self _
  have offered : ∃ pool ∈ (Sample.reached Sample.unseen).pools.rows,
      pool.Offers Sample.namelessRow.spec :=
    ⟨Sample.poolRow, pools ▸ List.mem_singleton_self _, rfl, rfl, by decide⟩
  -- the query compares the empty name with the name of the pool's profile
  have fails := (equivalent Sample.namelessRow member offered).mpr (by
    rintro ⟨pool, here, selects⟩
    rw [pools, List.mem_singleton] at here
    have same := selects.profile "" rfl
    rw [here] at same
    exact absurd same (by decide))
  -- the pass takes it for no name, and finds that the pool fits
  have judged := (((reconcile_judges reached.valid).ensures count d₁ ran).2.ensures value d' ran'
    Sample.namelessRow member).mp fails
  rw [pools] at judged
  exact absurd judged (by decide)

end IntramindRuntime.Ledger
