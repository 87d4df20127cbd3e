import IntramindRuntime.Ledger.Pools
import IntramindRuntime.Ledger.SentAttempts

/-!
# Quiescing an engine

A pool that is quiesced is not healthy, and stays so until its engine is resumed or its
epoch changes. Only `reserve_next` looks at this: no attempt is reserved any more, but one
that was reserved before may still be sent, at any later time. So the attempts of the pool
that may start to hold compute are those that were reserved when the engine was quiesced.

## Main definitions

* `Db.Shut` — the engine of a pool takes no new attempts
* `Request.Reopens` — a request resumes the engine, or changes the epoch of the pool
* `Db.ReservedAt`, `Db.SendingAt`, `Db.ComputesAt` — an attempt of a pool is reserved, being
  sent, or holds compute

## Main results

* `Request.shut_stays` — a pool stays shut until it is reopened
* `Request.attempt_of_shut` — what one request does to the attempts of a shut pool
* `quiesce_stops` — between two moments of a quiesce, only reserved attempts are sent
-/

namespace IntramindRuntime.Ledger

open Library

variable {sha256 : String → String} {env : Env} {d d' : Db} {poolId engineEpoch : String}

/-! ### Pools that are shut -/

/-- The pool has an epoch and is not healthy. -/
def Db.Shut (d : Db) (poolId engineEpoch : String) : Prop :=
  ∃ pool, d.pools.find? poolId = some pool ∧ pool.engineEpoch = engineEpoch ∧
    pool.health ≠ .healthy

/-- The epoch of the engine of a pool. -/
def Db.epoch (d : Db) (poolId : String) : Option String :=
  (d.pools.find? poolId).map PoolRow.engineEpoch

/-- The request ends a quiesce: it resumes the engine of the pool, or changes its epoch. -/
def Request.Reopens (sha256 : String → String) (poolId : String) (d : Db) (request : Request) :
    Prop :=
  (∃ env engineEpoch token reply d',
      request = .call env (.resumeEngine poolId engineEpoch token) ∧
        request.perform sha256 d = .ok (reply, d')) ∨
    (request.after sha256 d).epoch poolId ≠ d.epoch poolId

/-- A pool keeps its epoch, and does not become healthy. -/
def dimmed (poolId : String) : RowGrowth PoolRow where
  follows old row := row.poolId = old.poolId ∧ (old.poolId = poolId →
    row.engineEpoch = old.engineEpoch ∧ (row.health = .healthy → old.health = .healthy))
  fresh _ := False
  refl _ := ⟨rfl, fun _ => ⟨rfl, id⟩⟩
  trans first second := by
    refine ⟨second.1.trans first.1, fun here => ?_⟩
    obtain ⟨epoch, healthy⟩ := first.2 here
    obtain ⟨epoch', healthy'⟩ := second.2 (first.1.trans here)
    exact ⟨epoch'.trans epoch, healthy ∘ healthy'⟩
  keeps fresh _ := fresh

/-- The law that every method keeps but those that configure pools or resume this one. -/
abbrev dimmedKept (poolId : String) : RowChange Db := (dimmed poolId).on trackedPools

theorem dimmedKept_other {β : Type} {statement : Sql β}
    (other : statement.mayWrite .pools = false) :
    (dimmedKept poolId).KeptBy (Tx.stmt statement : Transaction β) := keptBy_other (fun _ => rfl) other

theorem dimmedKept_builds : Builds (dimmedKept poolId).KeptBy := by
  refine .of_terminal (dimmedKept poolId).keptBy_closed (fun statement plain => ?_)
    fun _ _ _ _ => dimmedKept_other rfl
  cases statement with
  | pool statement =>
    refine RowChange.keptBy_stmt fun d w member => ?_
    have member : w ∈ (statement.exec d d).writes := member
    -- these statements leave the epoch as it is, and none makes a pool healthy
    cases statement with
    | configure | resume => exact plain.elim
    | configureGroup => exact plain.elim
    | group | forUpdate | find | specs | unsettled | computing => cases member
    | retarget =>
      exact RowGrowth.of_update (T := trackedPools) member (fun _ => rfl)
        fun row _ _ => ⟨rfl, fun _ => ⟨rfl, id⟩⟩
    | degrade | quiesce | stop =>
      exact RowGrowth.of_update (T := trackedPools) member (fun _ => rfl)
        fun row _ _ => ⟨rfl, fun _ => ⟨rfl, fun healthy => by cases healthy⟩⟩
  | _ => exact dimmedKept_other rfl

/-- To resume another engine does not matter. -/
theorem dimmedKept_resume {other : String} (different : other ≠ poolId) {target : ℕ} :
    (dimmedKept poolId).KeptBy (PoolSql.resume other engineEpoch target).run := by
  refine RowChange.keptBy_stmt fun d w member => ?_
  refine RowGrowth.of_update (T := trackedPools) member (fun _ => rfl) fun row found _ => ?_
  have named : row.poolId = other := Table.key_of_find? found
  exact ⟨rfl, fun here => absurd (named.symm.trans here) different⟩

/-- Every method keeps the law but those that configure pools or resume this one. -/
theorem call_keepsDimmed (asked : Call)
    (configures : ∀ spec groupCeiling, asked ≠ .configurePool spec groupCeiling)
    (resumes : ∀ epoch token, asked ≠ .resumeEngine poolId epoch token) :
    (dimmedKept poolId).KeptBy (asked.code sha256 env) := by
  have builds := @dimmedKept_builds poolId
  have attempt : ∀ {β : Type} (statement : AttemptSql β), (dimmedKept poolId).KeptBy statement.run :=
    fun _ => dimmedKept_other rfl
  refine builds.call_of_moves asked (fun _ => dimmedKept_other rfl)
    (fun spec groupCeiling here => (configures spec groupCeiling here).elim)
    (fun other epoch token here => builds.resumeEngine _ _ _ fun target => ?_)
    (fun _ => builds.submitOperation _ fun _ _ => dimmedKept_other rfl) attempt
    (fun _ => dimmedKept_other rfl) (fun _ _ => dimmedKept_other rfl)
    (fun _ => dimmedKept_other rfl)
    (fun _ _ _ => builds.reserveNext _ _ fun _ _ => builds.reserveCandidate fun _ _ =>
      builds.reserve (fun _ _ => attempt _) fun _ _ => dimmedKept_other rfl)
    (fun _ {_} _ _ => dimmedKept_other rfl)
    (fun _ _ _ _ _ => builds.decideResult _ _ _ _ (dimmedKept_other rfl))
    (fun _ _ _ _ _ _ => builds.finishRun _ _ _ _ _ (dimmedKept_other rfl) fun _ _ _ =>
      builds.finishRoot _ _ _ _ fun _ => dimmedKept_other rfl)
    (fun _ _ _ => builds.bindCompletion _ _ _ fun _ => dimmedKept_other rfl)
    fun _ _ _ => dimmedKept_other rfl
  refine dimmedKept_resume ?_
  rintro rfl
  exact resumes epoch token here

/-- A configuration that keeps the epoch of a pool keeps its health. -/
theorem configurePool_health (spec : PoolSpec) (groupCeiling : ℤ) :
    (Store.configurePool spec groupCeiling).Ensures d fun _ d' =>
      ∀ old row, d.pools.find? poolId = some old → d'.pools.find? poolId = some row →
        row.engineEpoch = old.engineEpoch → row.health = old.health := by
  have write {d₁ : Db} (same : d₁.pools = d.pools) :
      (Tx.perform (Sql.pool (.configure spec)) fun _ => .ret () : Transaction Unit).Ensures d₁
        fun _ d' => ∀ old row, d.pools.find? poolId = some old →
          d'.pools.find? poolId = some row → row.engineEpoch = old.engineEpoch →
            row.health = old.health := by
    refine Tx.Ensures.upsert rfl (fun absent => Tx.Ensures.ret fun old row before after epoch => ?_)
      (fun found here _ => Tx.Ensures.ret fun old row before after epoch => ?_)
      fun _ _ never => by cases never
    · have table : (if spec.poolId = poolId then some (PoolRow.ofSpec spec)
          else d₁.pools.find? poolId) = some row := Table.find?_put.symm.trans after
      have absent : d₁.pools.find? spec.poolId = none := absent
      split at table
      · rename_i named
        rw [named, same, before] at absent
        cases absent
      · rw [same, before] at table
        cases table
        rfl
    · have table : (if (found.configure spec).poolId = poolId then some (found.configure spec)
          else d₁.pools.find? poolId) = some row := Table.find?_put.symm.trans after
      have here : d₁.pools.find? spec.poolId = some found := here
      have key : found.poolId = spec.poolId := Table.key_of_find? here
      split at table
      · rename_i named
        have named : found.poolId = poolId := named
        rw [← key, named, same, before] at here
        cases here
        cases table
        -- the epoch is the one that the pool had
        exact if_neg fun differs => differs epoch.symm
      · rw [same, before] at table
        cases table
        rfl
  unfold Store.configurePool
  simp only [Tx.bind_eq, Tx.stmt_bind]
  refine ensures_require fun _ => ?_
  refine Tx.Ensures.upsert rfl (fun _ => ?_) (fun old found _ => ?_) fun _ _ never => by cases never
  all_goals
    refine Tx.Ensures.selectForUpdate rfl (ensures_when (fun _ => ?_) fun _ => write rfl)
    exact Tx.Ensures.read rfl (ensures_require fun _ => write rfl)

/-- A pool stays shut until it is reopened. -/
theorem Request.shut_stays (request : Request) (shut : d.Shut poolId engineEpoch)
    (closed : ¬ request.Reopens sha256 poolId d) :
    (request.after sha256 d).Shut poolId engineEpoch := by
  obtain ⟨pool, found, epoch, unhealthy⟩ := shut
  have stays : (request.after sha256 d).pools.find? poolId ≠ none :=
    request.pool_stays fun absent => Option.some_ne_none pool (found.symm.trans absent)
  obtain ⟨pool', after⟩ := Option.ne_none_iff_exists'.mp stays
  have same : pool'.engineEpoch = pool.engineEpoch := by
    have kept := not_not.mp fun differs => closed (Or.inr differs)
    unfold Db.epoch at kept
    rw [found, after] at kept
    exact Option.some.inj kept
  refine ⟨pool', after, same.trans epoch, fun healthy => unhealthy ?_⟩
  by_cases configures : ∃ env spec groupCeiling,
      request = .call env (.configurePool spec groupCeiling)
  · obtain ⟨env, spec, groupCeiling, rfl⟩ := configures
    unfold Request.after at after
    split at after
    · rename_i reply d' ran
      have done : ((Call.configurePool spec groupCeiling).code sha256 env).Ensures d fun _ d' =>
          ∀ old row, d.pools.find? poolId = some old → d'.pools.find? poolId = some row →
            row.engineEpoch = old.engineEpoch → row.health = old.health :=
        ensures_reply (configurePool_health spec groupCeiling)
      exact (done reply d' ran pool pool' found after same).symm.trans healthy
    · exact Option.some.inj (after.symm.trans found) ▸ healthy
  · by_cases resumes : ∃ env epoch token, request = .call env (.resumeEngine poolId epoch token)
    · obtain ⟨env, epoch, token, rfl⟩ := resumes
      -- a resume that raises changes nothing
      unfold Request.after at after
      split at after
      · rename_i reply d' ran
        exact absurd (Or.inl ⟨env, epoch, token, reply, d', rfl, ran⟩) closed
      · exact Option.some.inj (after.symm.trans found) ▸ healthy
    · have keeps : (dimmedKept poolId).Keeps d (request.after sha256 d) := by
        refine request.keeps_of_code fun env asked asks => call_keepsDimmed asked ?_ ?_
        · rintro spec groupCeiling rfl
          obtain ⟨env', rfl⟩ := Request.eq_call_of_asks asks trivial
          exact configures ⟨env', spec, groupCeiling, rfl⟩
        · rintro epoch token rfl
          obtain ⟨env', rfl⟩ := Request.eq_call_of_asks asks trivial
          exact resumes ⟨env', epoch, token, rfl⟩
      obtain ⟨row, here, -, dim⟩ := RowGrowth.follows_of_keeps (T := trackedPools) keeps found
      obtain rfl := Option.some.inj (here.symm.trans after)
      exact (dim (Table.key_of_find? found)).2 healthy

/-! ### Attempts of a shut pool -/

/-- An attempt of the pool is reserved. -/
def Db.ReservedAt (d : Db) (poolId attemptId : String) : Prop :=
  ∃ a, d.attempts.find? attemptId = some a ∧ a.poolId = poolId ∧ a.state = .reserved

/-- An attempt of the pool is about to be sent. -/
def Db.SendingAt (d : Db) (poolId attemptId : String) : Prop :=
  ∃ a, d.attempts.find? attemptId = some a ∧ a.poolId = poolId ∧ a.state = .sendIntent

/-- An attempt of the pool holds compute. -/
def Db.ComputesAt (d : Db) (poolId attemptId : String) : Prop :=
  ∃ a, d.attempts.find? attemptId = some a ∧ a.poolId = poolId ∧ a.computeHeld = true

instance {attemptId : String} : Decidable (d.SendingAt poolId attemptId) := by
  unfold Db.SendingAt
  infer_instance

instance {attemptId : String} : Decidable (d.ComputesAt poolId attemptId) := by
  unfold Db.ComputesAt
  infer_instance

/-- An attempt stays at its pool, is not reserved or sent again and gets no compute; and no
attempt is new. -/
def waning : RowGrowth AttemptRow where
  follows old row := row.poolId = old.poolId ∧ (row.state = .reserved → old.state = .reserved) ∧
    (row.state = .sendIntent → old.state = .sendIntent) ∧
    (row.computeHeld = true → old.computeHeld = true)
  fresh _ := False
  refl _ := ⟨rfl, id, id, id⟩
  trans first second := ⟨second.1.trans first.1, first.2.1 ∘ second.2.1,
    first.2.2.1 ∘ second.2.2.1, first.2.2.2 ∘ second.2.2.2⟩
  keeps fresh _ := fresh

/-- The law that every method but `reserve_next` and `mark_send` keeps. -/
abbrev waningKept : RowChange Db := waning.on trackedAttempts

theorem AttemptRow.Turn.wanes {old row : AttemptRow} (turn : old.Turn row) :
    waning.follows old row := by
  cases turn with
  | renew | settle => exact ⟨rfl, id, id, id⟩
  | unknown | resultCommitted | lost => exact ⟨rfl, nofun, nofun, id⟩
  | backendFinished | neverSent | stopped =>
    exact ⟨rfl, nofun, nofun, fun held => by cases held⟩
  | fail _ final =>
    refine ⟨rfl, fun reserved => ?_, fun sent => ?_, fun held => by cases held⟩
    · rcases final with rfl | rfl <;> cases reserved
    · rcases final with rfl | rfl <;> cases sent

/-- Every method but `reserve_next` and `mark_send` keeps the law. -/
theorem call_keepsWaning (asked : Call)
    (reserves : ∀ poolId ownerId, asked ≠ .reserveNext poolId ownerId)
    (sends : ∀ reservation, asked ≠ .markSend reservation) :
    waningKept.KeptBy (asked.code sha256 env) :=
  call_keepsTurns (fun _ _ => AttemptRow.Turn.wanes) asked
    (fun poolId ownerId here => (reserves poolId ownerId here).elim)
    fun reservation here => (sends reservation here).elim

/-- `reserve_next` passes on a pool that is shut. -/
theorem reserveNext_of_shut (shut : d.Shut poolId engineEpoch) (ownerId : String) :
    (Store.reserveNext env poolId ownerId).Ensures d fun _ d' => d' = d := by
  obtain ⟨pool, found, -, unhealthy⟩ := shut
  unfold Store.reserveNext
  simp only [Tx.bind_eq, Tx.stmt_bind]
  refine Tx.Ensures.selectForUpdate rfl ?_
  have read : pools.find? poolId always d = some pool :=
    Access.find?_eq_some_iff.mpr ⟨found, rfl⟩
  rw [read]
  dsimp only
  rw [if_pos (by simp [unhealthy])]
  exact Tx.Ensures.ret rfl

/-- What one request does to an attempt of a shut pool: it was there before, and if it is sent
it was reserved. -/
theorem Request.attempt_of_shut (request : Request) (shut : d.Shut poolId engineEpoch)
    {attemptId : String} {row : AttemptRow}
    (found : (request.after sha256 d).attempts.find? attemptId = some row)
    (here : row.poolId = poolId) :
    ∃ old, d.attempts.find? attemptId = some old ∧ old.poolId = poolId ∧
      (row.state = .reserved → old.state = .reserved) ∧
      (waning.follows old row ∨ old.state = .reserved) := by
  have unchanged (found : d.attempts.find? attemptId = some row) :
      ∃ old, d.attempts.find? attemptId = some old ∧ old.poolId = poolId ∧
        (row.state = .reserved → old.state = .reserved) ∧
        (waning.follows old row ∨ old.state = .reserved) :=
    ⟨row, found, here, id, Or.inl (waning.refl row)⟩
  by_cases send : ∃ env reservation, request = .call env (.markSend reservation)
  · obtain ⟨env, reservation, rfl⟩ := send
    have sends : ((Call.markSend reservation).code sha256 env).Ensures d fun _ d' =>
        ∃ a, d.attempts.find? reservation.attemptId = some a ∧ a.state = .reserved ∧
          d'.attempts = d.attempts.put (a.sendIntent env.now) :=
      ensures_reply (markSend_sends reservation)
    unfold Request.after at found
    split at found
    · rename_i reply d' ran
      obtain ⟨a, before, reserved, put⟩ := sends reply d' ran
      rw [put, Table.find?_put] at found
      split at found
      · rename_i same
        obtain rfl := Option.some.inj found
        have key : a.attemptId = attemptId := same
        have named : a.attemptId = reservation.attemptId := Table.key_of_find? before
        exact ⟨a, key ▸ named ▸ before, here, (fun never => by cases never), Or.inr reserved⟩
      · exact unchanged found
    · exact unchanged found
  · by_cases reserve : ∃ env other ownerId, request = .call env (.reserveNext other ownerId)
    · obtain ⟨env, other, ownerId, rfl⟩ := reserve
      unfold Request.after at found
      split at found
      · rename_i reply d' ran
        rcases eq_or_ne other poolId with rfl | different
        · have passes : ((Call.reserveNext other ownerId).code sha256 env).Ensures d
              fun _ d' => d' = d := ensures_reply (reserveNext_of_shut shut ownerId)
          obtain rfl := passes reply d' ran
          exact unchanged found
        · -- what is added belongs to another pool
          have adds : ((Call.reserveNext other ownerId).code sha256 env).Ensures d fun _ d' =>
              ∃ reserved, Adds other d.attempts reserved d' :=
            ensures_reply ((reserveNext_adds rfl other).mono fun reserved _ added =>
              ⟨reserved, added⟩)
          obtain ⟨reserved, added⟩ := adds reply d' ran
          cases reserved with
          | none => exact unchanged (added ▸ found)
          | some reservation =>
            obtain ⟨-, a, -, elsewhere, -, put⟩ := added
            rw [put, Table.find?_put] at found
            split at found
            · obtain rfl := Option.some.inj found
              exact absurd (elsewhere.symm.trans here) different
            · exact unchanged found
      · exact unchanged found
    · have keeps : waningKept.Keeps d (request.after sha256 d) := by
        refine request.keeps_of_code fun env asked asks => call_keepsWaning asked ?_ ?_
        · rintro other ownerId rfl
          obtain ⟨env', rfl⟩ := Request.eq_call_of_asks asks trivial
          exact reserve ⟨env', other, ownerId, rfl⟩
        · rintro reservation rfl
          obtain ⟨env', rfl⟩ := Request.eq_call_of_asks asks trivial
          exact send ⟨env', reservation, rfl⟩
      rcases RowGrowth.cases_of_keeps (T := trackedAttempts) keeps found with
        ⟨old, before, follows⟩ | ⟨-, never⟩
      · exact ⟨old, before, follows.1.symm.trans here, follows.2.1, Or.inl follows⟩
      · exact never.elim

/-! ### Runs -/

/-- No step of a run reopens the pool. -/
def Request.Undisturbed (sha256 : String → String) (poolId : String) : Db → List Request → Prop
  | _, [] => True
  | d, request :: rest =>
    ¬ request.Reopens sha256 poolId d ∧ Undisturbed sha256 poolId (request.after sha256 d) rest

theorem Request.Undisturbed.split {earlier later : List Request}
    (undisturbed : Request.Undisturbed sha256 poolId d (earlier ++ later)) :
    Request.Undisturbed sha256 poolId d earlier ∧
      Request.Undisturbed sha256 poolId (Request.afterAll sha256 earlier d) later := by
  induction earlier generalizing d with
  | nil => exact ⟨trivial, undisturbed⟩
  | cons request rest ih =>
    obtain ⟨first, second⟩ := ih undisturbed.2
    exact ⟨⟨undisturbed.1, first⟩, second⟩

/-- What a run does to an attempt of a shut pool. -/
structure Wanes (poolId attemptId : String) (d d' : Db) : Prop where
  reserved : d'.ReservedAt poolId attemptId → d.ReservedAt poolId attemptId
  sending : d'.SendingAt poolId attemptId →
    d.SendingAt poolId attemptId ∨ d.ReservedAt poolId attemptId
  computes : d'.ComputesAt poolId attemptId →
    d.ComputesAt poolId attemptId ∨ d.ReservedAt poolId attemptId

theorem Wanes.trans {d₁ : Db} {attemptId : String} (first : Wanes poolId attemptId d d₁)
    (second : Wanes poolId attemptId d₁ d') : Wanes poolId attemptId d d' where
  reserved now := first.reserved (second.reserved now)
  sending now := (second.sending now).elim first.sending fun held => Or.inr (first.reserved held)
  computes now := (second.computes now).elim first.computes fun held =>
    Or.inr (first.reserved held)

theorem Request.wanes (request : Request) (shut : d.Shut poolId engineEpoch) (attemptId : String) :
    Wanes poolId attemptId d (request.after sha256 d) where
  reserved := by
    rintro ⟨row, found, here, state⟩
    obtain ⟨old, before, place, reserved, -⟩ := request.attempt_of_shut shut found here
    exact ⟨old, before, place, reserved state⟩
  sending := by
    rintro ⟨row, found, here, state⟩
    obtain ⟨old, before, place, -, follows | reserved⟩ := request.attempt_of_shut shut found here
    · exact Or.inl ⟨old, before, place, follows.2.2.1 state⟩
    · exact Or.inr ⟨old, before, place, reserved⟩
  computes := by
    rintro ⟨row, found, here, held⟩
    obtain ⟨old, before, place, -, follows | reserved⟩ := request.attempt_of_shut shut found here
    · exact Or.inl ⟨old, before, place, follows.2.2.2 held⟩
    · exact Or.inr ⟨old, before, place, reserved⟩

/-- A pool stays shut in a run that does not reopen it, and its attempts wane. -/
theorem Request.afterAll_wanes {requests : List Request} (shut : d.Shut poolId engineEpoch)
    (undisturbed : Request.Undisturbed sha256 poolId d requests) (attemptId : String) :
    (Request.afterAll sha256 requests d).Shut poolId engineEpoch ∧
      Wanes poolId attemptId d (Request.afterAll sha256 requests d) := by
  induction requests generalizing d with
  | nil => exact ⟨shut, id, Or.inl, Or.inl⟩
  | cons request rest ih =>
    obtain ⟨shut', wanes⟩ := ih (request.shut_stays shut undisturbed.1) undisturbed.2
    exact ⟨shut', (request.wanes shut attemptId).trans wanes⟩

/-- A successful `quiesce_engine` leaves the pool shut, and its attempts as they were. -/
theorem quiesceEngine_shuts (token : String) :
    (Store.quiesceEngine poolId engineEpoch token).Ensures d fun _ d' =>
      d'.Shut poolId engineEpoch ∧ d'.attempts = d.attempts := by
  unfold Store.quiesceEngine
  simp only [Tx.bind_eq, Tx.stmt_bind]
  refine ensures_require fun _ => Tx.Ensures.selectForUpdate rfl ?_
  cases read : pools.find? poolId always d with
  | none => exact Tx.Ensures.raise
  | some pool =>
    have found : d.pools.find? poolId = some pool := (Access.find?_eq_some_iff.mp read).1
    refine ensures_require fun epoch => ensures_require fun _ => ?_
    have epoch : pool.engineEpoch = engineEpoch := by simpa using epoch
    split
    · rename_i already
      refine Tx.Ensures.ret ⟨⟨pool, found, epoch, fun healthy => ?_⟩, rfl⟩
      simp [healthy] at already
    · refine ensures_require fun _ => Tx.Ensures.update rfl (fun row here _ => Tx.Ensures.ret ?_)
        fun missing => ?_
      · have here : d.pools.find? poolId = some row := here
        obtain rfl := Option.some.inj (here.symm.trans found)
        have key : row.poolId = poolId := Table.key_of_find? here
        let now : PoolRow := { row with target := 0, health := .degraded, quiesceToken := token }
        refine ⟨⟨now, ?_, epoch, nofun⟩, rfl⟩
        exact Table.find?_put.trans (if_pos key)
      · have differs := missing pool found
        simp [epoch] at differs

/-- Between two moments after a successful `quiesce_engine`, until the pool is reopened, no
attempt is newly reserved, and only attempts that were reserved at the quiesce, and still are,
become sent or start to hold compute. -/
theorem quiesce_stops {token : String} {reply : Reply}
    (quiesced : (Request.call env (.quiesceEngine poolId engineEpoch token)).perform sha256 d =
      .ok (reply, d')) {earlier later : List Request}
    (undisturbed : Request.Undisturbed sha256 poolId d' (earlier ++ later)) (attemptId : String) :
    let before := Request.afterAll sha256 earlier d'
    let after := Request.afterAll sha256 later before
    (after.ReservedAt poolId attemptId → before.ReservedAt poolId attemptId) ∧
      (before.ReservedAt poolId attemptId → d.ReservedAt poolId attemptId) ∧
      (after.SendingAt poolId attemptId → before.SendingAt poolId attemptId ∨
        (before.ReservedAt poolId attemptId ∧ d.ReservedAt poolId attemptId)) ∧
      (after.ComputesAt poolId attemptId → before.ComputesAt poolId attemptId ∨
        (before.ReservedAt poolId attemptId ∧ d.ReservedAt poolId attemptId)) := by
  have shuts : ((Call.quiesceEngine poolId engineEpoch token).code sha256 env).Ensures d
      fun _ d' => d'.Shut poolId engineEpoch ∧ d'.attempts = d.attempts :=
    ensures_reply (quiesceEngine_shuts token)
  obtain ⟨shut, same⟩ := shuts reply d' quiesced
  obtain ⟨first, second⟩ := undisturbed.split
  obtain ⟨shut', since⟩ := Request.afterAll_wanes shut first attemptId
  obtain ⟨-, between⟩ := Request.afterAll_wanes shut' second attemptId
  -- what is reserved was reserved when the engine was quiesced
  have origin (reserved : (Request.afterAll sha256 earlier d').ReservedAt poolId attemptId) :
      d.ReservedAt poolId attemptId := by
    have reserved := since.reserved reserved
    unfold Db.ReservedAt at reserved ⊢
    rwa [same] at reserved
  exact ⟨between.reserved, origin,
    fun now => (between.sending now).imp_right fun here => ⟨here, origin here⟩,
    fun now => (between.computes now).imp_right fun here => ⟨here, origin here⟩⟩

/-! ### Sample runs -/

/-- A request that reports success has the ledger that follows it. -/
theorem Request.perform_of_isOk {request : Request}
    (done : (request.perform sha256 d).isOk = true) :
    ∃ reply, request.perform sha256 d = .ok (reply, request.after sha256 d) := by
  unfold Request.after
  cases ran : request.perform sha256 d with
  | error error => rw [ran] at done; cases done
  | ok answer => exact ⟨answer.1, rfl⟩

/-- Requests that leave the epoch alone and do not resume the engine leave it quiesced. -/
theorem Request.not_reopens {request : Request}
    (same : (request.after sha256 d).epoch poolId = d.epoch poolId)
    (other : ∀ env epoch token, request ≠ .call env (.resumeEngine poolId epoch token)) :
    ¬ request.Reopens sha256 poolId d := by
  rintro (⟨env, epoch, token, -, -, asked, -⟩ | changed)
  · exact other env epoch token asked
  · exact changed same

namespace Sample

/-- An operator quiesces the engine of the sample. -/
def quiesce : Request := .call (Sample.env "") (.quiesceEngine "p" "e" "watchdog")

/-- An executor asks for work, with an identity for a new attempt. -/
def reserve : Request := .call (Sample.env "a") (.reserveNext "p" "w")

/-- The executor sends the attempt that it has reserved. -/
def send : Request := .call (Sample.env "") (.markSend reservation)

end Sample

/-- An operation waits when the engine is quiesced, and is not reserved. -/
theorem quiesce_stops_sample :
    let quiesced := Sample.quiesce.after Sample.sha256 (Sample.after (Sample.reserved.take 3))
    let before := Request.afterAll Sample.sha256 [] quiesced
    let after := Request.afterAll Sample.sha256 [Sample.reserve] before
    ∀ attemptId, ¬ after.ReservedAt "p" attemptId ∧ ¬ after.SendingAt "p" attemptId ∧
      ¬ after.ComputesAt "p" attemptId := by
  intro quiesced before after attemptId
  obtain ⟨reply, ran⟩ := @Request.perform_of_isOk Sample.sha256
    (Sample.after (Sample.reserved.take 3)) Sample.quiesce (by decide +kernel)
  have still : ¬ Sample.reserve.Reopens Sample.sha256 "p" quiesced :=
    Request.not_reopens (by decide +kernel) fun _ _ _ asked => by cases asked
  obtain ⟨reserves, -, sends, computes⟩ :=
    @quiesce_stops Sample.sha256 _ _ _ "p" "e" "watchdog" reply ran [] [Sample.reserve]
      ⟨still, trivial⟩ attemptId
  have absent : before.attempts.rows = [] := by decide +kernel
  have none (a : AttemptRow) : before.attempts.find? attemptId ≠ some a := fun found => by
    have member := Table.mem_of_find? found
    rw [absent] at member
    cases member
  refine ⟨fun now => ?_, fun now => ?_, fun now => ?_⟩
  · obtain ⟨a, found, -⟩ := reserves now
    exact none a found
  · rcases sends now with ⟨a, found, -⟩ | ⟨⟨a, found, -⟩, -⟩ <;> exact none a found
  · rcases computes now with ⟨a, found, -⟩ | ⟨⟨a, found, -⟩, -⟩ <;> exact none a found

/-- The attempt of the sample is reserved when the engine is quiesced, and is sent. -/
theorem quiesce_stops_fails :
    let before := Sample.quiesce.after Sample.sha256 (Sample.after Sample.reserved)
    let after := Request.afterAll Sample.sha256 [Sample.send] before
    (Sample.quiesce.perform Sample.sha256 (Sample.after Sample.reserved)).isOk = true ∧
      Request.Undisturbed Sample.sha256 "p" before [Sample.send] ∧
      ¬ before.SendingAt "p" "a" ∧ (∀ a ∈ before.attempts.rows, a.computeHeld = false) ∧
      after.SendingAt "p" "a" ∧ after.ComputesAt "p" "a" := by
  refine ⟨by decide +kernel, ⟨?_, trivial⟩, by decide +kernel, by decide +kernel,
    by decide +kernel, by decide +kernel⟩
  exact Request.not_reopens (by decide +kernel) fun _ _ _ asked => by cases asked

end IntramindRuntime.Ledger
