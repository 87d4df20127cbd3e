import IntramindRuntime.Scheduling.Moves

/-!
# Lost attempts are released on two proofs

A lost attempt keeps its permit until two probes of its engine, one after the other,
prove it not computing. Between two turns the scheduler keeps a streak for each pool:
the epoch and the key of the first proof, when that probe started, and the attempts
that are proven so far. This file follows the history of the probes next to the
streaks and shows that a streak is always backed by the last proof of its pool, with
nothing after it that would have to end the streak.

## Main definitions

* `Process.observed` — the history of the probes
* `Observation.misses` — a turn that must end the streak of a pool
* `Stands` — a proof that nothing has ended
* `Backed` — every streak has a proof that stands
* `ProvenTwice` — two proofs by the same epoch and key, with nothing between that ends the first

## Main results

* `Backed.weigh`, `verdict_of_weigh` — what a probe does to the streaks, and when it gives a verdict
* `Process.idle_proof` — whatever is released as idle, or handed to the ledger, is proven twice
-/

namespace IntramindRuntime.Scheduling

open Library Relation

/-! ### The history of the probes -/

/-- A turn of the pool proves nothing, or finds no `UNKNOWN` permit. -/
def Observation.misses (poolId : String) : Observation → Prop
  | .scanned pools => poolId ∉ pools
  | .missed other => other = poolId
  | .proved .. => False

namespace Process

/-- What the maintenance loop learns in a turn. -/
def seen (p : Process) : Event → List Observation
  | .maintain clock notice => (Scheduling.maintain clock p.scheduler p.maintenance notice).seen
  | _ => []

/-- What it learns in a sequence of turns. -/
def observed (p : Process) : List Event → List Observation
  | [] => []
  | event :: events => p.seen event ++ (p.step event).observed events

end Process

/-- The log has a proof for these attempts, and nothing after it ends it. -/
def Stands (log : List Observation) (poolId epoch key : String) (since : Time)
    (ids : Finset String) : Prop :=
  ∃ before proven between, log = before ++ .proved poolId epoch key since proven :: between ∧
    ids ⊆ proven ∧ ∀ seen ∈ between, ¬ seen.misses poolId

/-- The turn begins with a proof of the attempt, and the one before it still stands. -/
def ProvenTwice (log turn : List Observation) (poolId epoch : String) (since : Time)
    (attemptId : String) : Prop :=
  ∃ key, Stands log poolId epoch key since {attemptId} ∧
    ∃ started proven later, turn = .proved poolId epoch key started proven :: later ∧
      attemptId ∈ proven

variable {log later : List Observation} {s s' : MemoryScheduler} {poolId epoch key : String}
  {since : Time} {ids : Finset String}

theorem Stands.append (stands : Stands log poolId epoch key since ids)
    (quiet : ∀ seen ∈ later, ¬ seen.misses poolId) :
    Stands (log ++ later) poolId epoch key since ids := by
  obtain ⟨before, proven, between, rfl, listed, kept⟩ := stands
  refine ⟨before, proven, between ++ later, by simp, listed, fun seen member => ?_⟩
  rcases List.mem_append.mp member with old | new
  · exact kept seen old
  · exact quiet seen new

theorem Stands.mono {fewer : Finset String} (stands : Stands log poolId epoch key since ids)
    (subset : fewer ⊆ ids) : Stands log poolId epoch key since fewer := by
  obtain ⟨before, proven, between, same, listed, kept⟩ := stands
  exact ⟨before, proven, between, same, subset.trans listed, kept⟩

/-- A proof at the end of the log stands. -/
theorem stands_proved (proven : Finset String) :
    Stands (log ++ [.proved poolId epoch key since proven]) poolId epoch key since proven :=
  ⟨log, proven, [], rfl, Finset.Subset.refl proven, fun _ member => by cases member⟩

/-! ### Streaks -/

/-- Every streak belongs to a known pool and is one proof long, and that proof stands. -/
def Backed (log : List Observation) (s : MemoryScheduler) : Prop :=
  ∀ poolId streak, s.unknownIdle poolId = some streak →
    streak.probes = 1 ∧ s.pools.find? poolId ≠ none ∧
      Stands log poolId streak.epoch streak.key streak.since streak.streak

/-- Streaks that stay, and that nothing ends, stay backed. -/
theorem Backed.of_fewer (backed : Backed log s)
    (streaks : ∀ poolId streak, s'.unknownIdle poolId = some streak →
      s.unknownIdle poolId = some streak ∧ ∀ seen ∈ later, ¬ seen.misses poolId)
    (pools : ∀ poolId, s.pools.find? poolId ≠ none → s'.pools.find? poolId ≠ none) :
    Backed (log ++ later) s' := by
  intro poolId streak found
  obtain ⟨here, quiet⟩ := streaks poolId streak found
  obtain ⟨single, pool, stands⟩ := backed poolId streak here
  exact ⟨single, pools poolId pool, stands.append quiet⟩

/-- Without a streak for the pool, the turn may miss it. -/
theorem Backed.missed (backed : Backed log s) (absent : s.unknownIdle poolId = none) :
    Backed (log ++ [.missed poolId]) s := by
  refine backed.of_fewer (fun other streak found => ⟨found, fun seen member => ?_⟩)
    fun _ pool => pool
  obtain rfl := List.mem_singleton.mp member
  rintro (rfl : poolId = other)
  rw [absent] at found
  cases found

theorem forgetStreak_unknownIdle (poolId other : String) :
    (s.forgetStreak poolId).unknownIdle other =
      if other = poolId then none else s.unknownIdle other := Function.update_apply ..

theorem forgetStreak_self : (s.forgetStreak poolId).unknownIdle poolId = none :=
  (forgetStreak_unknownIdle poolId poolId).trans (if_pos rfl)

/-- Forgetting a streak needs no reason. -/
theorem Backed.forget (backed : Backed log s) (poolId : String) :
    Backed log (s.forgetStreak poolId) := by
  have fewer : Backed (log ++ []) (s.forgetStreak poolId) := by
    refine backed.of_fewer (fun other streak found => ⟨?_, fun _ member => by cases member⟩)
      fun _ pool => pool
    rw [forgetStreak_unknownIdle] at found
    split at found
    · cases found
    · exact found
  rwa [List.append_nil] at fewer

/-- The streaks of pools without `UNKNOWN` permits end with the scan. -/
theorem Backed.keep (backed : Backed log s) (pending : List (String × Finset String)) :
    Backed (log ++ [.scanned (pending.map Prod.fst)]) (s.keepStreaks pending) := by
  refine backed.of_fewer (fun poolId streak found => ?_) fun _ pool => pool
  unfold MemoryScheduler.keepStreaks at found
  dsimp only at found
  split at found
  · rename_i listed
    refine ⟨found, fun seen member => ?_⟩
    obtain rfl := List.mem_singleton.mp member
    exact fun absent => absent listed
  · cases found

/-! ### One probe -/

/-- Without a streak that it extends, a probe starts one of its own. -/
theorem streakFor_cases (pool : Pool) (key : String) (started : Time) (proven : Finset String) :
    (s.streakFor pool key started proven = ⟨pool.epoch, key, started, 0, proven⟩) ∨
      s.unknownIdle pool.spec.poolId = some (s.streakFor pool key started proven) ∧
        (s.streakFor pool key started proven).epoch = pool.epoch ∧
        (s.streakFor pool key started proven).key = key := by
  unfold MemoryScheduler.streakFor
  split
  · rename_i streak found
    split
    · rename_i same
      exact Or.inr ⟨found, same⟩
    · exact Or.inl rfl
  · exact Or.inl rfl

/-- A probe that proves something leaves a log in which no pool is missed. -/
theorem Backed.proved (backed : Backed log s) (pool : Pool) (key : String) (started : Time)
    (proven : Finset String) :
    Backed (log ++ [.proved pool.spec.poolId pool.epoch key started proven]) s := by
  refine backed.of_fewer (fun _ _ found => ⟨found, fun seen member => ?_⟩) fun _ known => known
  obtain rfl := List.mem_singleton.mp member
  exact not_false

/-- A probe leaves every streak backed. -/
theorem Backed.weigh (backed : Backed log s) {pool : Pool}
    (known : s.pools.find? pool.spec.poolId ≠ none) (started : Time)
    (proof : Option (String × Finset String)) :
    Backed (log ++ [observation pool started proof]) (s.weigh pool started proof).1 := by
  have ends : Backed (log ++ [.missed pool.spec.poolId]) (s.forgetStreak pool.spec.poolId) :=
    (backed.forget pool.spec.poolId).missed forgetStreak_self
  unfold MemoryScheduler.weigh observation
  split
  · exact ends
  · rename_i key proven
    split
    · exact ends
    · have goes_on := backed.proved pool key started proven
      dsimp only
      split
      · exact goes_on.forget _
      · split
        · rename_i few
          rcases streakFor_cases (s := s) pool key started proven with new | ⟨old, -, -⟩
          · -- the first proof of a streak is this one
            intro poolId streak found
            simp only [Function.update_apply, new] at found
            split at found
            · rename_i same
              subst same
              obtain rfl := Option.some.inj found
              exact ⟨rfl, known, (stands_proved proven).mono Finset.inter_subset_right⟩
            · exact goes_on poolId streak found
          · -- a streak that is kept is one proof long, so this is its second
            have single := (backed _ _ old).1
            omega
        · exact goes_on.forget _

/-- The second proof of a streak gives a verdict about the attempts in both. -/
theorem verdict_of_weigh (backed : Backed log s) {pool : Pool} {started : Time}
    {proof : Option (String × Finset String)} {verdict : Verdict}
    (given : (s.weigh pool started proof).2 = some verdict) :
    verdict.epoch = pool.epoch ∧ ∃ key proven,
      observation pool started proof = .proved pool.spec.poolId pool.epoch key started proven ∧
      verdict.streak ⊆ proven ∧
      Stands log pool.spec.poolId pool.epoch key verdict.since verdict.streak := by
  unfold MemoryScheduler.weigh at given
  split at given
  · cases given
  · rename_i key proven
    split at given
    · cases given
    · rename_i some_proven
      dsimp only at given
      split at given
      · cases given
      · split at given
        · cases given
        · rename_i enough
          obtain rfl := Option.some.inj given
          rcases streakFor_cases (s := s) pool key started proven with new | ⟨old, epoch, named⟩
          · -- a new streak has no proof before this one
            rw [new] at enough
            exact absurd one_lt_two enough
          · obtain ⟨-, -, stands⟩ := backed _ _ old
            rw [epoch, named] at stands
            refine ⟨epoch, key, proven, if_neg some_proven, Finset.inter_subset_right, ?_⟩
            exact stands.mono Finset.inter_subset_left

/-! ### Turns without probes -/

/-- No attempt is newly released as idle. -/
def KeepsIdle (s s' : MemoryScheduler) : Prop :=
  ∀ id attempt, s'.directAttempts.find? id = some attempt → attempt.idleVerified = true →
    ∃ old, s.directAttempts.find? id = some old ∧ old.idleVerified = true

theorem KeepsIdle.of_eq (same : s'.directAttempts = s.directAttempts) : KeepsIdle s s' :=
  fun _ attempt found verified => ⟨attempt, same ▸ found, verified⟩

theorem KeepsIdle.trans {s'' : MemoryScheduler} (first : KeepsIdle s s')
    (second : KeepsIdle s' s'') : KeepsIdle s s'' := by
  intro id attempt found verified
  obtain ⟨old, found, verified⟩ := second id attempt found verified
  exact first id old found verified

/-- Rewriting an attempt without verifying it. -/
theorem KeepsIdle.of_modify {attemptId : String} {f : Permit → Permit}
    (same : s'.directAttempts = s.directAttempts.modify attemptId f)
    (key : ∀ p, (f p).attemptId = p.attemptId)
    (verified : ∀ p, (f p).idleVerified = p.idleVerified) : KeepsIdle s s' := by
  intro id attempt found idle
  rw [same] at found
  obtain ⟨old, here, ⟨rfl, rfl⟩ | ⟨-, rfl⟩⟩ := Table.find?_of_modify found key
  · exact ⟨old, here, verified old ▸ idle⟩
  · exact ⟨attempt, here, idle⟩

/-- What turns without probes do about streaks, pools and verified attempts. -/
structure Unprobed (s s' : MemoryScheduler) : Prop where
  streaks : s'.unknownIdle = s.unknownIdle
  pools : ∀ poolId, s.pools.find? poolId ≠ none → s'.pools.find? poolId ≠ none
  idle : KeepsIdle s s'

theorem Unprobed.refl (s : MemoryScheduler) : Unprobed s s :=
  ⟨rfl, fun _ pool => pool, .of_eq rfl⟩

theorem Unprobed.trans {s'' : MemoryScheduler} (first : Unprobed s s')
    (second : Unprobed s' s'') : Unprobed s s'' :=
  ⟨second.streaks.trans first.streaks, fun poolId pool => second.pools poolId
    (first.pools poolId pool), first.idle.trans second.idle⟩

theorem Backed.of_unprobed (backed : Backed log s) (unprobed : Unprobed s s') : Backed log s' := by
  have kept : Backed (log ++ []) s' := backed.of_fewer
    (fun _ _ found => ⟨unprobed.streaks ▸ found, fun _ member => by cases member⟩) unprobed.pools
  rwa [List.append_nil] at kept

@[simp] theorem removeWaiter_unknownIdle (identity : String) :
    (s.removeWaiter identity).unknownIdle = s.unknownIdle := by
  unfold MemoryScheduler.removeWaiter
  split <;> rfl

theorem Move.unprobed {scope : Scope} (move : Move scope s s')
    (off : scope.probing = false) : Unprobed s s' := by
  cases move with
  | quiet same =>
    exact ⟨same.unknownIdle, fun _ pool => same.pools ▸ pool, .of_eq same.directAttempts⟩
  | withdraw identity =>
    exact ⟨removeWaiter_unknownIdle identity, fun _ pool => removeWaiter_pools s identity ▸ pool,
      .of_eq (removeWaiter_directAttempts s identity)⟩
  | prune queues => exact ⟨rfl, fun _ pool => pool, .of_eq rfl⟩
  | forget identity =>
    refine ⟨rfl, fun _ pool => pool, fun id attempt found verified => ?_⟩
    unfold MemoryScheduler.forget at found
    rw [Table.find?_filter, Option.filter_eq_some_iff] at found
    exact ⟨attempt, found.1, verified⟩
  | disown identity => exact ⟨rfl, fun _ pool => pool, .of_eq rfl⟩
  | grant reservation new waits found room =>
    refine ⟨removeWaiter_unknownIdle _, fun _ pool => grant_pools s reservation ▸ pool, ?_⟩
    intro id attempt here verified
    rw [grant_directAttempts, Table.find?_put] at here
    split at here
    · -- a new attempt is not verified
      obtain rfl := Option.some.inj here
      cases verified
    · exact ⟨attempt, here, verified⟩
  | progress attemptId state unknownAt held live =>
    exact ⟨rfl, fun _ pool => pool, .of_modify rfl (fun _ => rfl) fun _ => rfl⟩
  | conclude attemptId state idleVerified aside ended unproven =>
    rcases unproven with on | rfl
    · rw [off] at on
      cases on
    · exact ⟨rfl, fun _ pool => pool, .of_modify rfl (fun _ => rfl) fun _ => rfl⟩
  | observe attemptId state => exact ⟨rfl, fun _ pool => pool, .of_eq rfl⟩
  | drop attemptId isOver => exact ⟨rfl, fun _ pool => pool, .of_eq rfl⟩
  | regain allowed => exact ⟨rfl, fun _ pool => pool, .of_eq rfl⟩
  | adopt pool allowed fits =>
    refine ⟨rfl, fun poolId pool' => ?_, .of_eq rfl⟩
    rw [Table.find?_put]
    split
    · exact Option.some_ne_none _
    · exact pool'
  | weigh unknownIdle allowed =>
    rw [off] at allowed
    cases allowed
  | wait waiter allowed => exact ⟨rfl, fun _ pool => pool, .of_eq rfl⟩
  | grantDurable call allowed asked fits named room =>
    exact ⟨removeWaiter_unknownIdle _, fun _ pool => grantDurable_pools s call ▸ pool,
      .of_eq (grantDurable_directAttempts s call)⟩

theorem Path.unprobed {scope : Scope} (path : Path scope s s')
    (off : scope.probing = false) : Unprobed s s' := by
  induction path with
  | refl => exact .refl s
  | tail _ move ih => exact ih.trans (move.unprobed off)

/-! ### Turns with probes -/

/-- The loop asks for a proof of a pool that it knows. -/
def Maintenance.KnowsPool (s : MemoryScheduler) : Maintenance → Prop
  | .proving pool .. => s.pools.find? pool.spec.poolId ≠ none
  | _ => True

/-- A turn leaves the streaks backed and the loop at a pool that it knows. -/
def Turned.Sound (log : List Observation) (turned : Turned) : Prop :=
  Backed (log ++ turned.seen) turned.scheduler ∧ turned.next.KnowsPool turned.scheduler

/-- A turn that releases nothing as idle and hands nothing to the ledger. -/
def Turned.SettlesNothing (s : MemoryScheduler) (turned : Turned) : Prop :=
  KeepsIdle s turned.scheduler ∧ ∀ request rest, turned.next ≠ .settling request rest

theorem Turned.sound_cons {seen : Observation} {turned : Turned}
    (sound : turned.Sound (log ++ [seen])) :
    ({ turned with seen := seen :: turned.seen } : Turned).Sound log := by
  refine ⟨?_, sound.2⟩
  have backed := sound.1
  rwa [List.append_assoc, List.singleton_append] at backed

theorem settleNext_sound (clock : Clock) (pending : List (String × Finset String))
    (backed : Backed log s) : (settleNext clock pending s).Sound log := by
  induction pending generalizing log s with
  | nil =>
    have expired : Path { probing := false } s (s.expireRequests clock.monotonic) :=
      expireRequests_path rfl clock.monotonic
    refine ⟨?_, trivial⟩
    rw [settleNext, List.append_nil]
    exact backed.of_unprobed (expired.unprobed rfl)
  | cons item rest ih =>
    unfold settleNext
    split
    · -- an unknown pool has no streak that could end
      rename_i unknown
      refine Turned.sound_cons (ih (backed.missed ?_))
      by_contra streaky
      obtain ⟨streak, found⟩ := Option.ne_none_iff_exists'.mp streaky
      exact (backed _ streak found).2.1 unknown
    · rename_i pool found
      split
      · refine ⟨?_, ?_⟩
        · rw [List.append_nil]
          exact backed
        · have named : pool.spec.poolId = item.1 := Table.key_of_find? found
          rw [Maintenance.KnowsPool, named, found]
          exact Option.some_ne_none _
      · exact Turned.sound_cons (ih ((backed.forget item.1).missed forgetStreak_self))

theorem settleNext_settlesNothing (clock : Clock) (pending : List (String × Finset String))
    (s : MemoryScheduler) : (settleNext clock pending s).SettlesNothing s := by
  induction pending generalizing s with
  | nil =>
    have expired : Path { probing := false } s (s.expireRequests clock.monotonic) :=
      expireRequests_path rfl clock.monotonic
    exact ⟨(expired.unprobed rfl).idle, fun _ _ settling => by cases settling⟩
  | cons item rest ih =>
    unfold settleNext
    split
    · exact ih s
    · split
      · exact ⟨.of_eq rfl, fun _ _ settling => by cases settling⟩
      · exact ih (s.forgetStreak item.1)

theorem settleBegin_sound (clock : Clock) (backed : Backed log s) :
    (settleBegin clock s).Sound log :=
  Turned.sound_cons (settleNext_sound clock s.pendingUnknown (backed.keep s.pendingUnknown))

theorem settleBegin_settlesNothing (clock : Clock) (s : MemoryScheduler) :
    (settleBegin clock s).SettlesNothing s :=
  settleNext_settlesNothing clock s.pendingUnknown (s.keepStreaks s.pendingUnknown)

theorem reconcileBegin_sound (clock : Clock) (backed : Backed log s) :
    (reconcileBegin clock s).Sound log := by
  unfold reconcileBegin
  split
  · exact settleBegin_sound clock backed
  · refine ⟨?_, trivial⟩
    rw [List.append_nil]
    exact backed

theorem reconcileBegin_settlesNothing (clock : Clock) (s : MemoryScheduler) :
    (reconcileBegin clock s).SettlesNothing s := by
  unfold reconcileBegin
  split
  · exact settleBegin_settlesNothing clock s
  · exact ⟨.of_eq rfl, fun _ _ settling => by cases settling⟩

theorem probeNext_sound (clock : Clock) (pools : List String) (backed : Backed log s) :
    (probeNext clock pools s).Sound log := by
  induction pools with
  | nil => exact reconcileBegin_sound clock (backed.of_unprobed ⟨rfl, fun _ pool => pool, .of_eq rfl⟩)
  | cons poolId rest ih =>
    unfold probeNext
    split
    · refine ⟨?_, trivial⟩
      rw [List.append_nil]
      exact backed
    · exact ih

theorem probeNext_settlesNothing (clock : Clock) (pools : List String) (s : MemoryScheduler) :
    (probeNext clock pools s).SettlesNothing s := by
  induction pools with
  | nil => exact reconcileBegin_settlesNothing clock (s.expireDirty clock.monotonic)
  | cons poolId rest ih =>
    unfold probeNext
    split
    · exact ⟨.of_eq rfl, fun _ _ settling => by cases settling⟩
    · exact ih

/-! ### A verdict -/

/-- The probe justifies what a turn releases as idle, and what it hands to the ledger. -/
structure Turned.Justified (log : List Observation) (s : MemoryScheduler) (turned : Turned) :
    Prop where
  direct : ∀ id attempt, turned.scheduler.directAttempts.find? id = some attempt →
    attempt.idleVerified = true →
      (∃ old, s.directAttempts.find? id = some old ∧ old.idleVerified = true) ∨
      ∃ permit, s.permits.find? id = some permit ∧ permit.kind = .direct ∧
        permit.state = .unknown ∧ ∃ since, (∃ unknownAt ∈ permit.unknownAt, unknownAt < since) ∧
          ProvenTwice log turned.seen permit.poolId permit.engineEpoch since id
  durable : ∀ request rest, turned.next = .settling request rest → ∀ id ∈ request.attemptIds,
    ProvenTwice log turned.seen request.poolId request.epoch request.since id

theorem Turned.SettlesNothing.justified {turned : Turned} (nothing : turned.SettlesNothing s) :
    turned.Justified log s :=
  ⟨fun id attempt found verified => Or.inl (nothing.1 id attempt found verified),
    fun request rest settling => absurd settling (nothing.2 request rest)⟩

theorem settleIdle_same (verdict : Verdict) (permit : Permit) :
    (s.settleIdle verdict permit).unknownIdle = s.unknownIdle ∧
      (s.settleIdle verdict permit).pools = s.pools := by
  unfold MemoryScheduler.settleIdle
  split <;> exact ⟨rfl, rfl⟩

/-- The permits of a verdict are released without a change of streaks or pools. -/
theorem Backed.settleIdle (backed : Backed log s) (verdict : Verdict) (judged : List Permit) :
    Backed log (judged.foldl (fun s permit => s.settleIdle verdict permit) s) := by
  induction judged generalizing s with
  | nil => exact backed
  | cons permit rest ih =>
    obtain ⟨streaks, pools⟩ := @settleIdle_same s verdict permit
    refine ih fun poolId streak found => ?_
    rw [streaks] at found
    rw [pools]
    exact backed poolId streak found

/-- An attempt that a verdict releases as idle has a permit that the verdict covers. -/
theorem settleIdle_verified (verdict : Verdict) (judged : List Permit) {id : String}
    {attempt : Permit}
    (found : (judged.foldl (fun s permit => s.settleIdle verdict permit) s).directAttempts.find? id =
      some attempt) (verified : attempt.idleVerified = true) :
    (∃ old, s.directAttempts.find? id = some old ∧ old.idleVerified = true) ∨
      ∃ permit ∈ judged, permit.attemptId = id ∧ permit.kind = .direct ∧
        permit.engineEpoch = verdict.epoch ∧
        ∃ unknownAt ∈ permit.unknownAt, unknownAt < verdict.since := by
  induction judged generalizing s with
  | nil => exact Or.inl ⟨attempt, found, verified⟩
  | cons permit rest ih =>
    rcases ih found with ⟨old, here, idle⟩ | ⟨other, member, named⟩
    · unfold MemoryScheduler.settleIdle at here
      dsimp only at here
      split at here
      · rename_i covered
        obtain ⟨before, there, ⟨same, -⟩ | ⟨-, rfl⟩⟩ := Table.find?_of_modify here fun _ => rfl
        · exact Or.inr ⟨permit, List.mem_cons_self, same, covered⟩
        · exact Or.inl ⟨old, there, idle⟩
      · exact Or.inl ⟨old, here, idle⟩
    · exact Or.inr ⟨other, List.mem_cons_of_mem _ member, named⟩

theorem weigh_same (pool : Pool) (started : Time) (proof : Option (String × Finset String)) :
    (s.weigh pool started proof).1.pools = s.pools ∧
      (s.weigh pool started proof).1.permits = s.permits ∧
      (s.weigh pool started proof).1.directAttempts = s.directAttempts := by
  unfold MemoryScheduler.weigh
  split
  · exact ⟨rfl, rfl, rfl⟩
  · split
    · exact ⟨rfl, rfl, rfl⟩
    · dsimp only
      split
      · exact ⟨rfl, rfl, rfl⟩
      · split <;> exact ⟨rfl, rfl, rfl⟩

theorem settleProved_sound (clock : Clock) (backed : Backed log s) {pool : Pool}
    (known : s.pools.find? pool.spec.poolId ≠ none) (started : Time)
    (proof : Option (String × Finset String)) (rest : List (String × Finset String)) :
    (settleProved clock pool started proof rest s).Sound log := by
  have weighed := backed.weigh known started proof
  refine Turned.sound_cons ?_
  split
  · rename_i s₁ same
    rw [same] at weighed
    exact settleNext_sound clock rest weighed
  · rename_i s₁ verdict same
    rw [same] at weighed
    have released := weighed.settleIdle verdict (s₁.judged pool.spec.poolId verdict)
    dsimp only
    split
    · exact settleNext_sound clock rest released
    · refine ⟨?_, trivial⟩
      rw [List.append_nil]
      exact released

/-- What a verdict releases or hands over is proven by the probe before it and by this one. -/
theorem settleProved_justified (clock : Clock) (backed : Backed log s) (pool : Pool)
    (started : Time) (proof : Option (String × Finset String))
    (rest : List (String × Finset String)) :
    (settleProved clock pool started proof rest s).Justified log s := by
  obtain ⟨-, permits, attempts⟩ := @weigh_same s pool started proof
  have given := @verdict_of_weigh log s backed pool started proof
  unfold settleProved
  split
  · rename_i s₁ same
    rw [same] at attempts
    have nothing : (settleNext clock rest s₁).SettlesNothing s₁ :=
      settleNext_settlesNothing clock rest s₁
    have idle : KeepsIdle s (settleNext clock rest s₁).scheduler :=
      (KeepsIdle.of_eq attempts).trans nothing.1
    exact Turned.SettlesNothing.justified ⟨idle, nothing.2⟩
  · rename_i s₁ verdict same
    rw [same] at permits attempts given
    obtain ⟨epoch, key, proven, seen, listed, stands⟩ := given rfl
    rw [← epoch] at seen stands
    have judged_of {permit : Permit} (member : permit ∈ s₁.judged pool.spec.poolId verdict) :
        s.permits.find? permit.attemptId = some permit ∧ permit.state = .unknown ∧
          permit.poolId = pool.spec.poolId ∧ ∀ later,
          ProvenTwice log (observation pool started proof :: later) pool.spec.poolId verdict.epoch
            verdict.since permit.attemptId := by
      obtain ⟨here, holds⟩ := List.mem_filter.mp member
      obtain ⟨located, inside, lost⟩ := of_decide_eq_true holds
      rw [permits] at here
      refine ⟨Table.find?_of_mem here, lost, located, fun later => ⟨key, ?_, ?_⟩⟩
      · exact stands.mono (Finset.singleton_subset_iff.mpr inside)
      · exact ⟨started, proven, later, by rw [seen], listed inside⟩
    have released {id : String} {attempt : Permit} (later : List Observation)
        (found : ((s₁.judged pool.spec.poolId verdict).foldl
          (fun s permit => s.settleIdle verdict permit) s₁).directAttempts.find? id = some attempt)
        (verified : attempt.idleVerified = true) :
        (∃ old, s.directAttempts.find? id = some old ∧ old.idleVerified = true) ∨
          ∃ permit, s.permits.find? id = some permit ∧ permit.kind = .direct ∧
            permit.state = .unknown ∧
            ∃ since, (∃ unknownAt ∈ permit.unknownAt, unknownAt < since) ∧
              ProvenTwice log (observation pool started proof :: later) permit.poolId
                permit.engineEpoch since id := by
      rcases settleIdle_verified verdict _ found verified with old | ⟨permit, member, rfl, direct,
        same_epoch, before⟩
      · exact Or.inl (attempts ▸ old)
      · obtain ⟨here, lost, located, twice⟩ := judged_of member
        refine Or.inr ⟨permit, here, direct, lost, verdict.since, before, ?_⟩
        rw [located, same_epoch]
        exact twice later
    dsimp only
    split
    · -- no durable attempt: the loop goes on with the other pools
      have nothing := settleNext_settlesNothing clock rest
        ((s₁.judged pool.spec.poolId verdict).foldl (fun s permit => s.settleIdle verdict permit) s₁)
      refine ⟨fun id attempt found verified => ?_, fun request _ settling => ?_⟩
      · obtain ⟨attempt, found, verified⟩ := nothing.1 id attempt found verified
        exact released _ found verified
      · exact absurd settling (nothing.2 request _)
    · refine ⟨fun id attempt found verified => released _ found verified, ?_⟩
      intro request _ settling id member
      obtain ⟨rfl, -⟩ := Maintenance.settling.inj settling
      obtain ⟨permit, durable, rfl⟩ := List.mem_map.mp member
      exact (judged_of (List.mem_of_mem_filter durable)).2.2.2 _

/-! ### Runs -/

/-- A turn of the loop leaves the streaks backed, and is justified by what it has learned. -/
theorem maintain_sound (clock : Clock) (backed : Backed log s) {on : Maintenance}
    (known : on.KnowsPool s) (notice : Notice) :
    (maintain clock s on notice).Sound log ∧
      ((maintain clock s on notice).Justified log s ∨
        (maintain clock s on notice).SettlesNothing s ∨ maintain clock s on notice = ⟨s, on, []⟩) := by
  have stays {next : Maintenance} (pool : next.KnowsPool s) : (⟨s, next, []⟩ : Turned).Sound log :=
    ⟨by rwa [List.append_nil], pool⟩
  unfold maintain
  split
  · exact ⟨stays trivial, Or.inr (Or.inl ⟨.of_eq rfl, fun _ _ settling => by cases settling⟩)⟩
  · rename_i records order
    have adopted : Path { probing := false } s (s.adopt clock records [] []) :=
      adopt_path rfl rfl clock (fun _ _ => trivial) fun _ _ _ _ => trivial
    have ready : Unprobed s { s.adopt clock records [] [] with controlReady := true } :=
      (adopted.unprobed rfl).trans ⟨rfl, fun _ pool => pool, .of_eq rfl⟩
    refine ⟨probeNext_sound clock _ (backed.of_unprobed ready), Or.inr (Or.inl ?_)⟩
    have nothing := probeNext_settlesNothing clock
      (order.filter fun poolId => poolId ∈ ({ s.adopt clock records [] [] with
        controlReady := true } : MemoryScheduler).dirtyPools)
      { s.adopt clock records [] [] with controlReady := true }
    exact ⟨ready.idle.trans nothing.1, nothing.2⟩
  · rename_i poolId rest idle
    have path : Path { probing := false } s (s.probed clock poolId idle) :=
      probed_path rfl clock poolId idle
    have counted : Unprobed s (s.probed clock poolId idle) := path.unprobed rfl
    refine ⟨probeNext_sound clock rest (backed.of_unprobed counted), Or.inr (Or.inl ?_)⟩
    have nothing := probeNext_settlesNothing clock rest (s.probed clock poolId idle)
    exact ⟨counted.idle.trans nothing.1, nothing.2⟩
  · rename_i active held
    have moves : (reconcileEach held active).Moves (Move { probing := false }) s :=
      reconcileEach_moves fun _ _ => ⟨trivial, fun _ => trivial⟩
    have reconciled : Unprobed s ((reconcileEach held active).final s) := Path.unprobed moves rfl
    unfold Turn.final at reconciled
    split
    · rename_i s₁ ran
      rw [ran] at reconciled
      refine ⟨settleBegin_sound clock (backed.of_unprobed reconciled), Or.inr (Or.inl ?_)⟩
      have nothing := settleBegin_settlesNothing clock s₁
      exact ⟨reconciled.idle.trans nothing.1, nothing.2⟩
    · rename_i error s₁ ran
      rw [ran] at reconciled
      refine ⟨⟨?_, trivial⟩, Or.inr (Or.inl ⟨reconciled.idle, fun _ _ settling => by
        cases settling⟩)⟩
      rw [lost, List.append_nil]
      exact (backed.of_unprobed reconciled).of_unprobed ⟨rfl, fun _ pool => pool, .of_eq rfl⟩
  · rename_i pool candidates started rest reply
    exact ⟨settleProved_sound clock backed known started _ rest,
      Or.inl (settleProved_justified clock backed pool started _ rest)⟩
  · rename_i request rest
    exact ⟨settleNext_sound clock rest backed, Or.inr (Or.inl (settleNext_settlesNothing clock rest s))⟩
  · exact ⟨stays trivial, Or.inr (Or.inr rfl)⟩
  · refine ⟨⟨?_, trivial⟩, Or.inr (Or.inl ⟨.of_eq rfl, fun _ _ settling => by cases settling⟩)⟩
    rw [lost, List.append_nil]
    exact backed
  · exact ⟨stays known, Or.inr (Or.inr rfl)⟩

namespace Process

variable {p : Process}

/-- The streaks are backed by the log, and the loop and the calls know their pools. -/
structure Accounted (log : List Observation) (p : Process) : Prop where
  backed : Backed log p.scheduler
  maintenance : p.maintenance.KnowsPool p.scheduler
  calls : p.CallsKnow { probing := false }

/-- The turn of a caller or of a timer probes nothing. -/
theorem step_unprobed {event : Event} (calls : p.CallsKnow { probing := false })
    (caller : ∀ clock notice, event ≠ .maintain clock notice) :
    Unprobed p.scheduler (p.step event).scheduler ∧
      (p.step event).CallsKnow { probing := false } ∧
      (p.step event).maintenance = p.maintenance := by
  have inScope : p.InScope { probing := false } event := by
    cases event with
    | direct _ _ call =>
      exact ⟨rfl, call.fits_of_free trivial (fun _ => trivial) fun _ => trivial⟩
    | resume clock id answer => exact fun on _ => Scope.hears_of_gone (fun _ => trivial) on answer
    | maintain clock notice => exact absurd rfl (caller clock notice)
    | _ => trivial
  obtain ⟨s, joined, path, calls⟩ := step_turns rfl rfl rfl (fun _ _ _ => trivial) calls inScope
  refine ⟨Unprobed.trans ?_ (path.unprobed rfl), calls, step_maintenance caller⟩
  rcases joined with rfl | ⟨clock, uuid, call, request, poolId, ownerId, -, -, -, -, rfl⟩
  · exact .refl _
  · exact ⟨rfl, fun _ pool => pool, .of_eq rfl⟩

theorem seen_of_caller {event : Event} (caller : ∀ clock notice, event ≠ .maintain clock notice) :
    p.seen event = [] := by
  cases event with
  | maintain clock notice => exact absurd rfl (caller clock notice)
  | _ => rfl

theorem Accounted.step (accounted : p.Accounted log) (event : Event) :
    (p.step event).Accounted (log ++ p.seen event) := by
  by_cases maintenance : ∃ clock notice, event = .maintain clock notice
  · obtain ⟨clock, notice, rfl⟩ := maintenance
    have sound := (maintain_sound clock accounted.backed accounted.maintenance notice).1
    exact ⟨sound.1, sound.2, accounted.calls⟩
  · simp only [not_exists] at maintenance
    obtain ⟨unprobed, calls, same⟩ := step_unprobed accounted.calls maintenance
    rw [seen_of_caller maintenance, List.append_nil]
    refine ⟨accounted.backed.of_unprobed unprobed, ?_, calls⟩
    rw [same]
    have knows := accounted.maintenance
    revert knows
    cases p.maintenance with
    | proving pool candidates started rest => exact unprobed.pools _
    | _ => exact id

theorem Accounted.after (accounted : p.Accounted log) (events : List Event) :
    (p.after events).Accounted (log ++ p.observed events) := by
  induction events generalizing p log with
  | nil =>
    rw [observed, List.append_nil]
    exact accounted
  | cons event rest ih =>
    rw [observed, ← List.append_assoc]
    exact ih (accounted.step event)

/-- A process whose loop has not probed yet. -/
structure Fresh (p : Process) : Prop where
  streaks : ∀ poolId, p.scheduler.unknownIdle poolId = none
  calls : ∀ id, p.calls id = none
  maintenance : p.maintenance = .sleeping

theorem Fresh.accounted (fresh : p.Fresh) : p.Accounted [] := by
  refine ⟨fun poolId streak found => ?_, ?_, fun id on found => ?_⟩
  · rw [fresh.streaks] at found
    cases found
  · rw [fresh.maintenance]
    trivial
  · rw [fresh.calls] at found
    cases found

/-- In every run, an attempt is released as idle, or handed to the ledger as idle, only by
the second of two proofs of its pool by the same epoch and key, both of which list the
attempt, and between which the pool was not missed. A direct attempt belongs to that
epoch, and was lost before the first of the two probes. -/
theorem idle_proof (fresh : p.Fresh) (events : List Event) (event : Event) :
    (∀ id attempt, ((p.after events).step event).scheduler.directAttempts.find? id = some attempt →
      attempt.idleVerified = true →
        (∃ old, (p.after events).scheduler.directAttempts.find? id = some old ∧
          old.idleVerified = true) ∨
        ∃ permit, (p.after events).scheduler.permits.find? id = some permit ∧
          permit.kind = .direct ∧ permit.state = .unknown ∧
          ∃ since, (∃ unknownAt ∈ permit.unknownAt, unknownAt < since) ∧
            ProvenTwice (p.observed events) ((p.after events).seen event) permit.poolId
              permit.engineEpoch since id) ∧
    ∀ request rest, ((p.after events).step event).maintenance = .settling request rest →
      (p.after events).maintenance ≠ .settling request rest → ∀ id ∈ request.attemptIds,
        ProvenTwice (p.observed events) ((p.after events).seen event) request.poolId request.epoch
          request.since id := by
  have accounted : (p.after events).Accounted (p.observed events) := fresh.accounted.after events
  generalize p.after events = q at accounted ⊢
  by_cases maintenance : ∃ clock notice, event = .maintain clock notice
  · obtain ⟨clock, notice, rfl⟩ := maintenance
    obtain ⟨-, justified | nothing | same⟩ :=
      maintain_sound clock accounted.backed accounted.maintenance notice
    · exact ⟨justified.direct, fun request rest settling _ => justified.durable request rest settling⟩
    · have justified : Turned.Justified (p.observed events) q.scheduler _ := nothing.justified
      exact ⟨justified.direct, fun request rest settling _ => justified.durable request rest settling⟩
    · simp only [step, same]
      exact ⟨fun id attempt found verified => Or.inl ⟨attempt, found, verified⟩,
        fun request rest settling other => absurd settling other⟩
  · simp only [not_exists] at maintenance
    obtain ⟨unprobed, -, same⟩ := step_unprobed accounted.calls maintenance
    refine ⟨fun id attempt found verified => Or.inl (unprobed.idle id attempt found verified), ?_⟩
    rw [same]
    exact fun request rest settling other => absurd settling other

end Process

/-- A process that may probe its pool. -/
def probingProcess : Process where
  scheduler := { sampleScheduler with
    settings := { sampleScheduler.settings with slotProbes := {"p"} } }

/-- A request is lost, and the slots of its engine are seen idle. -/
def lostAndProbed : List Event :=
  let request := sampleRequest "r"
  let reservation := sampleReservation "a" "r"
  let clock : Clock := ⟨10, 10⟩
  sampleCalls [("", .enqueue request "p" "proxy"), ("a", .reserve request "p" "proxy"),
      ("", .markSend reservation), ("", .unknown reservation)] ++
    [.maintain clock .ticked, .maintain clock (.refreshed [samplePool] []),
      .maintain clock (.proof (.slots true)), .maintain clock .ticked,
      .maintain clock (.refreshed [samplePool] [])]

theorem idle_proof_sample :
    (((probingProcess.after lostAndProbed).step
      (.maintain ⟨20, 20⟩ (.proof (.slots true)))).scheduler.directAttempts.find? "a").map
        Permit.idleVerified = some true ∧
    ∃ permit, (probingProcess.after lostAndProbed).scheduler.permits.find? "a" = some permit ∧
      ∃ since, (∃ unknownAt ∈ permit.unknownAt, unknownAt < since) ∧
        ProvenTwice (probingProcess.observed lostAndProbed)
          ((probingProcess.after lostAndProbed).seen (.maintain ⟨20, 20⟩ (.proof (.slots true))))
          permit.poolId permit.engineEpoch since "a" := by
  have verified : (((probingProcess.after lostAndProbed).step
      (.maintain ⟨20, 20⟩ (.proof (.slots true)))).scheduler.directAttempts.find? "a").map
        Permit.idleVerified = some true := by decide +kernel
  have before : ((probingProcess.after lostAndProbed).scheduler.directAttempts.find? "a").map
      Permit.idleVerified = some false := by decide +kernel
  refine ⟨verified, ?_⟩
  obtain ⟨attempt, found, idle⟩ := Option.map_eq_some_iff.mp verified
  have fresh : probingProcess.Fresh := ⟨fun _ => rfl, fun _ => rfl, rfl⟩
  rcases (Process.idle_proof fresh lostAndProbed _).1 "a" attempt found idle with
    ⟨old, here, was⟩ | ⟨permit, here, -, -, since, early, twice⟩
  · rw [here] at before
    simp [was] at before
  · exact ⟨permit, here, since, early, twice⟩

end IntramindRuntime.Scheduling
