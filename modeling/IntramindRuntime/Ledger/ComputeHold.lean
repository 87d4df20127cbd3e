import IntramindRuntime.Ledger.Budget

/-!
# Held compute

An attempt that was sent holds compute at its engine, and with it the bound it was
charged, until its inference is known to be over. Only four methods may say so.
The compute belongs to the engine epoch the attempt was reserved for, which need
not be the current epoch of the pool when the attempt is sent.

## Main definitions

* `Request.releases` — the requests that may release the compute of an attempt
* `Db.HeldCurrent` — all held compute belongs to the current epoch of its pool
* `Request.sendsCurrent` — a send reaches the engine that the attempt was reserved for

## Main results

* `Reachable.no_fabricated_termination` — nothing else releases compute
* `Request.held_current` — without a send to an old epoch, held compute is current
-/

namespace IntramindRuntime.Ledger

open Library

/-- The requests that may release the compute of the attempt `a`. -/
def Request.releases (d : Db) (a : AttemptRow) : Request → Prop
  | .call _ (.computeFinished reservation) =>
    reservation.attemptId = a.attemptId ∧ Owns d reservation
  | .call _ (.fail reservation _ notSent _ _) =>
    notSent = true ∧ reservation.attemptId = a.attemptId ∧ Owns d reservation
  | .call _ (.confirmEpochStopped poolId engineEpoch evidence _) =>
    a.poolId = poolId ∧ a.engineEpoch = engineEpoch ∧
      evidence.text.toList.all isSpace = false
  | .call _ (.settleIdleUnknown poolId engineEpoch idleSince attemptIds) =>
    a.poolId = poolId ∧ a.engineEpoch = engineEpoch ∧ a.attemptId ∈ attemptIds ∧
      a.state = .unknown ∧ ∃ unknownAt, a.unknownAt = some unknownAt ∧ unknownAt < idleSince
  | _ => False

section Release

variable {sha256 : String → String} {authority : Authority} {d : Db} {a : AttemptRow}

theorem Db.attempt_unique {a' : AttemptRow} (member : a ∈ d.attempts.rows)
    (member' : a' ∈ d.attempts.rows) (same : a'.attemptId = a.attemptId) : a' = a :=
  Option.some.inj ((Table.find?_of_mem member').symm.trans
    ((congrArg d.attempts.find? same).trans (Table.find?_of_mem member)))

/-- A request that may use the label of a release is one of the four. -/
theorem Request.releases_of_allows {request : Request} (member : a ∈ d.attempts.rows)
    (allowed : request.allows d (.release a.attemptId)) : request.releases d a := by
  cases request with
  | reconcileExpired => cases allowed
  | call env asked =>
    cases asked with
    | computeFinished reservation =>
      rcases allowed with quiet | ⟨release, owns⟩
      · cases quiet
      · exact ⟨(Label.release.inj release).symm, owns⟩
    | fail reservation reason notSent retry delay =>
      rcases allowed with quiet | ⟨release, sent, owns⟩
      · cases quiet
      · exact ⟨sent, (Label.release.inj release).symm, owns⟩
    | confirmEpochStopped poolId engineEpoch evidence recover =>
      rcases allowed with quiet | ⟨attemptId, release, text, a', member', named, pool, epoch⟩
      · cases quiet
      · have same := named.trans (Label.release.inj release).symm
        obtain rfl := Db.attempt_unique member member' same
        exact ⟨pool, epoch, text⟩
    | settleIdleUnknown poolId engineEpoch idleSince attemptIds =>
      rcases allowed with
        quiet | ⟨attemptId, release, listed, a', member', named, pool, epoch, state, since⟩
      · cases quiet
      · have same := Label.release.inj release
        obtain rfl := Db.attempt_unique member member' (named.trans same.symm)
        exact ⟨pool, epoch, same ▸ listed, state, since⟩
    | configurePool | markSend => rcases allowed with label | label <;> cases label
    | _ => cases allowed

/-- While an attempt holds compute, it holds budget, and its bound is counted in what
its budget has reserved. -/
theorem Reachable.bound_counted (reached : Reachable sha256 authority d)
    (member : a ∈ d.attempts.rows) (held : a.computeHeld = true) :
    a.budgetHeld = true ∧ ∃ op budget, d.operations.find? a.operationId = some op ∧
      d.account op.rootId a.budgetUnit = some budget ∧
      budget.reserved = d.boundsHeld op.rootId a.budgetUnit ∧
      a ∈ (d.attemptsOf op.rootId a.budgetUnit).filter AttemptRow.budgetHeld := by
  have valid := reached.valid
  have budget := ((valid.consistent a member).compute held).1
  obtain ⟨task, found, -, -⟩ := valid.linked.attempt a member
  obtain ⟨op, op_found, rfl⟩ := Option.map_eq_some_iff.mp found
  obtain ⟨account, known⟩ := Option.ne_none_iff_exists'.mp
    (valid.accounted.backed a member budget op.task found)
  refine ⟨budget, op, account, op_found, known, ?_, ?_⟩
  · rw [← Db.total_held]
    exact valid.accounted.reserved _ _ _ known
  · refine List.mem_filter.mpr ⟨Db.mem_attemptsOf.mpr ⟨member, ?_, rfl⟩, budget⟩
    unfold Book.rootOf
    rw [found]
    rfl

/-- Compute is released by no request but the four that know that the inference is
over; until then the attempt holds its budget, and its bound stays reserved. -/
theorem Reachable.no_fabricated_termination (reached : Reachable sha256 authority d)
    (member : a ∈ d.attempts.rows) (held : a.computeHeld = true) (request : Request) :
    (∃ a', (request.after sha256 d).attempts.find? a.attemptId = some a' ∧
      (a'.computeHeld = false → request.releases d a)) ∧
    a.budgetHeld = true ∧ ∃ op budget, d.operations.find? a.operationId = some op ∧
      d.account op.rootId a.budgetUnit = some budget ∧
      budget.reserved = d.boundsHeld op.rootId a.budgetUnit ∧
      a ∈ (d.attemptsOf op.rootId a.budgetUnit).filter AttemptRow.budgetHeld := by
  refine ⟨?_, reached.bound_counted member held⟩
  obtain ⟨a', member', same, kept⟩ := (reached.refines request).keeps_compute reached.valid member
  refine ⟨a', same.attemptId ▸ Table.find?_of_mem member', fun lost => ?_⟩
  rcases kept held with still | released
  · rw [still] at lost
    cases lost
  · exact Request.releases_of_allows member released

/-- The sent attempt of the sample holds its budget, and no reconciliation releases it. -/
theorem no_fabricated_termination_sample :
    ∃ a ∈ (Sample.after Sample.sent).attempts.rows, a.computeHeld = true ∧
      a.budgetHeld = true := by
  have found : ((Sample.after Sample.sent).attempts.find? "a").isSome = true := by
    decide +kernel
  have compute : ((Sample.after Sample.sent).attempts.find? "a").map AttemptRow.computeHeld =
      some true := by decide +kernel
  obtain ⟨a, here⟩ := Option.isSome_iff_exists.mp found
  have held : a.computeHeld = true := by
    rw [here, Option.map_some] at compute
    exact Option.some.inj compute
  have member := Table.mem_of_find? here
  exact ⟨a, member, held, (Reachable.no_fabricated_termination
    (Sample.reachable Sample.sent) member held (.call (Sample.env "") .reconcile)).2.1⟩

end Release

/-! ### Engine epochs -/

/-- All held compute belongs to the current engine epoch of its pool. -/
def Db.HeldCurrent (d : Db) : Prop :=
  ∀ a ∈ d.attempts.rows, a.computeHeld = true →
    (d.pools.find? a.poolId).map PoolRow.engineEpoch = some a.engineEpoch

instance (d : Db) : Decidable d.HeldCurrent := by unfold Db.HeldCurrent; infer_instance

/-- A send reaches the engine that the attempt was reserved for: the epoch of the
attempt is the current epoch of its pool. -/
def Request.sendsCurrent (d : Db) : Request → Bool
  | .call _ (.markSend reservation) => (d.attempts.find? reservation.attemptId).all fun a =>
    (d.pools.find? a.poolId).any fun pool => pool.engineEpoch = a.engineEpoch
  | _ => true

/-- Every request of a run satisfies a condition on the ledger it meets. -/
def Request.always (sha256 : String → String) (condition : Db → Request → Bool) :
    List Request → Db → Bool
  | [], _ => true
  | request :: rest, d => condition d request && always sha256 condition rest (request.after sha256 d)

section Epochs

variable {sha256 : String → String} {authority : Authority} {d : Db}

theorem markSend_of_missing {env : Env} {reservation : Reservation}
    (missing : d.attempts.find? reservation.attemptId = none) :
    (Request.call env (.markSend reservation)).after sha256 d = d := by
  have refused : ((Call.markSend reservation).code sha256 env).Ensures d fun _ _ => False := by
    refine ensures_reply (Tx.Ensures.bind ((owned_spec reservation).mono ?_))
    rintro j _ ⟨rfl, joins, named, -⟩
    have found := joins.attempt
    rw [named, missing] at found
    cases found
  unfold Request.after
  split
  · next reply d' ran => exact (refused reply d' ran).elim
  · rfl

/-- One request keeps held compute current, unless it is a send to an old epoch. -/
theorem Request.step_current (request : Request) (valid : d.book.Valid) (current : d.HeldCurrent)
    (condition : request.sendsCurrent d = true) : (request.after sha256 d).HeldCurrent := by
  have path : Path (request.allows d) d.book (request.after sha256 d).book :=
    request.refines valid
  have current : d.book.Current := current
  by_cases sends : ∃ attemptId, request.allows d (.send attemptId)
  · obtain ⟨attemptId, allowed⟩ := sends
    obtain ⟨env, reservation, rfl, -⟩ := Request.markSend_of_allows allowed
    cases found : d.attempts.find? reservation.attemptId with
    | none =>
      rw [markSend_of_missing found]
      exact current
    | some a =>
      refine fun a' member held => (?_ :
        (Request.after sha256 (.call env (.markSend reservation)) d).book.epochs a'.poolId =
          some a'.engineEpoch)
      have epochs : (Request.after sha256 (.call env (.markSend reservation)) d).book.epochs =
          d.book.epochs := path.keeps_epochs fun poolId label => by rcases label with h | h <;> cases h
      rw [epochs]
      rcases path.compute_origin valid member held with sent | ⟨old, oldMem, same, was⟩
      · have named : a'.attemptId = reservation.attemptId := by
          rcases sent with quiet | sent
          · cases quiet
          · exact Label.send.inj sent
        obtain ⟨a'', member'', same, -⟩ := path.keeps_compute valid (Table.mem_of_find? found)
        have key : a.attemptId = reservation.attemptId := Table.key_of_find? found
        obtain rfl := Db.attempt_unique member member''
          ((same.attemptId.trans key).trans named.symm)
        rw [same.poolId, same.engineEpoch]
        simp only [Request.sendsCurrent, found, Option.all_some, Option.any_eq_true,
          decide_eq_true_eq] at condition
        obtain ⟨pool, pool_found, epoch⟩ := condition
        rw [Db.book_epoch_of_found pool_found, epoch]
      · rw [same.poolId, same.engineEpoch]
        exact current old oldMem was
  · exact path.current valid current fun attemptId allowed => sends ⟨attemptId, allowed⟩

/-- In every run whose sends all reach the engine that the attempt was reserved for,
held compute belongs to the current epoch of its pool. -/
theorem Request.held_current (requests : List Request)
    (condition : Request.always sha256 Request.sendsCurrent requests (Db.empty authority) = true) :
    (Request.afterAll sha256 requests (Db.empty authority)).HeldCurrent := by
  have extend : ∀ d : Db, d.book.Valid → d.HeldCurrent →
      Request.always sha256 Request.sendsCurrent requests d = true →
      (Request.afterAll sha256 requests d).HeldCurrent := by
    clear condition
    induction requests with
    | nil => exact fun _ _ current _ => current
    | cons request rest ih =>
      intro d valid current condition
      rw [Request.always, Bool.and_eq_true] at condition
      exact ih _ ((request.refines valid).valid valid)
        (request.step_current valid current condition.1) condition.2
  exact extend _ Db.empty_valid (fun _ member => by cases member) condition

/-- The send of the sample reaches its engine. -/
theorem held_current_sample : (Sample.after Sample.sent).HeldCurrent :=
  Request.held_current Sample.sent (by decide +kernel)

/-- A reserved attempt does not keep its pool from being configured to a new epoch,
and is sent all the same. -/
def Sample.stale : List Request := Sample.reserved ++
  [.call (Sample.env "") (.configurePool (Sample.pool "f") 4),
    .call (Sample.env "") (.markSend Sample.reservation)]

/-- After a configuration between reservation and send, held compute belongs to an
epoch that its pool has left. -/
theorem held_current_fails : Reachable Sample.sha256 {} (Sample.after Sample.stale) ∧
    ¬ (Sample.after Sample.stale).HeldCurrent :=
  ⟨Sample.reachable Sample.stale, by decide +kernel⟩

end Epochs

end IntramindRuntime.Ledger
