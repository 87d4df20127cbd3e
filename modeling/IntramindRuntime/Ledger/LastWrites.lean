import IntramindRuntime.Ledger.Cleanup

/-!
# The last writes of an attempt

An executor ends its attempt with `fail`, `unknown`, `compute_finished` or `commit_result`. Each of
these leaves an attempt that serves no longer, or finds that the attempt is not its own any more;
and an attempt that its executor has lost serves no longer either. What serves no longer never
serves again.

## Main definitions

* `Db.Past` — the attempt serves no longer
* `Db.Holder` — the attempt was reserved for the holder of a reservation
* `isFence` — the errors that an executor takes for a fence

## Main results

* `Request.past_stays`, `Request.holder_stays` — both stay
* `reserveNext_holder` — what `reserve_next` returns is the reservation of an attempt
* `computeFinished_past`, `unknown_past`, `fail_past` — a last write that returns leaves the
  attempt past
* `owned_fails`, `fail_fenced` — a last write that is fenced finds it past
-/

namespace IntramindRuntime.Ledger

open Library

namespace Db

variable (d : Db)

/-- The attempt serves no longer: it has ended, is unknown, or its inference has ended. -/
def Past (attemptId : String) : Prop :=
  ∃ a, d.attempts.find? attemptId = some a ∧ ¬ a.Serving

/-- The attempt of the reservation was made for its owner, in its lease epoch. -/
def Holder (reservation : Reservation) : Prop :=
  ∃ a, d.attempts.find? reservation.attemptId = some a ∧
    a.ownerId = reservation.ownerId ∧ a.leaseEpoch = reservation.leaseEpoch

end Db

/-- A `RuntimeConflict`. -/
def isFence : RuntimeError → Bool
  | .conflict _ | .sendBudgetUnavailable _ => true
  | _ => false

/-- An attempt keeps its owner and its lease epoch, and what serves no longer stays so. -/
def retirement : RowGrowth AttemptRow where
  follows old row := row.ownerId = old.ownerId ∧ row.leaseEpoch = old.leaseEpoch ∧
    (¬ old.Serving → ¬ row.Serving)
  fresh _ := True
  refl _ := ⟨rfl, rfl, id⟩
  trans first second := ⟨second.1.trans first.1, second.2.1.trans first.2.1,
    second.2.2 ∘ first.2.2⟩
  keeps _ _ := trivial

section Stays

variable {sha256 : String → String} {env : Env} {d : Db} {attemptId : String}
  {reservation : Reservation}

theorem AttemptRow.Turn.retires {old row : AttemptRow} (turn : old.Turn row) :
    retirement.follows old row := by
  have idle {a : AttemptRow} (reserved : a.state ≠ .reserved) (sent : a.state ≠ .sendIntent)
      (active : a.state ≠ .active) : ¬ a.Serving := by
    rintro (state | state | state)
    · exact reserved state
    · exact sent state
    · exact active state
  cases turn with
  | renew | settle => exact ⟨rfl, rfl, id⟩
  | unknown | resultCommitted | lost | backendFinished | neverSent | stopped =>
    exact ⟨rfl, rfl, fun _ => idle (fun never => by cases never) (fun never => by cases never)
      fun never => by cases never⟩
  | fail _ final =>
    refine ⟨rfl, rfl, fun _ => ?_⟩
    rcases final with rfl | rfl
    · exact idle (fun never => by cases never) (fun never => by cases never)
        fun never => by cases never
    · exact idle (fun never => by cases never) (fun never => by cases never)
        fun never => by cases never

/-- What every request does to an attempt. -/
theorem Request.retires (request : Request) {a : AttemptRow}
    (found : d.attempts.find? attemptId = some a) :
    ∃ a', (request.after sha256 d).attempts.find? attemptId = some a' ∧
      retirement.follows a a' := by
  by_cases send : ∃ env reservation, request = .call env (.markSend reservation)
  · obtain ⟨env, reservation, rfl⟩ := send
    have sends : ((Call.markSend reservation).code sha256 env).Ensures d fun _ d' =>
        ∃ a, d.attempts.find? reservation.attemptId = some a ∧ a.state = .reserved ∧
          d'.attempts = d.attempts.put (a.sendIntent env.now) :=
      ensures_reply (markSend_sends reservation)
    unfold Request.after
    split
    · rename_i reply d' ran
      obtain ⟨sent, here, reserved, put⟩ := sends reply d' ran
      have named : sent.attemptId = reservation.attemptId := Table.key_of_find? here
      rw [put, Table.find?_put]
      split
      · -- the attempt that is sent was reserved
        rename_i same
        have same : reservation.attemptId = attemptId := named.symm.trans same
        rw [← same, here] at found
        cases found
        exact ⟨_, rfl, rfl, rfl, fun idle => (idle (Or.inl reserved)).elim⟩
      · exact ⟨a, found, retirement.refl a⟩
    · exact ⟨a, found, retirement.refl a⟩
  · have keeps : (retirement.on trackedAttempts).Keeps d (request.after sha256 d) := by
      refine request.keeps_of_code fun env asked asks => call_keepsTurns
        (fun _ _ => AttemptRow.Turn.retires) asked
        (fun _ _ _ => reserveNext_keepsTurns (fun _ _ => AttemptRow.Turn.retires)
          (fun _ _ => trivial) _ _) fun reservation here => ?_
      subst here
      obtain ⟨env', rfl⟩ := Request.eq_call_of_asks asks trivial
      exact (send ⟨env', reservation, rfl⟩).elim
    exact RowGrowth.follows_of_keeps (T := trackedAttempts) keeps found

theorem Request.past_stays (request : Request) (past : d.Past attemptId) :
    (request.after sha256 d).Past attemptId := by
  obtain ⟨a, found, idle⟩ := past
  obtain ⟨a', found', -, -, still⟩ := request.retires found
  exact ⟨a', found', still idle⟩

theorem Request.holder_stays (request : Request) (holder : d.Holder reservation) :
    (request.after sha256 d).Holder reservation := by
  obtain ⟨a, found, owner, epoch⟩ := holder
  obtain ⟨a', found', owner', epoch', -⟩ := request.retires found
  exact ⟨a', found', owner'.trans owner, epoch'.trans epoch⟩

end Stays

/-! ### Reservations -/

section Reserve

variable {env : Env} {d : Db} {pool : PoolRow} {ownerId : String}

/-- A reservation that is returned is the one of an attempt. -/
def Held (found : Option Reservation) (d : Db) : Prop :=
  ∀ reservation, found = some reservation → d.Holder reservation

theorem held_none : Held none d := fun _ never => by cases never

theorem reserve_held (candidate : Candidate) (root : RootRow) (op : OperationRow) :
    (Store.reserve env pool ownerId candidate root op).Yields Held := by
  intro d
  unfold Store.reserve
  simp only [Tx.bind_eq, Tx.stmt_bind]
  refine Tx.Ensures.read rfl (ensures_insertAttempt (fun _ => ?_) Tx.Ensures.raise)
  refine ensures_aside_perform rfl fun _ d₁ same₁ => ?_
  refine ensures_aside_perform rfl fun _ d₂ same₂ => Tx.Ensures.ret ?_
  intro reservation same
  cases same
  have made := congrArg (·.find? env.uuid) (same₂.trans same₁)
  exact ⟨_, made.trans Table.find?_put_self, rfl, rfl⟩

theorem tryCandidate_held (candidate : Candidate) (root : RootRow) (op : OperationRow) :
    (Store.tryCandidate env pool ownerId candidate root op).Yields Held := by
  have nobody {p : Transaction Unit} :
      Tx.Yields (p.bind fun _ => (.ret none : Transaction (Option Reservation))) Held :=
    Tx.Yields.bind fun _ => Tx.Yields.ret fun _ => held_none
  unfold Store.tryCandidate
  simp only [Tx.bind_eq, Tx.stmt_bind]
  refine Tx.Yields.bind fun expired => ?_
  split
  · exact Tx.Yields.ret fun _ => held_none
  · split
    · exact Tx.Yields.ret fun _ => held_none
    · refine Tx.Yields.bind fun budget => ?_
      cases budget with
      | none => exact nobody
      | some budget =>
        dsimp only
        split
        · exact nobody
        · split
          · exact Tx.Yields.perform fun _ => Tx.Yields.ret fun _ => held_none
          · exact reserve_held candidate root op

theorem reserveCandidate_held (candidate : Candidate) :
    (Store.reserveCandidate env pool ownerId candidate).Yields Held := by
  unfold Store.reserveCandidate
  simp only [Tx.bind_eq, Tx.stmt_bind]
  refine Tx.Yields.perform fun root => ?_
  cases root with
  | none => exact Tx.Yields.ret fun _ => held_none
  | some root =>
    dsimp only
    split
    · exact Tx.Yields.ret fun _ => held_none
    · refine Tx.Yields.perform fun op => ?_
      cases op with
      | none => exact Tx.Yields.ret fun _ => held_none
      | some op =>
        dsimp only
        split
        · exact Tx.Yields.ret fun _ => held_none
        · exact tryCandidate_held candidate root op

theorem reserveFrom_held (candidates : List Candidate) :
    (Store.reserveFrom env pool ownerId candidates).Yields Held := by
  induction candidates with
  | nil => exact Tx.Yields.ret fun _ => held_none
  | cons candidate rest ih =>
    intro d
    unfold Store.reserveFrom
    refine Tx.Ensures.bind ((reserveCandidate_held candidate d).mono fun found d₁ held => ?_)
    cases found with
    | none => exact ih d₁
    | some reservation => exact Tx.Ensures.ret held

theorem reserveNext_held (poolId : String) :
    (Store.reserveNext env poolId ownerId).Yields Held := by
  unfold Store.reserveNext
  simp only [Tx.bind_eq, Tx.stmt_bind]
  refine Tx.Yields.perform fun pool => ?_
  cases pool with
  | none => exact Tx.Yields.ret fun _ => held_none
  | some pool =>
    dsimp only
    split
    · exact Tx.Yields.ret fun _ => held_none
    · refine Tx.Yields.perform fun group => ?_
      split
      · refine Tx.Yields.perform fun found => ?_
        cases found with
        | none => exact Tx.Yields.raise
        | some candidates => exact reserveFrom_held candidates
      · exact Tx.Yields.ret fun _ => held_none

theorem reserveNext_holder {sha256 : String → String} {d' : Db} {poolId : String}
    {reservation : Reservation}
    (ran : (Request.call env (.reserveNext poolId ownerId)).perform sha256 d =
      .ok (.reservation (some reservation), d')) : d'.Holder reservation := by
  have held : ((Call.reserveNext poolId ownerId).code sha256 env).Ensures d fun reply d' =>
      ∃ found, reply = .reservation found ∧ Held found d' :=
    Tx.Ensures.bind ((reserveNext_held poolId d).mono fun found _ held =>
      Tx.Ensures.ret ⟨found, rfl, held⟩)
  obtain ⟨found, same, held⟩ := held _ _ ran
  cases same
  exact held reservation rfl

end Reserve

/-! ### What a last write leaves -/

section Writes

variable {sha256 : String → String} {env : Env} {authority : Authority} {d : Db}
  {reservation : Reservation}

/-- An open attempt is the active one of its operation. -/
theorem joined_of_found (valid : d.book.Valid) {a : AttemptRow}
    (found : d.attempts.find? reservation.attemptId = some a) :
    ∃ op root, d.join a = some ⟨a, op, root⟩ ∧
      (a.isOpen → op.activeAttempt = some reservation.attemptId) := by
  have member := Table.mem_of_find? found
  have named : a.attemptId = reservation.attemptId := Table.key_of_find? found
  obtain ⟨task, known, -⟩ := valid.linked.attempt a member
  have opened := valid.opened _ _ known
  obtain ⟨running, -⟩ := valid.linked.task _ _ known
  rw [Db.book_tasks] at known
  obtain ⟨op, foundOp, rfl⟩ := Option.map_eq_some_iff.mp known
  obtain ⟨_, foundRoot⟩ := Option.ne_none_iff_exists'.mp running
  obtain ⟨root, foundRoot, -⟩ := Option.map_eq_some_iff.mp foundRoot
  refine ⟨op, root, ?_, fun isOpen => ?_⟩
  · unfold Db.join
    rw [foundOp, Option.bind_some]
    exact Option.map_eq_some_iff.mpr ⟨root, foundRoot, rfl⟩
  · rw [← named]
    exact opened.active a member rfl isOpen

theorem AttemptRow.Serving.isOpen {a : AttemptRow} (serving : a.Serving) : a.isOpen := by
  rcases serving with state | state | state <;> (rw [AttemptRow.isOpen, state]; rfl)

/-- Who holds a reservation and does not own its attempt any more has lost an attempt that serves
no longer. -/
theorem owned_fails (valid : d.book.Valid) (holder : d.Holder reservation) :
    (Store.owned reservation).Fails d fun _ => d.Past reservation.attemptId := by
  obtain ⟨a, found, owner, epoch⟩ := holder
  obtain ⟨op, root, joined, active⟩ := joined_of_found valid found
  unfold Store.owned
  simp only [Tx.bind_eq, Tx.stmt_bind]
  refine Tx.Fails.perform ?_
  have exec : Engine.exec (Sql.attempt (AttemptSql.owned reservation.attemptId))
      (fun _ => false) d d =
        (attempts.selectForUpdate reservation.attemptId (fun a => (d.join a).isSome) d d).map
          fun found => found.bind d.join := rfl
  have here : attempts.find? reservation.attemptId (fun a => (d.join a).isSome) d = some a :=
    Access.find?_eq_some_iff.mpr ⟨found, by rw [joined]; rfl⟩
  rw [exec]
  simp only [Outcome.map_result, Outcome.map_writes, Access.selectForUpdate, Access.target_self,
    here, Option.bind_some, joined]
  refine Tx.Fails.bind ?_ fun _ _ _ => Tx.Fails.ret
  unfold Store.require
  split
  · exact Tx.Fails.ret
  · rename_i lost
    refine Tx.Fails.raise ⟨a, found, fun serving => lost ?_⟩
    have active := active serving.isOpen
    simp [owner, epoch, active]

theorem past_of_not_serving {a : AttemptRow} (found : d.attempts.find? a.attemptId = some a)
    (named : a.attemptId = reservation.attemptId) (idle : ¬ a.Serving) :
    d.Past reservation.attemptId := ⟨a, named ▸ found, idle⟩

/-- What has ended serves no longer. -/
theorem past_of_ended {a : AttemptRow} (found : d.attempts.find? a.attemptId = some a)
    (named : a.attemptId = reservation.attemptId) (ended : a.state.ended = true) :
    d.Past reservation.attemptId := by
  refine past_of_not_serving found named fun serving => ?_
  have isOpen := serving.isOpen
  rw [AttemptRow.isOpen, ended] at isOpen
  cases isOpen

/-- An update that ends the service of the attempt of a reservation. -/
theorem ensures_retire {α : Type} {statement : AttemptSql (Option AttemptRow)}
    {next : Option AttemptRow → Transaction α} {f : AttemptRow → AttemptRow} {attemptId : String}
    (exec : ∀ d, Engine.exec (Sql.attempt statement) (fun _ => false) d d =
      attempts.update attemptId (fun _ => true) f d d)
    (known : d.Knows attemptId) (same : ∀ row, (f row).attemptId = row.attemptId)
    (idle : ∀ row, ¬ (f row).Serving)
    (rest : ∀ value, (next value).Uses Sql.Aside) :
    Tx.Ensures (.perform (.attempt statement) next) d fun _ d' => d'.Past attemptId := by
  refine Tx.Ensures.update (exec d) (fun row found _ => ?_) fun missing => ?_
  · refine (ensures_aside (rest _)).mono fun _ d' kept => ⟨f row, ?_, idle row⟩
    have named : (f row).attemptId = attemptId := (same row).trans (Table.key_of_find? found)
    rw [kept, ← named]
    exact Table.find?_put_self
  · obtain ⟨a, found⟩ := Option.ne_none_iff_exists'.mp known
    cases missing a found

theorem computeFinished_past :
    (Store.computeFinished env reservation).Ensures d fun _ d' =>
      d'.Past reservation.attemptId := by
  unfold Store.computeFinished
  refine Tx.Ensures.bind ((owned_spec reservation).mono ?_)
  rintro a _ ⟨rfl, joins, named, -⟩
  split
  · rename_i ended
    exact Tx.Ensures.ret (past_of_ended joins.attempt named ended)
  · refine ensures_retire (fun _ => rfl) ?_ (fun _ => rfl) (fun row => ?_) fun _ => trivial
    · rw [Db.Knows, ← named, joins.attempt]
      exact Option.some_ne_none _
    · simp [AttemptRow.Serving, AttemptRow.backendFinished]

theorem unknown_past (reason : String) :
    (Store.unknown env reservation reason).Ensures d fun _ d' =>
      d'.Past reservation.attemptId := by
  unfold Store.unknown
  refine Tx.Ensures.bind ((owned_spec reservation).mono ?_)
  rintro a _ ⟨rfl, joins, named, -⟩
  split
  · rename_i ended
    exact Tx.Ensures.ret (past_of_ended joins.attempt named ended)
  · rw [← named]
    refine ensures_retire (fun _ => rfl) ?_ (fun _ => rfl) (fun row => ?_) fun _ => ?_
    · rw [Db.Knows, joins.attempt]
      exact Option.some_ne_none _
    · simp [AttemptRow.Serving, AttemptRow.unknown]
    · refine (expireOperation_aside ..).bind fun _ => uses_when ⟨rfl, fun _ => trivial⟩

theorem failOperation_aside (a : Joined) (reason : String) (retry : Bool) (delay : Time) :
    (Store.failOperation env a reason retry delay).Uses Sql.Aside := by
  unfold Store.failOperation
  split
  · trivial
  split
  · exact terminal_aside ..
  split
  · exact terminal_aside ..
  refine (expireOperation_aside ..).bind fun expired => ?_
  split
  · trivial
  split
  · exact ⟨rfl, fun _ => trivial⟩
  · exact terminal_aside ..

/-- A settlement keeps the attempts that there are. -/
theorem settle_knows {a : AttemptRow} {rootId : String} (usage : Option ℤ)
    (found : d.attempts.find? a.attemptId = some a) (known : d.book.running rootId ≠ none) :
    (Store.settle env a rootId usage).Ensures d fun _ d' => d'.Knows a.attemptId := by
  refine (settle_spec usage found known).mono fun _ d' settled => ?_
  rw [Db.Knows, ← Db.book_attempts]
  cases settled with
  | uncharged _ same =>
    rw [same, Db.book_attempts, found]
    exact Option.some_ne_none _
  | charged _ _ charge _ _ after =>
    rw [after, Book.overspend_attempts]
    have put : (d.attempts.put (a.settle charge usage.isNone)).find? a.attemptId =
      some (a.settle charge usage.isNone) := Table.find?_put_self
    exact fun never => Option.some_ne_none _ (put.symm.trans never)

theorem Joins.running {a : Joined} (joins : Joins d a) : d.book.running a.root.rootId ≠ none := by
  rw [joins.rootId, Db.book_running_of_found joins.root]
  exact Option.some_ne_none _

theorem fail_past (reason : String) (notSent retry : Bool) (delay : Time) :
    (Store.fail env reservation reason notSent retry delay).Ensures d fun _ d' =>
      d'.Past reservation.attemptId := by
  unfold Store.fail
  refine Tx.Ensures.bind ((owned_spec reservation).mono ?_)
  rintro a _ ⟨rfl, joins, named, -⟩
  split
  · rename_i ended
    exact Tx.Ensures.ret (past_of_ended joins.attempt named ended)
  · refine ensures_require fun _ => Tx.Ensures.bind ?_
    refine (settle_knows _ joins.attempt joins.running).mono fun _ d₁ known => ?_
    rw [← named]
    refine ensures_retire (fun _ => rfl) known (fun _ => rfl) (fun row => ?_) fun _ =>
      failOperation_aside ..
    cases notSent <;> simp [AttemptRow.Serving, AttemptRow.fail]

/-! ### What a fenced write finds -/

/-- The error is no fence. -/
def NoFence (error : RuntimeError) : Prop := isFence error = false

theorem accept_raises {β : Type} (result : Except Violation β) :
    (Store.accept result).Raises NoFence := by
  cases result with
  | ok => trivial
  | error => exact rfl

theorem require_raises {condition : Bool} {error : RuntimeError} (other : NoFence error) :
    (Store.require condition error).Raises NoFence := by
  cases condition
  · exact other
  · trivial

theorem when_raises {condition : Bool} {body : Transaction Unit} (quiet : body.Raises NoFence) :
    (Store.when condition body).Raises NoFence := by
  cases condition
  · trivial
  · exact quiet

theorem completionEvents_raises (operationId : String) :
    (Store.completionEvents env operationId).Raises NoFence := by
  unfold Store.completionEvents
  simp only [Tx.bind_eq, Tx.stmt_bind]
  intro bindings
  exact Tx.Raises.forEach fun _ _ => trivial

theorem terminal_raises (operationId : String) (state : OperationState) (reason : String) :
    (Store.terminal env operationId state reason).Raises NoFence := by
  unfold Store.terminal
  simp only [Tx.bind_eq, Tx.stmt_bind]
  intro row
  exact completionEvents_raises operationId

theorem expireOperation_raises (spec : OperationSpec) (observedAt : Time) :
    (Store.expireOperation env spec observedAt).Raises NoFence := by
  unfold Store.expireOperation
  split
  · trivial
  · exact (terminal_raises _ _ _).bind fun _ => trivial

theorem failOperation_raises (a : Joined) (reason : String) (retry : Bool) (delay : Time) :
    (Store.failOperation env a reason retry delay).Raises NoFence := by
  unfold Store.failOperation
  split
  · trivial
  split
  · exact terminal_raises _ _ _
  split
  · exact terminal_raises _ _ _
  refine (expireOperation_raises ..).bind fun expired => ?_
  split
  · trivial
  split
  · exact fun _ => trivial
  · exact terminal_raises _ _ _

theorem settleBudget_raises (a : AttemptRow) (rootId : String) (charged : ℤ) :
    (Store.settleBudget a rootId charged).Raises NoFence := by
  unfold Store.settleBudget
  split
  · exact fun result => (accept_raises result).bind fun _ => trivial
  · exact fun result => (accept_raises result).bind fun _ => trivial

/-- A budget that there is can be settled. -/
theorem settleBudget_found {a : AttemptRow} {rootId : String} (charged : ℤ)
    (account : d.book.accounts rootId a.budgetUnit ≠ none) :
    (Store.settleBudget a rootId charged).Ensures d fun budget _ => budget ≠ none := by
  obtain ⟨budget, account⟩ := Option.ne_none_iff_exists'.mp account
  unfold Store.settleBudget
  cases unit : a.budgetUnit with
  | tokens =>
    rw [unit] at account
    obtain ⟨root, found, -⟩ := Option.map_eq_some_iff.mp account
    exact Tx.Ensures.updateChecked_found rfl found rfl (Tx.Ensures.ret (Option.some_ne_none _))
      Tx.Ensures.raise
  | resource name =>
    rw [unit] at account
    obtain ⟨row, found, -⟩ := Option.map_eq_some_iff.mp account
    exact Tx.Ensures.updateChecked_found rfl found rfl (Tx.Ensures.ret (Option.some_ne_none _))
      Tx.Ensures.raise

/-- A settlement of what is accounted for is not fenced. -/
theorem settle_fails {a : AttemptRow} {rootId : String} (usage : Option ℤ)
    (account : a.budgetHeld = true → d.book.accounts rootId a.budgetUnit ≠ none) :
    (Store.settle env a rootId usage).Fails d NoFence := by
  have free {α : Type} {p : Transaction α} {d : Db} (raises : p.Raises NoFence) :
      p.Fails d NoFence := Tx.Fails.of_raises raises fun _ => id
  unfold Store.settle
  split
  · exact Tx.Fails.ret
  rename_i held
  have account := account (by simpa using held)
  simp only [Tx.bind_eq, Tx.stmt_bind]
  refine Tx.Fails.bind (free (require_raises rfl)) fun _ d₁ passed => ?_
  obtain rfl : d₁ = d := by
    unfold Store.require at passed
    split at passed <;> cases passed
    rfl
  refine Tx.Fails.perform (Tx.Fails.bind (free (settleBudget_raises ..)) ?_)
  refine (settleBudget_found _ ?_).mono fun budget d₂ known => ?_
  · -- the row of the attempt is no budget
    change Db.account (RowStore.applyAll (Option.toList _) d₁) rootId a.budgetUnit ≠ none
    cases attempts.target a.attemptId always d₁ d₁ <;> exact account
  cases budget with
  | none => exact (known rfl).elim
  | some budget =>
    refine free (Tx.Raises.bind ?_ fun _ => ?_)
    · exact when_raises fun _ => trivial
    · exact when_raises fun _ => trivial

/-- A write that is fenced although the attempt was not sent has found an attempt that serves no
longer. -/
theorem fail_fenced (valid : d.book.Valid) (holder : d.Holder reservation) (reason : String)
    (retry : Bool) (delay : Time) :
    (Store.fail env reservation reason true retry delay).Fails d fun e =>
      isFence e = true → d.Past reservation.attemptId := by
  have free {α : Type} {p : Transaction α} {d' : Db} (raises : p.Raises NoFence) :
      p.Fails d' fun e => isFence e = true → d.Past reservation.attemptId :=
    Tx.Fails.of_raises raises fun e quiet fence => by cases quiet.symm.trans fence
  unfold Store.fail
  refine Tx.Fails.bind ?_ ((owned_spec reservation).mono ?_)
  · exact fun e failed _ => owned_fails valid holder e failed
  rintro a _ ⟨rfl, joins, named, -⟩
  split
  · exact Tx.Fails.ret
  have charged := valid.accounted.backed a.attempt (Table.mem_of_find? joins.attempt)
  simp only [Bool.or_true, Store.require, if_true, Tx.bind_eq, Tx.stmt_bind, Tx.ret_bind]
  refine Tx.Fails.bind (fun e failed fence => ?_) fun _ _ _ =>
    Tx.Fails.perform (free (failOperation_raises ..))
  have account : a.attempt.budgetHeld = true →
      d.book.accounts a.root.rootId a.attempt.budgetUnit ≠ none := fun held => by
    rw [joins.rootId]
    exact charged held _ (Db.book_task_of_found joins.operation)
  have quiet : NoFence e := settle_fails _ account e failed
  cases quiet.symm.trans fence

/-- Only `_owned` fences such a write. -/
theorem fenced_of_owned {α : Type} {next : Joined → Transaction α} (valid : d.book.Valid)
    (holder : d.Holder reservation) (raises : ∀ a, (next a).Raises NoFence) :
    ((Store.owned reservation).bind next).Fails d fun e =>
      isFence e = true → d.Past reservation.attemptId := by
  refine Tx.Fails.bind (fun e failed _ => owned_fails valid holder e failed) fun a _ _ => ?_
  exact Tx.Fails.of_raises (raises a) fun e quiet fence => by cases quiet.symm.trans fence

theorem computeFinished_fenced (valid : d.book.Valid) (holder : d.Holder reservation) :
    (Store.computeFinished env reservation).Fails d fun e =>
      isFence e = true → d.Past reservation.attemptId := by
  refine fenced_of_owned valid holder fun a => ?_
  split
  · trivial
  · exact fun _ => trivial

theorem unknown_fenced (valid : d.book.Valid) (holder : d.Holder reservation) (reason : String) :
    (Store.unknown env reservation reason).Fails d fun e =>
      isFence e = true → d.Past reservation.attemptId := by
  refine fenced_of_owned valid holder fun a => ?_
  split
  · trivial
  · intro row
    exact (expireOperation_raises _ _).bind fun _ => when_raises fun _ => trivial

end Writes

end IntramindRuntime.Ledger
