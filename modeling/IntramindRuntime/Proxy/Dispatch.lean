import IntramindRuntime.Scheduling.OneShot

/-!
# The dispatcher of an endpoint

One task of the proxy feeds the engine: in each turn it settles again what could not be settled
before, looks after the attempts that wait for their recovery, and offers the waiting requests to
the scheduler, up to eight of them. None of its calls to the scheduler awaits anything, so all this
is one turn of the process; what an exception leaves undone is left for the next turn.

## Main definitions

* `Dispatcher` — what the proxy keeps of an endpoint
* `dispatchOnce` — `_dispatch_once`, up to where it waits
* `Settleable` — the scheduler accepts the settlement of an attempt
* `Serves` — a turn applies all settlements that it can, and offers the waiting requests

## Main results

* `offerEach_offers` — the loop over the waiting requests goes on until one is not granted
* `dispatchOnce_serves_iff` — when a turn serves its endpoint
-/

namespace IntramindRuntime.Proxy

open Library
open Scheduling (DirectRequest DirectReservation MemoryScheduler SchedulerError Clock Code Permit)

/-! ### What the proxy keeps -/

/-- What a future has been given. -/
inductive FutureState
  | waiting
  | granted (reservation : DirectReservation)
  | raised (error : SchedulerError)
  | cancelled
  deriving DecidableEq

/-- `future.done()` -/
def FutureState.done (state : FutureState) : Bool := state ≠ .waiting

/-- A request that waits, or waits again, in `_pending`. -/
structure Pending where
  request : DirectRequest
  future : FutureState := .waiting
  queuedAt : Time
  previousAttemptId : Option String := none
  deriving DecidableEq

instance : Keyed Pending String := ⟨fun entry => entry.request.requestId⟩

/-- A settlement that the scheduler has not accepted yet, in `_settlements`. -/
structure Retained where
  reservation : DirectReservation
  evidence : Scheduling.Evidence
  deriving DecidableEq

instance : Keyed Retained String := ⟨fun retained => retained.reservation.attemptId⟩

/-- A lost attempt whose caller waits for its recovery, in `_recovering`. -/
structure Recovery where
  attemptId : String
  done : Bool := false

instance : Keyed Recovery String := ⟨Recovery.attemptId⟩

/-- The pool as the proxy knows it. -/
structure ProxyPool where
  poolId : String
  profileId : String
  modelRevision : String
  engineEpoch : String
  target : ℕ

/-- A call to the scheduler, and its answer. -/
inductive SchedulerCall
  | finish (reservation : DirectReservation) (evidence : Scheduling.Evidence)
    (answer : Except SchedulerError Unit)
  /-- `reserve`, or `retry_confirmed`. -/
  | reserve (request : DirectRequest) (answer : Except SchedulerError (Option DirectReservation))

/-- What the proxy keeps of an endpoint, and the scheduler that it shares with others. The answers
to its callers and the calls to the scheduler are recorded beside it. -/
structure Dispatcher where
  scheduler : MemoryScheduler
  pool : ProxyPool
  ownerId : String
  settlements : Table Retained := .empty
  pending : Table Pending := .empty
  recovering : Table Recovery := .empty
  /-- What the futures that have left `_pending` have been given. -/
  answers : List (String × FutureState) := []
  /-- Whether the recoveries that have left `_recovering` have been confirmed. -/
  recovered : List (String × Bool) := []
  calls : List SchedulerCall := []

/-- Code of the dispatcher between two awaits. -/
abbrev DispatcherCode (α : Type) := Turn Dispatcher SchedulerError α

/-- A call to the scheduler. -/
def ask {α : Type} (code : Code α) (note : Except SchedulerError α → SchedulerCall) :
    DispatcherCode α := fun d =>
  match code d.scheduler with
  | .ok value s => .ok value { d with scheduler := s, calls := d.calls ++ [note (.ok value)] }
  | .error error s =>
    .error error { d with scheduler := s, calls := d.calls ++ [note (.error error)] }

/-- `_settle` -/
def settle (reservation : DirectReservation) (evidence : Scheduling.Evidence) :
    DispatcherCode Unit := do
  modify fun d => { d with settlements := d.settlements.put ⟨reservation, evidence⟩ }
  ask (Scheduling.finish reservation evidence) (.finish reservation evidence)
  modify fun d => { d with settlements := d.settlements.erase reservation.attemptId }

/-- Settle again what is retained. -/
def settleEach : List Retained → DispatcherCode Unit
  | [] => return ()
  | retained :: rest => do
    settle retained.reservation retained.evidence
    settleEach rest

/-- `_sync_pool_epoch` -/
def Dispatcher.syncPoolEpoch (d : Dispatcher) : Dispatcher :=
  match d.scheduler.pools.find? d.pool.poolId with
  | none => d
  | some current =>
    if current.epoch ≠ d.pool.engineEpoch ∧ current.spec.profileId = d.pool.profileId ∧
        current.spec.modelRevision = d.pool.modelRevision then
      { d with pool := { d.pool with engineEpoch := current.epoch, target := current.target } }
    else d

/-- A recovery that is looked at, with its entry of `recovery_statuses`. -/
def Dispatcher.observe (d : Dispatcher) (recovery : Recovery) : Dispatcher :=
  match d.scheduler.directAttempts.find? recovery.attemptId with
  | none => d
  | some attempt =>
    match d.scheduler.pools.find? attempt.poolId with
    | none => d
    | some pool =>
      let leave (confirmed : Bool) : Dispatcher :=
        { d with
          recovering := d.recovering.erase recovery.attemptId
          recovered := d.recovered ++ [(recovery.attemptId, confirmed)] }
      if recovery.done then d
      else if attempt.state = .failedRecoverable ∧ pool.health = .healthy ∧
          (pool.epoch ≠ attempt.engineEpoch ∨ attempt.idleVerified) then leave true
      else if attempt.state = .failed then leave false
      else d

/-- The request of an entry, with its key in the order of the queue. -/
def Pending.entry (pending : Pending) : Scheduling.Entry :=
  ⟨Scheduling.rank pending.request.workloadClass, pending.queuedAt, pending.request.requestId⟩

/-- The entries that a turn looks at. -/
def Dispatcher.front (d : Dispatcher) : List Pending :=
  (d.pending.rows.insertionSort fun e e' => e.entry.le e'.entry).take 8

/-- An entry leaves `_pending`, unless another has taken its place. -/
def Dispatcher.withdraw (d : Dispatcher) (entry : Pending) : Dispatcher :=
  if d.pending.find? entry.request.requestId = some entry then
    { d with pending := d.pending.erase entry.request.requestId }
  else d

/-- The future of an entry is given its result. -/
def Dispatcher.answer (d : Dispatcher) (entry : Pending) (state : FutureState) : Dispatcher :=
  { d with answers := d.answers ++ [(entry.request.requestId, state)] }

/-- Offer a request to the scheduler. -/
def offer (clock : Clock) (uuid : String) (entry : Pending) :
    DispatcherCode (Option DirectReservation) := do
  let d ← get
  match entry.previousAttemptId with
  | some previous =>
    ask (Scheduling.retryConfirmed clock uuid entry.request d.pool.poolId d.ownerId previous)
      (.reserve entry.request)
  | none =>
    ask (Scheduling.reserve clock uuid entry.request d.pool.poolId d.ownerId none)
      (.reserve entry.request)

/-- The exceptions of an offer that are given to the caller. -/
def refuses : SchedulerError → Bool
  | .admissionDenied _ _ | .conflict _ => true
  | _ => false

section Turns

variable (clock : String → Clock) (uuid : String → String)

/-- The loop over the front of the waiting requests: how many are dispatched. -/
def offerEach : List Pending → DispatcherCode ℕ
  | [] => return 0
  | entry :: rest => do
    if entry.future.done then
      modify fun d => { d with pending := d.pending.erase entry.request.requestId }
      offerEach rest
    else
      let requestId := entry.request.requestId
      match ← (offer (clock requestId) (uuid requestId) entry).attempt with
      | .error error =>
        if refuses error then
          modify fun d => (d.withdraw entry).answer entry (.raised error)
          offerEach rest
        else return 0
      | .ok none => return 0
      | .ok (some reservation) =>
        let d ← get
        if d.pending.find? requestId ≠ some entry then
          settle reservation .notSent
          offerEach rest
        else if reservation.engineEpoch ≠ d.pool.engineEpoch ∧ entry.previousAttemptId = none then
          modify fun d => (d.withdraw entry).answer entry
            (.raised (.conflict "proxy has an older engine epoch"))
          settle reservation .notSent
          offerEach rest
        else
          modify fun d =>
            { d.answer entry (.granted reservation) with
              pool := { d.pool with engineEpoch := reservation.engineEpoch }
              pending := d.pending.erase requestId }
          let dispatched ← offerEach rest
          return dispatched + 1

/-- `_dispatch_once`, up to where it waits. -/
def dispatchOnce : DispatcherCode ℕ := do
  let d ← get
  settleEach d.settlements.rows
  modify Dispatcher.syncPoolEpoch
  modify fun d => d.recovering.rows.foldl Dispatcher.observe d
  let d ← get
  offerEach clock uuid d.front

/-- The calls that a turn makes to the scheduler. -/
def Dispatcher.turnCalls (d : Dispatcher) : List SchedulerCall :=
  ((dispatchOnce clock uuid).final { d with calls := [] }).calls

end Turns

/-! ### What a turn is for -/

/-- The scheduler accepts a settlement: it knows the attempt, and the attempt has been sent if it is
said to have completed. -/
def Settleable (s : MemoryScheduler) (retained : Retained) : Prop :=
  ∃ attempt, s.directAttempts.find? retained.reservation.attemptId = some attempt ∧
    attempt.reservation = some retained.reservation ∧
    ¬ (retained.evidence = .completedResponse ∧ attempt.state = .reserved)

/-- The settlement of an attempt is applied. -/
def Retained.applied (retained : Retained) : SchedulerCall :=
  .finish retained.reservation retained.evidence (.ok ())

/-- The waiting requests that a turn looks at. -/
def Dispatcher.waiting (d : Dispatcher) : List Pending :=
  d.front.filter fun entry => !entry.future.done

/-- The scheduler has nothing to grant, or fails. -/
def stops : Except SchedulerError (Option DirectReservation) → Bool
  | .ok answer => answer.isNone
  | .error error => !refuses error

/-- The calls offer requests one after another, until one is not granted for want of capacity. -/
inductive Offers : List Pending → List SchedulerCall → Prop
  | nil : Offers [] []
  | settled {waiting : List Pending} {calls : List SchedulerCall}
    (reservation : DirectReservation) (evidence : Scheduling.Evidence)
    (answer : Except SchedulerError Unit) (later : Offers waiting calls) :
    Offers waiting (.finish reservation evidence answer :: calls)
  | stopped (entry : Pending) (rest : List Pending)
    {answer : Except SchedulerError (Option DirectReservation)} (last : stops answer = true) :
    Offers (entry :: rest) [.reserve entry.request answer]
  | goes (entry : Pending) {rest : List Pending} {calls : List SchedulerCall}
    {answer : Except SchedulerError (Option DirectReservation)} (on : stops answer = false)
    (later : Offers rest calls) : Offers (entry :: rest) (.reserve entry.request answer :: calls)

/-- The calls apply all settlements that the scheduler accepts, and offer the waiting requests. -/
structure Serves (d : Dispatcher) (calls : List SchedulerCall) : Prop where
  settles : ∀ retained ∈ d.settlements.rows, Settleable d.scheduler retained →
    retained.applied ∈ calls
  offers : Offers d.waiting calls

/-! ### Settlements -/

section Settlements

variable {d : Dispatcher} {s : MemoryScheduler} {retained : Retained}

theorem ask_ensures {α : Type} {code : Code α} {note : Except SchedulerError α → SchedulerCall}
    {post : Except SchedulerError α → Dispatcher → Prop} :
    (ask code note).Ensures d post ↔ code.Ensures d.scheduler fun outcome s =>
      post outcome { d with scheduler := s, calls := d.calls ++ [note outcome] } := by
  simp only [Turn.Ensures, Turn.outcome, Turn.final, ask]
  cases code d.scheduler <;> rfl

/-- The scheduler accepts a settlement and leaves the other attempts alone, or it raises and
changes nothing. -/
theorem finish_cases (s : MemoryScheduler) (retained : Retained) :
    (Scheduling.finish retained.reservation retained.evidence).Ensures s fun outcome s' =>
      Settleable s retained ∧ outcome = .ok () ∧ (∀ a, retained.reservation.attemptId ≠ a →
          s'.directAttempts.find? a = s.directAttempts.find? a) ∨
        ¬ Settleable s retained ∧ ∃ error, outcome = .error error := by
  unfold Scheduling.finish Scheduling.direct
  refine Turn.ensures_bind.mpr (Turn.ensures_bind.mpr (Turn.ensures_get.mpr ?_))
  dsimp only
  split
  · rename_i absent
    refine .inr ⟨?_, _, rfl⟩
    rintro ⟨attempt, found, -⟩
    rw [absent] at found
    cases found
  · rename_i attempt found
    have only {other : Permit}
        (found' : s.directAttempts.find? retained.reservation.attemptId = some other) :
        attempt = other := Option.some.inj (found.symm.trans found')
    split
    · rename_i mine
      have named : attempt.attemptId = retained.reservation.attemptId := Table.key_of_find? found
      refine Turn.ensures_pure.mpr (Turn.ensures_bind.mpr (Turn.ensures_get.mpr ?_))
      dsimp only
      split
      · rename_i early
        refine .inr ⟨?_, _, rfl⟩
        rintro ⟨other, found', -, sent⟩
        obtain rfl := only found'
        exact sent early
      · rename_i sent
        have able : Settleable s retained := ⟨attempt, found, mine, sent⟩
        split
        · exact .inl ⟨able, rfl, fun _ _ => rfl⟩
        · refine .inl ⟨able, rfl, fun a apart => ?_⟩
          refine Eq.trans (Table.find?_modify ?_) (if_neg ?_)
          · exact fun _ => rfl
          · rwa [named]
    · rename_i other
      refine .inr ⟨?_, _, rfl⟩
      rintro ⟨attempt', found', mine, -⟩
      obtain rfl := only found'
      exact other mine

/-- What a settlement leaves: it has been tried, and nothing waits less. -/
theorem settle_cases (d : Dispatcher) (retained : Retained) :
    (settle retained.reservation retained.evidence).Ensures d fun outcome d' =>
      d'.pending = d.pending ∧
      (Settleable d.scheduler retained ∧ outcome = .ok () ∧
          d'.calls = d.calls ++ [retained.applied] ∧
          (∀ a, retained.reservation.attemptId ≠ a →
            d'.scheduler.directAttempts.find? a = d.scheduler.directAttempts.find? a) ∨
        ¬ Settleable d.scheduler retained ∧ ∃ error, outcome = .error error ∧
          d'.calls = d.calls ++
            [.finish retained.reservation retained.evidence (.error error)]) := by
  unfold settle
  refine Turn.ensures_bind.mpr (Turn.ensures_modify.mpr (Turn.ensures_bind.mpr ?_))
  refine ask_ensures.mpr ((finish_cases d.scheduler retained).mono fun outcome s => ?_)
  rintro (⟨able, rfl, apart⟩ | ⟨unable, error, rfl⟩)
  · exact ⟨rfl, .inl ⟨able, rfl, rfl, apart⟩⟩
  · exact ⟨rfl, .inr ⟨unable, error, rfl, rfl⟩⟩

/-- Whether an attempt can be settled depends on this attempt only. -/
theorem settleable_congr {s' : MemoryScheduler}
    (same : s'.directAttempts.find? retained.reservation.attemptId =
      s.directAttempts.find? retained.reservation.attemptId) :
    Settleable s' retained ↔ Settleable s retained := by
  rw [Settleable, Settleable, same]

/-- All settlements that come before the first one that the scheduler does not accept are
applied. -/
theorem settleEach_cases {items : List Retained} (distinct : (items.map Keyed.key).Nodup)
    (d : Dispatcher) :
    (settleEach items).Ensures d fun outcome d' =>
      d'.pending = d.pending ∧
      ((∀ retained ∈ items, Settleable d.scheduler retained) ∧ outcome = .ok () ∧
          d'.calls = d.calls ++ items.map Retained.applied ∨
        ∃ good bad rest, items = good ++ bad :: rest ∧
          (∀ retained ∈ good, Settleable d.scheduler retained) ∧ ¬ Settleable d.scheduler bad ∧
          ∃ error, outcome = .error error ∧ d'.calls = d.calls ++ (good.map Retained.applied ++
            [.finish bad.reservation bad.evidence (.error error)])) := by
  induction items generalizing d with
  | nil => exact ⟨rfl, .inl ⟨List.forall_mem_nil _, rfl, (List.append_nil _).symm⟩⟩
  | cons retained rest ih =>
    rw [List.map_cons, List.nodup_cons] at distinct
    refine Turn.ensures_bind.mpr ((settle_cases d retained).mono fun outcome d₁ => ?_)
    rintro ⟨pending, ⟨able, rfl, calls, apart⟩ | ⟨unable, error, rfl, calls⟩⟩
    · have same (other : Retained) (member : other ∈ rest) :
          Settleable d₁.scheduler other ↔ Settleable d.scheduler other := by
        refine settleable_congr (apart _ fun equal => distinct.1 ?_)
        exact List.mem_map.mpr ⟨other, member, equal.symm⟩
      refine (ih distinct.2 d₁).mono fun outcome d₂ => ?_
      rintro ⟨pending', ⟨all, rfl, calls'⟩ | ⟨good, bad, later, rfl, all, unable, error, rfl,
        calls'⟩⟩
      · refine ⟨pending'.trans pending, .inl ⟨?_, rfl, ?_⟩⟩
        · exact List.forall_mem_cons.mpr ⟨able, fun other member =>
            (same other member).mp (all other member)⟩
        · rw [calls', calls, List.append_assoc, List.map_cons]
          rfl
      · refine ⟨pending'.trans pending, .inr ⟨retained :: good, bad, later, rfl, ?_, ?_, error, rfl,
          ?_⟩⟩
        · exact List.forall_mem_cons.mpr ⟨able, fun other member =>
            (same other (List.mem_append_left _ member)).mp (all other member)⟩
        · exact fun able' => unable ((same bad
            (List.mem_append_right _ List.mem_cons_self)).mpr able')
        · rw [calls', calls, List.append_assoc, List.map_cons]
          rfl
    · exact ⟨pending, .inr ⟨[], retained, rest, rfl, List.forall_mem_nil _, unable, error, rfl, calls⟩⟩

end Settlements

/-! ### Offers -/

section Offering

variable {clock : String → Clock} {uuid : String → String}

/-- A request is offered. If it is granted, its attempt can be settled as not sent. -/
theorem offer_cases (clock : Clock) (uuid : String) (entry : Pending) (d : Dispatcher) :
    (offer clock uuid entry).Ensures d fun outcome d' =>
      d'.calls = d.calls ++ [.reserve entry.request outcome] ∧
        ∀ reservation, outcome = .ok (some reservation) →
          Settleable d'.scheduler ⟨reservation, .notSent⟩ := by
  have granted (previous : Option String) :
      (Scheduling.reserve clock uuid entry.request d.pool.poolId d.ownerId previous).Ensures
        d.scheduler fun outcome s => ∀ reservation, outcome = .ok (some reservation) →
          Settleable s ⟨reservation, .notSent⟩ := by
    refine (Scheduling.reserve_scans clock uuid entry.request _ _ previous).mono ?_
    rintro outcome s ⟨t, -, ⟨-, refused⟩ | ⟨reservation, rfl, rfl, -⟩⟩ reservation' same
    · exact absurd same (refused reservation')
    · cases same
      refine ⟨reservation.permit, ?_, rfl, nofun⟩
      rw [Scheduling.grant_directAttempts]
      exact Table.find?_put_self
  unfold offer
  refine Turn.ensures_bind.mpr (Turn.ensures_get.mpr ?_)
  dsimp only
  split
  · exact ask_ensures.mpr ((granted _).mono fun outcome s able => ⟨rfl, able⟩)
  · exact ask_ensures.mpr ((granted _).mono fun outcome s able => ⟨rfl, able⟩)

section Withdraw

variable (d : Dispatcher) (entry : Pending) (state : FutureState)

theorem answer_calls : (d.answer entry state).calls = d.calls := rfl

theorem answer_scheduler : (d.answer entry state).scheduler = d.scheduler := rfl

theorem withdraw_calls : (d.withdraw entry).calls = d.calls := by
  unfold Dispatcher.withdraw
  split <;> rfl

theorem withdraw_scheduler : (d.withdraw entry).scheduler = d.scheduler := by
  unfold Dispatcher.withdraw
  split <;> rfl

end Withdraw

/-- The loop offers the waiting requests until one is not granted. -/
theorem offerEach_offers (items : List Pending) (d : Dispatcher) :
    (offerEach clock uuid items).Ensures d fun _ d' =>
      ∃ calls, d'.calls = d.calls ++ calls ∧
        Offers (items.filter fun entry => !entry.future.done) calls := by
  induction items generalizing d with
  | nil => exact ⟨[], (List.append_nil _).symm, .nil⟩
  | cons entry rest ih =>
    unfold offerEach
    split
    · rename_i done
      rw [List.filter_cons_of_neg (by simp [done])]
      exact ih _
    · rename_i waits
      rw [List.filter_cons_of_pos (by simp [waits])]
      refine Turn.ensures_attempt_bind.mpr ?_
      obtain ⟨calls, able⟩ := offer_cases (clock entry.request.requestId)
        (uuid entry.request.requestId) entry d
      generalize (offer (clock entry.request.requestId) (uuid entry.request.requestId)
        entry).outcome d = outcome at calls able ⊢
      generalize (offer (clock entry.request.requestId) (uuid entry.request.requestId)
        entry).final d = d₁ at calls able ⊢
      -- the loop goes on behind the offer
      have further {d₂ : Dispatcher} (same : d₂.calls = d₁.calls)
          (on : stops outcome = false) :
          (offerEach clock uuid rest).Ensures d₂ fun _ d' => ∃ calls,
            d'.calls = d.calls ++ calls ∧
              Offers (entry :: rest.filter fun entry => !entry.future.done) calls := by
        refine (ih d₂).mono ?_
        rintro _ d' ⟨later, calls', offers⟩
        refine ⟨_ :: later, ?_, .goes entry on offers⟩
        rw [calls', same, calls, List.append_assoc]
        rfl
      -- an attempt that nobody takes is settled, and the loop goes on
      have unwanted {d₂ : Dispatcher} {reservation : DirectReservation}
          (is : outcome = .ok (some reservation)) (same : d₂.calls = d₁.calls)
          (same' : d₂.scheduler = d₁.scheduler) :
          (settle reservation .notSent >>= fun _ => offerEach clock uuid rest).Ensures d₂
            fun _ d' => ∃ calls, d'.calls = d.calls ++ calls ∧
              Offers (entry :: rest.filter fun entry => !entry.future.done) calls := by
        refine Turn.ensures_bind.mpr ((settle_cases d₂ ⟨reservation, .notSent⟩).mono ?_)
        rintro _ d₃ ⟨-, ⟨-, rfl, calls', -⟩ | ⟨unable, -⟩⟩
        · refine (ih d₃).mono ?_
          rintro _ d' ⟨later, calls'', offers⟩
          refine ⟨.reserve entry.request outcome :: .finish reservation .notSent (.ok ()) :: later, ?_,
            .goes entry ?_ (.settled _ _ _ offers)⟩
          · rw [calls'', calls', same, calls, List.append_assoc, List.append_assoc]
            rfl
          · rw [is]
            rfl
        · rw [same'] at unable
          exact absurd (able reservation is) unable
      cases outcome with
      | error error =>
        dsimp only
        split
        · rename_i refuses
          refine Turn.ensures_bind.mpr (Turn.ensures_modify.mpr (further ?_ ?_))
          · rw [answer_calls, withdraw_calls]
          · rw [stops, refuses]
            rfl
        · rename_i fails
          refine ⟨_, calls, .stopped entry _ ?_⟩
          rw [stops, Bool.eq_false_iff.mpr fails]
          rfl
      | ok answer =>
        cases answer with
        | none => exact ⟨_, calls, .stopped entry _ rfl⟩
        | some reservation =>
          refine Turn.ensures_bind.mpr (Turn.ensures_get.mpr ?_)
          dsimp only
          split
          · exact unwanted rfl rfl rfl
          · split
            · refine Turn.ensures_bind.mpr (Turn.ensures_modify.mpr (unwanted rfl ?_ ?_))
              · rw [answer_calls, withdraw_calls]
              · rw [answer_scheduler, withdraw_scheduler]
            · refine Turn.ensures_bind.mpr (Turn.ensures_modify.mpr (Turn.ensures_bind.mpr ?_))
              refine Turn.Ensures.mono (further ?_ rfl) ?_
              · rfl
              · rintro (error | dispatched) d' served
                · exact served
                · exact served

/-- What a turn does first leaves the waiting requests alone. -/
theorem observe_same (d : Dispatcher) (recovery : Recovery) :
    (d.observe recovery).pending = d.pending ∧ (d.observe recovery).calls = d.calls := by
  unfold Dispatcher.observe
  split
  · exact ⟨rfl, rfl⟩
  · split
    · exact ⟨rfl, rfl⟩
    · dsimp only
      split_ifs <;> exact ⟨rfl, rfl⟩

theorem observeEach_same (recoveries : List Recovery) (d : Dispatcher) :
    (recoveries.foldl Dispatcher.observe d).pending = d.pending ∧
      (recoveries.foldl Dispatcher.observe d).calls = d.calls := by
  induction recoveries generalizing d with
  | nil => exact ⟨rfl, rfl⟩
  | cons recovery rest ih =>
    obtain ⟨pending, calls⟩ := observe_same d recovery
    obtain ⟨pending', calls'⟩ := ih (d.observe recovery)
    exact ⟨pending'.trans pending, calls'.trans calls⟩

theorem syncPoolEpoch_same (d : Dispatcher) :
    d.syncPoolEpoch.pending = d.pending ∧ d.syncPoolEpoch.calls = d.calls := by
  unfold Dispatcher.syncPoolEpoch
  split
  · exact ⟨rfl, rfl⟩
  · split <;> exact ⟨rfl, rfl⟩

/-- What the calls of a turn are: all settlements are applied and the waiting requests are offered,
or the turn ends at the first settlement that the scheduler does not accept. -/
theorem turnCalls_cases (clock : String → Clock) (uuid : String → String) (d : Dispatcher) :
    (∃ offered, d.turnCalls clock uuid =
        d.settlements.rows.map Retained.applied ++ offered ∧ Offers d.waiting offered ∧
        ∀ retained ∈ d.settlements.rows, Settleable d.scheduler retained) ∨
      ∃ good bad rest error, d.settlements.rows = good ++ bad :: rest ∧
        (∀ retained ∈ good, Settleable d.scheduler retained) ∧ ¬ Settleable d.scheduler bad ∧
        d.turnCalls clock uuid = good.map Retained.applied ++
          [.finish bad.reservation bad.evidence (.error error)] := by
  have whole : (dispatchOnce clock uuid).Ensures { d with calls := [] } fun _ d' =>
      (∃ offered, d'.calls = d.settlements.rows.map Retained.applied ++ offered ∧
        Offers d.waiting offered ∧
        ∀ retained ∈ d.settlements.rows, Settleable d.scheduler retained) ∨
      ∃ good bad rest error, d.settlements.rows = good ++ bad :: rest ∧
        (∀ retained ∈ good, Settleable d.scheduler retained) ∧ ¬ Settleable d.scheduler bad ∧
        d'.calls = good.map Retained.applied ++
          [.finish bad.reservation bad.evidence (.error error)] := by
    unfold dispatchOnce
    refine Turn.ensures_bind.mpr (Turn.ensures_get.mpr (Turn.ensures_bind.mpr ?_))
    refine (settleEach_cases d.settlements.nodup { d with calls := [] }).mono fun outcome d₁ => ?_
    rintro ⟨pending, ⟨all, rfl, calls⟩ | ⟨good, bad, rest, split, all, unable, error, rfl, calls⟩⟩
    · refine Turn.ensures_bind.mpr (Turn.ensures_modify.mpr ?_)
      refine Turn.ensures_bind.mpr (Turn.ensures_modify.mpr ?_)
      refine Turn.ensures_bind.mpr (Turn.ensures_get.mpr ?_)
      obtain ⟨pending₁, calls₁⟩ := syncPoolEpoch_same d₁
      obtain ⟨pending₂, calls₂⟩ :=
        observeEach_same d₁.syncPoolEpoch.recovering.rows d₁.syncPoolEpoch
      refine (offerEach_offers _ _).mono ?_
      rintro _ d' ⟨offered, calls₃, offers⟩
      refine .inl ⟨offered, ?_, ?_, all⟩
      · rw [calls₃, calls₂, calls₁, calls]
        rfl
      · rw [Dispatcher.front, pending₂, pending₁, pending] at offers
        exact offers
    · exact .inr ⟨good, bad, rest, error, split, all, unable, calls⟩
  exact whole

end Offering

/-! ### Turns that serve their endpoint -/

theorem Offers.prepend {waiting : List Pending} {calls : List SchedulerCall}
    (offers : Offers waiting calls) (applied : List Retained) :
    Offers waiting (applied.map Retained.applied ++ calls) := by
  induction applied with
  | nil => exact offers
  | cons retained rest ih => exact .settled _ _ _ ih

/-- Settlements alone offer nothing. -/
theorem offers_nothing {waiting : List Pending} {applied : List Retained}
    {reservation : DirectReservation} {evidence : Scheduling.Evidence}
    {answer : Except SchedulerError Unit} (offers : Offers waiting
      (applied.map Retained.applied ++ [.finish reservation evidence answer])) :
    waiting = [] := by
  induction applied with
  | nil =>
    cases offers with
    | settled _ _ _ later =>
      cases later
      rfl
  | cons retained rest ih =>
    cases offers with
    | settled _ _ _ later => exact ih later

/-- A turn serves its endpoint exactly if the scheduler accepts all retained settlements; or if no
request waits, and those that it does not accept have been retained behind all others. -/
theorem dispatchOnce_serves_iff (clock : String → Clock) (uuid : String → String)
    (d : Dispatcher) :
    Serves d (d.turnCalls clock uuid) ↔
      (∀ retained ∈ d.settlements.rows, Settleable d.scheduler retained) ∨
        d.waiting = [] ∧ ∃ good bad, d.settlements.rows = good ++ bad ∧
          (∀ retained ∈ good, Settleable d.scheduler retained) ∧
          ∀ retained ∈ bad, ¬ Settleable d.scheduler retained := by
  have applied_inj {retained other : Retained} (same : retained.applied = other.applied) :
      retained = other := by
    obtain ⟨reservation, evidence⟩ := retained
    obtain ⟨rfl, rfl, -⟩ := SchedulerCall.finish.inj same
    rfl
  constructor
  · intro serves
    rcases turnCalls_cases clock uuid d with
      ⟨offered, -, -, all⟩ | ⟨good, bad, rest, error, split, all, unable, calls⟩
    · exact .inl all
    · rw [calls] at serves
      refine .inr ⟨?_, good, bad :: rest, split, all, ?_⟩
      · exact offers_nothing serves.offers
      · refine List.forall_mem_cons.mpr ⟨unable, fun retained member able => ?_⟩
        have inside : retained ∈ d.settlements.rows :=
          split ▸ List.mem_append_right _ (List.mem_cons_of_mem _ member)
        rcases List.mem_append.mp (serves.settles retained inside able) with before | last
        · -- it would have been retained twice
          obtain ⟨other, there, same⟩ := List.mem_map.mp before
          obtain rfl := applied_inj same
          have distinct := d.settlements.nodup.of_map
          rw [split] at distinct
          exact List.disjoint_of_nodup_append distinct there (List.mem_cons_of_mem _ member)
        · exact nomatch (SchedulerCall.finish.inj (List.mem_singleton.mp last)).2.2
  · intro fits
    rcases turnCalls_cases clock uuid d with
      ⟨offered, calls, offers, all⟩ | ⟨good, bad, rest, error, split, all, unable, calls⟩
    · rw [calls]
      refine ⟨fun retained member _ => ?_, offers.prepend _⟩
      exact List.mem_append_left _ (List.mem_map_of_mem member)
    · have inside : bad ∈ d.settlements.rows :=
        split ▸ List.mem_append_right _ List.mem_cons_self
      obtain ⟨nobody, before, behind, split', able, none⟩ :=
        fits.resolve_left fun every => unable (every bad inside)
      -- those that cannot be settled begin with the first one
      have others (retained : Retained) (member : retained ∈ bad :: rest) :
          ¬ Settleable d.scheduler retained := by
        refine none retained ?_
        rcases List.append_eq_append_iff.mp (split.symm.trans split') with
          ⟨more, rfl, front⟩ | ⟨more, -, rfl⟩
        · cases more with
          | nil =>
            rw [List.nil_append] at front
            exact front ▸ member
          | cons first more =>
            obtain rfl := (List.cons.inj front).1
            exact absurd (able bad (List.mem_append_right _ List.mem_cons_self)) unable
        · exact List.mem_append_right _ member
      rw [calls]
      refine ⟨fun retained member able => ?_, ?_⟩
      · rw [split] at member
        rcases List.mem_append.mp member with before | after
        · exact List.mem_append_left _ (List.mem_map_of_mem before)
        · exact absurd able (others retained after)
      · rw [nobody]
        exact Offers.prepend (.settled _ _ _ .nil) _

/-- A request that has two hours. -/
def longRequest (requestId : String) : DirectRequest :=
  { Scheduling.sampleRequest requestId with deadline := 7200000000 }

/-- An attempt of it. -/
def longReservation : DirectReservation := ⟨"a", longRequest "r", "p", "e", "proxy", 0⟩

/-- A request is sent, the pool is read with another epoch, and an hour after it has joined the
queue the request is forgotten together with its attempt. Then another request joins the queue. -/
def forgottenRun : List Scheduling.Event :=
  [.direct ⟨0, 0⟩ "" (.enqueue (longRequest "r") "p" "proxy"),
    .direct ⟨1, 1⟩ "a" (.reserve (longRequest "r") "p" "proxy"),
    .direct ⟨1, 1⟩ "" (.markSend longReservation),
    .maintain ⟨3600000000, 3600000000⟩ .ticked,
    .maintain ⟨3600000001, 3600000001⟩
      (.refreshed [{ Scheduling.samplePool with epoch := "e2" }] []),
    .direct ⟨3600000002, 3600000002⟩ "" (.enqueue (longRequest "r2") "p" "proxy")]

/-- The attempt has got its answer by now, and is retained. -/
def stuckDispatcher : Dispatcher where
  scheduler := (Scheduling.sampleProcess.after forgottenRun).scheduler
  pool := ⟨"p", "profile", "r1", "e2", 1⟩
  ownerId := "proxy"
  settlements := Table.empty.put ⟨longReservation, .completedResponse⟩
  pending := Table.empty.put { request := longRequest "r2", queuedAt := 3600000002 }

/-- The scheduler would grant the waiting request, but it is not offered. -/
theorem dispatchOnce_stuck :
    (∃ reservation, (Scheduling.reserve ⟨3600000003, 3600000003⟩ "b" (longRequest "r2") "p" "proxy"
        none).outcome stuckDispatcher.scheduler = .ok (some reservation)) ∧
      ¬ Serves stuckDispatcher
        (stuckDispatcher.turnCalls (fun _ => ⟨3600000003, 3600000003⟩) fun _ => "b") := by
  have forgotten : stuckDispatcher.scheduler.directAttempts.find? "a" = none := by decide +kernel
  have waits : stuckDispatcher.waiting ≠ [] := by decide +kernel
  refine ⟨⟨⟨"b", longRequest "r2", "p", "e2", "proxy", 0⟩, by decide +kernel⟩, fun serves => ?_⟩
  rcases turnCalls_cases (fun _ => ⟨3600000003, 3600000003⟩) (fun _ => "b") stuckDispatcher with
    ⟨-, -, -, all⟩ | ⟨good, bad, rest, error, -, -, -, calls⟩
  · obtain ⟨attempt, found, -⟩ := all ⟨longReservation, .completedResponse⟩ (by decide +kernel)
    exact absurd (forgotten.symm.trans found) nofun
  · have offers := serves.offers
    rw [calls] at offers
    exact waits (offers_nothing offers)

end IntramindRuntime.Proxy
