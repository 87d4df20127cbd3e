import IntramindRuntime.Scheduling.Moves

/-!
# One live attempt per request

A request that was accepted is refused until its attempt is proven to have ended. The
check looks at the identity, which is remembered for a while, and at the latest
attempt, which is the first of those with the highest generation. Both can miss a
live attempt: the identity is forgotten (by its age, or by a refused `try_reserve`),
or an older attempt of the same generation is found first. As long as neither
happens, there is at most one live attempt for each request.

## Main definitions

* `MemoryScheduler.Noticed` — the check of `_enqueue` notices a live attempt
* `OneLive` — the invariant

## Main results

* `Move.oneLive` — moves keep the invariant
* `Process.one_live_attempt` — so do sequences of turns whose requests are noticed
* `one_live_attempt_fails` — three turns of one request grant it twice
-/

namespace IntramindRuntime.Scheduling

open Library Relation

/-- If the request has a live attempt, its identity is remembered and the latest attempt
of the request is not one that can be repeated. -/
def MemoryScheduler.Noticed (s : MemoryScheduler) (requestId : String) : Prop :=
  ∀ attempt ∈ s.directAttempts.rows, attempt.requestId = some requestId → attempt.state.live →
    s.requestIdentity.find? requestId ≠ none ∧
      ∃ latest ∈ s.latest requestId, latest.state.retryable = false

instance (s : MemoryScheduler) (requestId : String) : Decidable (s.Noticed requestId) := by
  unfold MemoryScheduler.Noticed
  infer_instance

/-- No request waits while it has a live attempt, or has two of them; and direct attempts
with a permit are live. -/
structure OneLive (s : MemoryScheduler) : Prop where
  alone : ∀ id attempt requestId, s.directAttempts.find? id = some attempt →
    attempt.state.live = true → attempt.requestId = some requestId →
    s.waiters.find? requestId = none
  unique : ∀ id id' attempt attempt', s.directAttempts.find? id = some attempt →
    s.directAttempts.find? id' = some attempt' → attempt.state.live = true →
    attempt'.state.live = true → attempt.requestId = attempt'.requestId →
    attempt.requestId ≠ none → id = id'
  live : ∀ id attempt, s.directAttempts.find? id = some attempt → s.permits.find? id ≠ none →
    attempt.state.live = true

variable {s s' : MemoryScheduler}

theorem OneLive.of_empty (attempts : s.directAttempts.rows = []) : OneLive s := by
  have absent (id : String) : s.directAttempts.find? id = none := by
    rw [Table.find?, attempts]
    rfl
  constructor
  · intro id attempt requestId found
    rw [absent] at found
    cases found
  · intro id id' attempt attempt' found
    rw [absent] at found
    cases found
  · intro id attempt found
    rw [absent] at found
    cases found

/-- The invariant survives when waiters leave, and attempts leave or end. -/
theorem OneLive.of_follows (one : OneLive s)
    (attempts : ∀ id attempt', s'.directAttempts.find? id = some attempt' →
      ∃ attempt, s.directAttempts.find? id = some attempt ∧
        attempt'.requestId = attempt.requestId ∧
        (attempt'.state.live = true → attempt.state.live = true))
    (waiters : ∀ identity, s.waiters.find? identity = none → s'.waiters.find? identity = none)
    (live : ∀ id attempt, s'.directAttempts.find? id = some attempt →
      s'.permits.find? id ≠ none → attempt.state.live = true) : OneLive s' := by
  refine ⟨fun id attempt' requestId found' live' named' => ?_, ?_, live⟩
  · obtain ⟨attempt, found, same, was⟩ := attempts id attempt' found'
    exact waiters requestId (one.alone id attempt requestId found (was live') (same ▸ named'))
  · intro id id' attempt₁ attempt₂ found₁ found₂ live₁ live₂ same some
    obtain ⟨old₁, old_found₁, same₁, was₁⟩ := attempts id attempt₁ found₁
    obtain ⟨old₂, old_found₂, same₂, was₂⟩ := attempts id' attempt₂ found₂
    refine one.unique id id' old₁ old₂ old_found₁ old_found₂ (was₁ live₁) (was₂ live₂) ?_ ?_
    · rw [← same₁, ← same₂, same]
    · rwa [← same₁]

/-- The invariant only looks at waiters, direct attempts, and which permits there are. -/
theorem OneLive.of_fewer (one : OneLive s)
    (attempts : ∀ id attempt, s'.directAttempts.find? id = some attempt →
      s.directAttempts.find? id = some attempt)
    (waiters : ∀ identity, s.waiters.find? identity = none → s'.waiters.find? identity = none)
    (permits : ∀ id, s.permits.find? id = none → s'.permits.find? id = none) : OneLive s' :=
  one.of_follows (fun id attempt found => ⟨attempt, attempts id attempt found, rfl, fun h => h⟩)
    waiters fun id attempt found held =>
      one.live id attempt (attempts id attempt found) fun absent => held (permits id absent)

/-- A request that joins the queue without a live attempt. -/
theorem OneLive.admitted (one : OneLive s) {request : DirectRequest} {ownerId : String}
    (noticed : s.Noticed request.requestId) (guard : s.MayAdmit request ownerId) (clock : Clock)
    (poolId owner : String) : OneLive (s.admitted clock request poolId owner) := by
  -- the guard and a noticed live attempt exclude each other
  have ended : ∀ id attempt, s.directAttempts.find? id = some attempt →
      attempt.state.live = true → attempt.requestId ≠ some request.requestId := by
    intro id attempt found live named
    obtain ⟨remembered, latest, here, final⟩ :=
      noticed attempt (Table.mem_of_find? found) named live
    unfold MemoryScheduler.MayAdmit at guard
    split at guard
    · rename_i forgotten
      exact remembered forgotten
    · have retryable := guard.2.2.2 latest here
      rw [final] at retryable
      cases retryable
  refine ⟨fun id attempt requestId found live named => ?_, one.unique, one.live⟩
  have other : request.requestId ≠ requestId := fun same =>
    ended id attempt found live (same ▸ named)
  have waits := one.alone id attempt requestId found live named
  simpa [MemoryScheduler.admitted, MemoryScheduler.addWaiter, MemoryScheduler.remember,
    Keyed.key, other] using waits

theorem OneLive.grant (one : OneLive s) {waiter : Waiter} {reservation : DirectReservation}
    (waits : s.waiters.find? reservation.request.requestId = some waiter) :
    OneLive (s.grant reservation) := by
  have named : reservation.permit.requestId = some reservation.request.requestId := rfl
  -- a waiting request has no live attempt yet
  have ended : ∀ id attempt, s.directAttempts.find? id = some attempt →
      attempt.state.live = true → attempt.requestId ≠ some reservation.request.requestId := by
    intro id attempt found live same
    rw [one.alone id attempt _ found live same] at waits
    cases waits
  have cases_of {id : String} {attempt : Permit}
      (found : (s.grant reservation).directAttempts.find? id = some attempt) :
      (id = reservation.attemptId ∧ attempt = reservation.permit) ∨
        (id ≠ reservation.attemptId ∧ s.directAttempts.find? id = some attempt) := by
    rw [grant_directAttempts, Table.find?_put] at found
    split at found
    · rename_i same
      exact Or.inl ⟨same.symm, (Option.some.inj found).symm⟩
    · rename_i other
      exact Or.inr ⟨fun same => other same.symm, found⟩
  refine ⟨fun id attempt requestId found live here => ?_, ?_, fun id attempt found held => ?_⟩
  · rw [grant_waiters, find?_removeWaiter]
    rcases cases_of found with ⟨-, rfl⟩ | ⟨-, old⟩
    · rw [named, Option.some.injEq] at here
      rw [if_pos here]
    · split
      · rfl
      · exact one.alone id attempt requestId old live here
  · intro id id' attempt attempt' found found' live live' same some
    rcases cases_of found with ⟨rfl, rfl⟩ | ⟨-, old⟩
    · rcases cases_of found' with ⟨rfl, -⟩ | ⟨-, old'⟩
      · rfl
      · exact absurd (same.symm.trans named) (ended id' attempt' old' live')
    · rcases cases_of found' with ⟨rfl, rfl⟩ | ⟨-, old'⟩
      · exact absurd (same.trans named) (ended id attempt old live)
      · exact one.unique id id' attempt attempt' old old' live live' same some
  · rcases cases_of found with ⟨-, rfl⟩ | ⟨other, old⟩
    · rfl
    · refine one.live id attempt old fun absent => held ?_
      rw [grant_permits, Table.find?_put_of_ne fun same => other same.symm]
      exact absent

/-- Moves of direct calls and of the maintenance loop keep the invariant. -/
theorem Move.oneLive {scope : Scope} (move : Move scope s s') (off : scope.durable = false)
    (one : OneLive s) : OneLive s' := by
  cases move with
  | quiet same =>
    refine one.of_fewer (fun id attempt found => ?_) (fun identity absent => ?_)
      fun id absent => ?_
    · rwa [same.directAttempts] at found
    · rwa [same.waiters]
    · rwa [same.permits]
  | withdraw identity =>
    refine one.of_fewer (fun id attempt found => ?_) (fun other absent => ?_) fun id absent => ?_
    · rwa [removeWaiter_directAttempts] at found
    · rw [find?_removeWaiter, absent, ite_self]
    · rwa [removeWaiter_permits]
  | prune queues =>
    exact one.of_fewer (fun _ _ found => found) (fun _ absent => absent) fun _ absent => absent
  | forget identity =>
    refine one.of_fewer (fun id attempt found => ?_) (fun _ absent => absent)
      fun _ absent => absent
    unfold MemoryScheduler.forget at found
    rw [Table.find?_filter, Option.filter_eq_some_iff] at found
    exact found.1
  | disown identity =>
    exact one.of_fewer (fun _ _ found => found) (fun _ absent => absent) fun _ absent => absent
  | grant reservation new waits found room => exact one.grant waits
  | progress attemptId state unknownAt held live =>
    refine one.of_follows (fun id attempt' found => ?_) (fun _ absent => absent)
      fun id attempt' found held' => ?_
    · obtain ⟨attempt, old, ⟨rfl, rfl⟩ | ⟨-, rfl⟩⟩ := Table.find?_of_modify found fun _ => rfl
      · -- only an attempt with a permit moves on, and such an attempt is live
        exact ⟨attempt, old, rfl, fun _ => one.live _ attempt old held⟩
      · exact ⟨attempt', old, rfl, fun live => live⟩
    · obtain ⟨attempt, old, ⟨rfl, rfl⟩ | ⟨-, rfl⟩⟩ := Table.find?_of_modify found fun _ => rfl
      · exact live
      · refine one.live id attempt' old fun absent => held' ?_
        exact Table.find?_modify_eq_none absent fun _ => rfl
  | conclude attemptId state idleVerified aside ended unproven =>
    refine one.of_follows (fun id attempt' found => ?_) (fun _ absent => absent)
      fun id attempt' found held' => ?_
    · obtain ⟨attempt, old, ⟨rfl, rfl⟩ | ⟨-, rfl⟩⟩ := Table.find?_of_modify found fun _ => rfl
      · refine ⟨attempt, old, rfl, fun live => ?_⟩
        have isOver : (state attempt.state).live = false := ended attempt.state
        rw [isOver] at live
        cases live
      · exact ⟨attempt', old, rfl, fun live => live⟩
    · obtain ⟨attempt, old, ⟨rfl, rfl⟩ | ⟨other, rfl⟩⟩ :=
        Table.find?_of_modify found fun _ => rfl
      · refine absurd ?_ held'
        exact Table.find?_erase.trans (if_pos rfl)
      · refine one.live id attempt' old fun absent => held' ?_
        refine Table.find?_erase.trans ((if_neg other).trans ?_)
        exact Table.find?_modify_eq_none absent fun _ => rfl
  | observe attemptId state =>
    refine one.of_fewer (fun _ _ found => found) (fun _ absent => absent) fun id absent => ?_
    exact Table.find?_modify_eq_none absent fun _ => rfl
  | drop attemptId isOver =>
    refine one.of_fewer (fun _ _ found => found) (fun _ absent => absent) fun id absent => ?_
    unfold MemoryScheduler.release
    rw [Table.find?_erase, absent, ite_self]
  | adopt pool allowed fits =>
    exact one.of_fewer (fun _ _ found => found) (fun _ absent => absent) fun _ absent => absent
  | regain allowed =>
    exact one.of_fewer (fun _ _ found => found) (fun _ absent => absent) fun _ absent => absent
  | weigh unknownIdle allowed =>
    exact one.of_fewer (fun _ _ found => found) (fun _ absent => absent) fun _ absent => absent
  | wait waiter allowed =>
    rw [off] at allowed
    cases allowed
  | grantDurable call allowed asked fits named room =>
    rw [off] at allowed
    cases allowed

theorem Path.oneLive {scope : Scope} (path : Path scope s s') (off : scope.durable = false)
    (one : OneLive s) : OneLive s' := by
  induction path with
  | refl => exact one
  | tail _ move ih => exact move.oneLive off ih

/-- A turn of a direct caller or of the maintenance loop, not of an executor. -/
def Event.isDirect : Event → Prop
  | .direct .. | .maintain .. | .timer .. => True
  | .acquire .. | .release .. | .resume .. | .interrupt .. => False

/-- A request that may join the queue in this turn is noticed if it has a live attempt. -/
def Event.Notices (s : MemoryScheduler) : Event → Prop
  | .direct _ _ call => ∀ request ∈ call.joins, s.Noticed request.requestId
  | _ => True

instance (s : MemoryScheduler) : DecidablePred (Event.Notices s) := fun event => by
  unfold Event.Notices
  split <;> infer_instance

namespace Process

variable {p : Process}

theorem step_oneLive {event : Event} (direct : event.isDirect)
    (notices : event.Notices p.scheduler) (one : OneLive p.scheduler) :
    OneLive (p.step event).scheduler := by
  cases event with
  | direct clock uuid call =>
    obtain ⟨s₁, joined, path⟩ :=
      @directCall_ensures { durable := false } p.scheduler rfl clock uuid call
        (call.fits_of_free trivial (fun _ => trivial) fun _ => trivial)
    refine path.oneLive rfl ?_
    rcases joined with rfl | ⟨request, poolId, ownerId, enters, guard, -, rfl⟩
    · exact one
    · exact one.admitted (notices request (joins_of_enters enters)) guard clock poolId ownerId
  | maintain clock notice =>
    have heard : Scope.Heeds { durable := false } p.maintenance notice :=
      Scope.heeds_of_gone (fun _ => trivial) (fun _ => trivial) _
        fun _ _ _ => ⟨rfl, fun _ _ => trivial⟩
    have path : Path { durable := false } p.scheduler
        (Scheduling.maintain clock p.scheduler p.maintenance notice).scheduler :=
      maintain_path rfl rfl clock p.maintenance heard (Scope.readies rfl rfl notice)
        fun _ _ => trivial
    exact path.oneLive rfl one
  | timer clock =>
    have path : Path { durable := false } p.scheduler (p.scheduler.expireDirty clock.monotonic) :=
      expireDirty_path _
    exact path.oneLive rfl one
  | acquire | release | resume | interrupt => exact direct.elim

theorem after_oneLive {events : List Event} (direct : ∀ event ∈ events, event.isDirect)
    (notices : p.Throughout (fun p event => event.Notices p.scheduler) events)
    (one : OneLive p.scheduler) : OneLive (p.after events).scheduler := by
  induction events generalizing p with
  | nil => exact one
  | cons event rest ih =>
    exact ih (fun event member => direct event (List.mem_cons_of_mem _ member)) notices.2
      (step_oneLive (direct event List.mem_cons_self) notices.1 one)

/-- In every sequence of direct calls and turns of the maintenance loop in which each
`enqueue` and `try_reserve` notices a live attempt of its request, a request has at most
one live attempt. -/
theorem one_live_attempt {events : List Event} (fresh : p.scheduler.directAttempts.rows = [])
    (direct : ∀ event ∈ events, event.isDirect)
    (notices : p.Throughout (fun p event => event.Notices p.scheduler) events)
    (requestId : String) :
    ((p.after events).scheduler.directAttempts.rows.filter fun attempt =>
      attempt.requestId = some requestId ∧ attempt.state.live).length ≤ 1 := by
  have one : OneLive (p.after events).scheduler :=
    after_oneLive direct notices (.of_empty fresh)
  refine Table.length_filter_le_one fun attempt member attempt' member' => ?_
  obtain ⟨here, holds⟩ := List.mem_filter.mp member
  obtain ⟨here', holds'⟩ := List.mem_filter.mp member'
  obtain ⟨named, live⟩ := of_decide_eq_true holds
  obtain ⟨named', live'⟩ := of_decide_eq_true holds'
  exact one.unique _ _ attempt attempt' (Table.find?_of_mem here) (Table.find?_of_mem here')
    live live' (named.trans named'.symm) (by simp [named])

end Process

/-- A request is granted, sent and lost; asking again is refused. -/
def lostRequest : List Event :=
  let request := sampleRequest "r"
  let reservation := sampleReservation "a" "r"
  sampleCalls [("", .enqueue request "p" "proxy"), ("a", .reserve request "p" "proxy"),
    ("", .markSend reservation), ("", .unknown reservation), ("", .enqueue request "p" "proxy"),
    ("b", .reserve request "p" "proxy")]

theorem one_live_attempt_sample :
    ((sampleProcess.after lostRequest).scheduler.directAttempts.rows.map fun attempt =>
        (attempt.attemptId, attempt.state)) = [("a", .unknown)] ∧
      ((sampleProcess.after lostRequest).scheduler.directAttempts.rows.filter fun attempt =>
        attempt.requestId = some "r" ∧ attempt.state.live).length ≤ 1 := by
  refine ⟨by decide +kernel, Process.one_live_attempt rfl (fun event member => ?_) ?_ "r"⟩
  · obtain ⟨item, -, rfl⟩ := List.mem_map.mp member
    trivial
  · decide +kernel

/-- A first attempt that was not sent makes room for a second one. The second is live, but
has the same generation, so a third is granted next to it. -/
def repeatedRequest : List Event :=
  let request := sampleRequest "r"
  sampleCalls [("", .enqueue request "p" "proxy"), ("a", .reserve request "p" "proxy"),
    ("", .finish (sampleReservation "a" "r") .notSent), ("", .enqueue request "p" "proxy"),
    ("b", .reserve request "p" "proxy"), ("", .enqueue request "p" "proxy"),
    ("c", .reserve request "p" "proxy")]

/-- Two attempts of one request hold permits. -/
theorem one_live_attempt_fails :
    sampleProcess.scheduler.directAttempts.rows = [] ∧
      (∀ event ∈ repeatedRequest, event.isDirect) ∧
      ((sampleProcess.after repeatedRequest).scheduler.directAttempts.rows.filter fun attempt =>
        attempt.requestId = some "r" ∧ attempt.state.live).map Permit.attemptId = ["b", "c"] := by
  refine ⟨rfl, fun event member => ?_, by decide +kernel⟩
  obtain ⟨item, -, rfl⟩ := List.mem_map.mp member
  trivial

end IntramindRuntime.Scheduling
