import IntramindRuntime.Scheduling.Queues

/-!
# Asking once

`try_reserve` lets its request join the queue, asks for a permit, and takes the request back
if there is none. Reading the queue may remove waiters that are late and entries that stand
for nobody; apart from that, a request that is new to the scheduler leaves nothing behind
when it is refused, and one permit, one attempt and one identity when it is granted.

## Main definitions

* `MemoryScheduler.Unseen` — a request is new to the scheduler
* `Scanned` — what reading the head of a queue may change
* `Tidied` — the queues have lost late waiters and useless entries, and nothing else

## Main results

* `reserve_scans` — what a call of `reserve` changes
* `Process.asking_once` — what a call of `try_reserve` changes
-/

namespace IntramindRuntime.Scheduling

open Library Relation

variable {s s' : MemoryScheduler}

instance (poolId : String) (entry : Entry) : Decidable (s.Live poolId entry) :=
  decidable_of_iff (∃ waiter ∈ s.waiters.find? entry.identity,
    waiter.poolId = poolId ∧ waiter.queuedAt = entry.queuedAt) Iff.rfl

/-! ### Reading a queue -/

/-- Waiters whose deadline has passed are removed. -/
def Lapsed (now : Time) (waiters waiters' : Table Waiter) : Prop :=
  ∃ late : List String,
    (∀ identity ∈ late, ∃ waiter, waiters.find? identity = some waiter ∧ waiter.deadline ≤ now) ∧
      waiters' = late.foldl Table.erase waiters

theorem Lapsed.refl (now : Time) (waiters : Table Waiter) : Lapsed now waiters waiters :=
  ⟨[], List.forall_mem_nil _, rfl⟩

/-- Late waiters are removed, and entries that stand for nobody are dropped. -/
structure Scanned (now : Time) (s s' : MemoryScheduler) : Prop where
  waiters : Lapsed now s.waiters s'.waiters
  sublist : ∀ poolId, (s'.queues poolId).Sublist (s.queues poolId)
  live : ∀ poolId, (s'.queues poolId).filter (fun entry => s'.Live poolId entry) =
    (s.queues poolId).filter fun entry => s'.Live poolId entry
  permits : s'.permits = s.permits
  directAttempts : s'.directAttempts = s.directAttempts
  requestIdentity : s'.requestIdentity = s.requestIdentity

theorem Scanned.refl (now : Time) (s : MemoryScheduler) : Scanned now s s :=
  ⟨.refl now s.waiters, fun _ => List.Sublist.refl _, fun _ => rfl, rfl, rfl, rfl⟩

@[simp] theorem removeWaiter_waiters (identity : String) :
    (s.removeWaiter identity).waiters = s.waiters.erase identity := by
  unfold MemoryScheduler.removeWaiter
  split
  · rename_i absent
    exact (Table.erase_of_new absent).symm
  · rfl

theorem find?_foldl_erase {late : List String} {waiters : Table Waiter} {identity : String}
    {waiter : Waiter} (found : (late.foldl Table.erase waiters).find? identity = some waiter) :
    waiters.find? identity = some waiter ∧ identity ∉ late := by
  induction late generalizing waiters with
  | nil => exact ⟨found, List.not_mem_nil⟩
  | cons first rest ih =>
    obtain ⟨left, later⟩ := ih found
    rw [Table.find?_erase] at left
    split at left
    · cases left
    · rename_i other
      exact ⟨left, fun member => (List.mem_cons.mp member).elim (fun same => other same.symm) later⟩

/-- What reading a queue from some entry on changes. -/
theorem scan_scans (now : Time) (poolId : String) (entries : List Entry) (s : MemoryScheduler) :
    let t := (MemoryScheduler.scan now poolId entries s).2
    Lapsed now s.waiters t.waiters ∧
    (∃ rest, t.queues = Function.update s.queues poolId rest ∧ rest.Sublist entries ∧
      rest.filter (fun entry => t.Live poolId entry) =
        entries.filter fun entry => t.Live poolId entry) ∧
    t.permits = s.permits ∧ t.directAttempts = s.directAttempts ∧
    t.requestIdentity = s.requestIdentity := by
  fun_induction MemoryScheduler.scan now poolId entries s with
  | case1 s =>
    exact ⟨.refl now s.waiters, ⟨[], rfl, List.Sublist.refl _, rfl⟩, rfl, rfl, rfl⟩
  | case2 entry rest s waiter found here passed ih =>
    obtain ⟨⟨late, old, waiters⟩, ⟨left, queues, sublist, live⟩, permits, attempts, identities⟩ := ih
    rw [removeWaiter_waiters] at waiters
    refine ⟨⟨entry.identity :: late, fun identity member => ?_, waiters⟩,
      ⟨left, ?_, sublist.cons entry, ?_⟩, ?_, ?_, ?_⟩
    · rcases List.mem_cons.mp member with rfl | later
      · exact ⟨waiter, found, passed⟩
      · obtain ⟨other, waits, late⟩ := old identity later
        exact ⟨other, (Fewer.removeWaiter entry.identity).waiters identity other waits, late⟩
    · rw [queues, removeWaiter_queues]
    · -- the late waiter is gone, so its entry stands for nobody
      rw [live, List.filter_cons_of_neg]
      refine fun lives => ?_
      obtain ⟨other, found', -⟩ := of_decide_eq_true lives
      rw [waiters] at found'
      have left := (find?_foldl_erase found').1
      rw [Table.find?_erase, if_pos rfl] at left
      cases left
    · rw [permits, removeWaiter_permits]
    · rw [attempts, removeWaiter_directAttempts]
    · rw [identities, removeWaiter_requestIdentity]
  | case3 entry rest s waiter found here early =>
    exact ⟨.refl now s.waiters, ⟨entry :: rest, rfl, List.Sublist.refl _, rfl⟩, rfl, rfl, rfl⟩
  | case4 entry rest s waiter found elsewhere ih =>
    obtain ⟨⟨late, old, waiters⟩, ⟨left, queues, sublist, live⟩, unchanged⟩ := ih
    refine ⟨⟨late, old, waiters⟩, ⟨left, queues, sublist.cons entry, ?_⟩, unchanged⟩
    rw [live, List.filter_cons_of_neg]
    refine fun lives => ?_
    obtain ⟨other, found', here⟩ := of_decide_eq_true lives
    rw [waiters] at found'
    obtain rfl := Option.some.inj (found.symm.trans (find?_foldl_erase found').1)
    exact elsewhere here
  | case5 entry rest s absent ih =>
    obtain ⟨⟨late, old, waiters⟩, ⟨left, queues, sublist, live⟩, unchanged⟩ := ih
    refine ⟨⟨late, old, waiters⟩, ⟨left, queues, sublist.cons entry, ?_⟩, unchanged⟩
    rw [live, List.filter_cons_of_neg]
    refine fun lives => ?_
    obtain ⟨other, found', -⟩ := of_decide_eq_true lives
    rw [waiters] at found'
    have found := (find?_foldl_erase found').1
    rw [absent] at found
    cases found

theorem first_scans (now : Time) (poolId : String) (s : MemoryScheduler) :
    Scanned now s (s.first now poolId).2 := by
  obtain ⟨waiters, ⟨rest, queues, sublist, live⟩, permits, attempts, identities⟩ :=
    scan_scans now poolId (s.queues poolId) s
  refine ⟨waiters, fun other => ?_, fun other => ?_, permits, attempts, identities⟩
  · have read : (s.first now poolId).2.queues = Function.update s.queues poolId rest := queues
    rw [read]
    rcases eq_or_ne other poolId with rfl | apart
    · rwa [Function.update_self]
    · rw [Function.update_of_ne apart]
  · have read : (s.first now poolId).2.queues = Function.update s.queues poolId rest := queues
    rw [read]
    rcases eq_or_ne other poolId with rfl | apart
    · rw [Function.update_self]
      exact live
    · rw [Function.update_of_ne apart]

/-- A call of `reserve` reads a queue, and may then grant the request. -/
theorem reserve_scans (clock : Clock) (uuid : String) (request : DirectRequest)
    (poolId ownerId : String) (previous : Option String) :
    (reserve clock uuid request poolId ownerId previous).Ensures s fun outcome s' =>
      ∃ t, Scanned clock.monotonic s t ∧
        ((s' = t ∧ ∀ reservation, outcome ≠ .ok (some reservation)) ∨
          ∃ reservation, outcome = .ok (some reservation) ∧ s' = t.grant reservation ∧
            reservation.attemptId = uuid ∧ reservation.request = request) := by
  have expired : Scanned clock.monotonic s (s.expireDirty clock.monotonic) :=
    ⟨.refl _ _, fun _ => List.Sublist.refl _, fun _ => rfl, rfl, rfl, rfl⟩
  have refused {t : MemoryScheduler} (scanned : Scanned clock.monotonic s t)
      (outcome : Except SchedulerError (Option DirectReservation))
      (nothing : ∀ reservation, outcome ≠ .ok (some reservation)) :
      ∃ t', Scanned clock.monotonic s t' ∧
        ((t = t' ∧ ∀ reservation, outcome ≠ .ok (some reservation)) ∨
          ∃ reservation, outcome = .ok (some reservation) ∧ t = t'.grant reservation ∧
            reservation.attemptId = uuid ∧ reservation.request = request) :=
    ⟨t, scanned, Or.inl ⟨rfl, nothing⟩⟩
  have raised (error : SchedulerError) :=
    refused expired (.error error) fun _ granted => by cases granted
  have none_given := refused expired (.ok none) fun _ granted => by cases granted
  unfold reserve
  refine Turn.ensures_bind.mpr (Turn.ensures_modify.mpr ?_)
  refine (pool_looks poolId).bind_ensures raised fun pool _ => ?_
  refine Turn.ensures_bind.mpr (Turn.ensures_get.mpr ?_)
  dsimp only
  split
  · exact none_given
  · rename_i waiter waits
    split
    · exact none_given
    · split
      · exact none_given
      · refine (validate_looks request pool).bind_ensures raised fun _ _ => ?_
        split
        · exact raised _
        · refine (nextGeneration_looks request poolId ownerId pool previous).bind_ensures raised
            fun generation _ => ?_
          split
          · exact none_given
          · -- the state after the queue is read, starting from the one before the turn
            have read := first_scans clock.monotonic poolId (s.expireDirty clock.monotonic)
            have scanned : Scanned clock.monotonic s
                ((s.expireDirty clock.monotonic).first clock.monotonic poolId).2 :=
              ⟨read.waiters, read.sublist, read.live, read.permits, read.directAttempts,
                read.requestIdentity⟩
            refine first_ensures (Turn.ensures_bind.mpr (Turn.ensures_get.mpr ?_))
            dsimp only
            split
            · exact ⟨_, scanned, Or.inr ⟨_, rfl, rfl, rfl, rfl⟩⟩
            · exact refused scanned _ fun _ granted => by cases granted

/-! ### A request that is new -/

/-- The scheduler has not seen a request with this identifier. -/
structure MemoryScheduler.Unseen (s : MemoryScheduler) (requestId : String) : Prop where
  identity : s.requestIdentity.find? requestId = none
  waiter : s.waiters.find? requestId = none
  entries : ∀ poolId, ∀ entry ∈ s.queues poolId, entry.identity ≠ requestId

/-- A new request joins the queue, or is refused and changes nothing. -/
theorem enqueue_unseen (clock : Clock) {request : DirectRequest}
    (unseen : s.Unseen request.requestId) (poolId ownerId : String) :
    (enqueue clock request poolId ownerId).Ensures s fun outcome s' =>
      (s' = s ∧ ∃ error, outcome = .error error) ∨
        (clock.utc < request.deadline ∧ outcome = .ok clock.monotonic ∧
          s' = s.admitted clock request poolId ownerId) := by
  have raised (error : SchedulerError) :
      (s = s ∧ ∃ error', (.error error : Except SchedulerError Time) = .error error') ∨
        (clock.utc < request.deadline ∧
          (.error error : Except SchedulerError Time) = .ok clock.monotonic ∧
          s = s.admitted clock request poolId ownerId) :=
    Or.inl ⟨rfl, error, rfl⟩
  unfold enqueue
  refine (pool_looks poolId).bind_ensures raised fun pool _ => ?_
  refine Turn.ensures_bind.mpr (Turn.ensures_get.mpr ?_)
  dsimp only
  rw [unseen.identity]
  unfold joinQueue
  refine Turn.ensures_bind.mpr (Turn.ensures_get.mpr ?_)
  dsimp only
  split
  · exact raised _
  · rename_i early
    split
    · exact raised _
    · refine (validate_looks request pool).bind_ensures raised fun _ _ => ?_
      exact Or.inr ⟨not_le.mp early, rfl, rfl⟩

/-- What `try_reserve` may end with: nothing has changed; or the queue was read, with the request
in it or not, and the request was taken back; or it was granted. -/
def Tried (clock : Clock) (uuid : String) (request : DirectRequest) (poolId ownerId : String)
    (s : MemoryScheduler) (outcome : Except SchedulerError (Except String DirectReservation))
    (s' : MemoryScheduler) : Prop :=
  ((∀ reservation, outcome ≠ .ok (.ok reservation)) ∧
    (s' = s ∨ s' = s.abandon poolId request.requestId)) ∨
  (clock.utc < request.deadline ∧
    ∃ t, Scanned clock.monotonic (s.admitted clock request poolId ownerId) t ∧
      (((∀ reservation, outcome ≠ .ok (.ok reservation)) ∧
          s' = t.abandon poolId request.requestId) ∨
        ∃ reservation, outcome = .ok (.ok reservation) ∧ s' = t.grant reservation ∧
          reservation.attemptId = uuid ∧ reservation.request = request))

theorem tryAdmitted_tries (clock : Clock) (uuid : String) {request : DirectRequest}
    (unseen : s.Unseen request.requestId) (poolId ownerId : String) :
    (tryAdmitted clock uuid request poolId ownerId).Ensures s fun outcome s' =>
      Tried clock uuid request poolId ownerId s outcome
        (if granted outcome then s' else s'.abandon poolId request.requestId) := by
  unfold tryAdmitted
  refine Turn.ensures_attempt_bind.mpr ?_
  rcases enqueue_unseen clock unseen poolId ownerId with
    ⟨same, error, failed⟩ | ⟨early, ended, joined⟩
  · rw [same, failed]
    split
    · exact Or.inl ⟨fun _ granted => (by cases granted), Or.inr rfl⟩
    · exact Or.inl ⟨fun _ granted => (by cases granted), Or.inr rfl⟩
    · rename_i ended
      cases ended
  · rw [joined, ended]
    have scans := @reserve_scans (s.admitted clock request poolId ownerId) clock uuid request
      poolId ownerId none
    refine Turn.ensures_bind.mpr (scans.mono fun outcome s' scanned => ?_)
    obtain ⟨t, scanned, ⟨rfl, refused⟩ | ⟨reservation, rfl, rfl, named, same⟩⟩ := scanned
    · have nothing {ends : Except SchedulerError (Except String DirectReservation)}
          (refused : ∀ reservation, ends ≠ .ok (.ok reservation)) :
          Tried clock uuid request poolId ownerId s ends
            (s'.abandon poolId request.requestId) :=
        Or.inr ⟨early, s', scanned, Or.inl ⟨refused, rfl⟩⟩
      cases outcome with
      | error error => exact nothing fun _ granted => by cases granted
      | ok value =>
        cases value with
        | none => exact nothing fun _ granted => by cases granted
        | some reservation => exact absurd rfl (refused reservation)
    · exact Or.inr ⟨early, t, scanned, Or.inr ⟨reservation, rfl, rfl, named, same⟩⟩

theorem tryReserve_tries (clock : Clock) (uuid : String) {request : DirectRequest}
    (unseen : s.Unseen request.requestId) (poolId ownerId : String) :
    (tryReserve clock uuid request poolId ownerId).Ensures s
      (Tried clock uuid request poolId ownerId s) := by
  have refused (reason : String) :
      Tried clock uuid request poolId ownerId s (.ok (.error reason)) s :=
    Or.inl ⟨fun _ granted => (by cases granted), Or.inl rfl⟩
  unfold tryReserve
  refine Turn.ensures_bind.mpr (Turn.ensures_get.mpr ?_)
  dsimp only
  split
  · exact refused _
  · split
    · exact refused _
    · split
      · exact refused _
      · split
        · exact refused _
        · unfold Turn.Ensures
          rw [Turn.final_cleanup, Turn.outcome_cleanup]
          exact tryAdmitted_tries clock uuid unseen poolId ownerId

/-! ### What is left of the request -/

/-- The queues have lost waiters that were late and entries that stand for nobody; the counters
follow, and the entries that stand for a waiter are the same in the same order. -/
structure Tidied (now : Time) (s s' : MemoryScheduler) : Prop where
  late : ∃ late : List String,
    (∀ identity ∈ late, ∃ waiter, s.waiters.find? identity = some waiter ∧
      waiter.deadline ≤ now) ∧
    s'.waiters = (late.foldl MemoryScheduler.removeWaiter s).waiters ∧
    s'.queueCounts = (late.foldl MemoryScheduler.removeWaiter s).queueCounts ∧
    s'.tenantCounts = (late.foldl MemoryScheduler.removeWaiter s).tenantCounts
  live : ∀ poolId, (s'.queues poolId).filter (fun entry => s'.Live poolId entry) =
    (s.queues poolId).filter fun entry => s'.Live poolId entry

/-- Counters count, so that they follow the waiters. -/
theorem Tidied.of_lapsed {now : Time} (queued : Queued s) (queued' : Queued s')
    (lapsed : Lapsed now s.waiters s'.waiters)
    (live : ∀ poolId, (s'.queues poolId).filter (fun entry => s'.Live poolId entry) =
      (s.queues poolId).filter fun entry => s'.Live poolId entry) : Tidied now s s' := by
  obtain ⟨late, old, waiters⟩ := lapsed
  have removed (late : List String) (t : MemoryScheduler) (start : Queued t) :
      (late.foldl MemoryScheduler.removeWaiter t).waiters = late.foldl Table.erase t.waiters ∧
        Queued (late.foldl MemoryScheduler.removeWaiter t) := by
    induction late generalizing t with
    | nil => exact ⟨rfl, start⟩
    | cons identity rest ih =>
      obtain ⟨waiters, queued⟩ := ih (t.removeWaiter identity) (start.removeWaiter identity)
      rw [removeWaiter_waiters] at waiters
      exact ⟨waiters, queued⟩
  obtain ⟨waiters', counted⟩ := removed late s queued
  have same : s'.waiters = (late.foldl MemoryScheduler.removeWaiter s).waiters :=
    waiters.trans waiters'.symm
  have directWaiters (keeps : Waiter → Bool) : s'.directWaiters keeps =
      (late.foldl MemoryScheduler.removeWaiter s).directWaiters keeps := by
    unfold MemoryScheduler.directWaiters
    rw [same]
  refine ⟨⟨late, old, same, ?_, ?_⟩, live⟩
  · ext poolId
    rw [queued'.pools, counted.pools, directWaiters]
  · ext ⟨poolId, tenantId⟩
    rw [queued'.tenants, counted.tenants, directWaiters]

section Joined

variable {clock : Clock} {request : DirectRequest} {poolId ownerId : String}
  (unseen : s.Unseen request.requestId)

include unseen

/-- Without the new request, the queues are those it has joined. -/
theorem queues_admitted (other : String) :
    ((s.admitted clock request poolId ownerId).queues other).filter
      (fun entry => entry.identity ≠ request.requestId) = s.queues other := by
  have others : (s.queues other).filter (fun entry => entry.identity ≠ request.requestId) =
      s.queues other :=
    List.filter_eq_self.mpr fun entry member => decide_eq_true (unseen.entries other entry member)
  have queues : (s.admitted clock request poolId ownerId).queues =
      Function.update s.queues poolId ((s.queues poolId).orderedInsert Entry.le
        (request.waiter clock poolId ownerId s.nextRef).entry) := rfl
  rw [queues]
  rcases eq_or_ne other poolId with rfl | apart
  · rw [Function.update_self, List.orderedInsert_eq_take_drop, List.filter_append,
      List.filter_cons_of_neg, ← List.filter_append, List.takeWhile_append_dropWhile]
    · exact others
    · exact fun different => of_decide_eq_true different rfl
  · rw [Function.update_of_ne apart, others]

variable {t : MemoryScheduler}
  (scanned : Scanned clock.monotonic (s.admitted clock request poolId ownerId) t)

include scanned

/-- The waiters, once the request is taken back: those that were late are missing. -/
theorem lapsed_admitted (early : clock.utc < request.deadline) :
    Lapsed clock.monotonic s.waiters (t.waiters.erase request.requestId) := by
  obtain ⟨late, old, waiters⟩ := scanned.waiters
  have joined : (s.admitted clock request poolId ownerId).waiters =
      s.waiters.put (request.waiter clock poolId ownerId s.nextRef) := rfl
  refine ⟨late, fun identity member => ?_, ?_⟩
  · obtain ⟨waiter, found, passed⟩ := old identity member
    rw [joined, Table.find?_put] at found
    split at found
    · -- the deadline of the request has not come
      obtain rfl := Option.some.inj found
      have due : clock.monotonic + (request.deadline - clock.utc) ≤ clock.monotonic := passed
      exact absurd early (not_lt.mpr (sub_nonpos.mp ((add_le_iff_nonpos_right _).mp due)))
    · exact ⟨waiter, found, passed⟩
  · rw [waiters, joined, Table.foldl_erase_comm]
    exact congrArg (late.foldl Table.erase) (Table.erase_put_of_new unseen.waiter)

/-- The entries that stand for a waiter, once the request is taken back. -/
theorem live_admitted (waiters : s'.waiters = t.waiters.erase request.requestId) (other : String) :
    (t.queues other).filter (fun entry => s'.Live other entry) =
      (s.queues other).filter fun entry => s'.Live other entry := by
  have lives (entry : Entry) : s'.Live other entry ↔
      entry.identity ≠ request.requestId ∧ t.Live other entry := by
    unfold MemoryScheduler.Live
    rw [waiters, Table.find?_erase]
    split
    · rename_i same
      refine ⟨?_, fun both => absurd same.symm both.1⟩
      rintro ⟨_, found, _⟩
      cases found
    · rename_i apart
      exact (and_iff_right (Ne.symm apart)).symm
  have parted (entries : List Entry) : entries.filter (fun entry => s'.Live other entry) =
      (entries.filter fun entry => t.Live other entry).filter
        fun entry => entry.identity ≠ request.requestId := by
    rw [List.filter_filter]
    refine List.filter_congr fun entry _ => ?_
    rw [← Bool.decide_and]
    exact decide_eq_decide.mpr (lives entry)
  have joined := @queues_admitted s clock request poolId ownerId unseen other
  calc (t.queues other).filter (fun entry => s'.Live other entry)
      = ((t.queues other).filter fun entry => t.Live other entry).filter
          fun entry => entry.identity ≠ request.requestId := parted _
    _ = ((s.admitted clock request poolId ownerId).queues other).filter
          fun entry => s'.Live other entry := by rw [scanned.live other, parted]
    _ = (s.queues other).filter fun entry => s'.Live other entry := by
        rw [← joined, List.filter_filter]
        refine List.filter_congr fun entry _ => ?_
        rw [← Bool.decide_and]
        exact decide_eq_decide.mpr ⟨fun live => ⟨live, ((lives entry).mp live).1⟩, And.left⟩

end Joined

/-! ### What a call changes -/

section Abandon

variable {poolId requestId : String} {t : MemoryScheduler}

theorem abandon_waiters : (t.abandon poolId requestId).waiters = t.waiters.erase requestId :=
  removeWaiter_waiters requestId

theorem abandon_requestIdentity :
    (t.abandon poolId requestId).requestIdentity = t.requestIdentity.erase requestId :=
  congrArg (Table.erase · requestId) (removeWaiter_requestIdentity t requestId)

theorem abandon_queues : (t.abandon poolId requestId).queues = Function.update t.queues poolId
    ((t.queues poolId).filter fun entry => entry.identity ≠ requestId) := by
  dsimp only [MemoryScheduler.abandon]
  rw [removeWaiter_queues]

theorem abandon_permits : (t.abandon poolId requestId).permits = t.permits :=
  removeWaiter_permits t requestId

theorem abandon_directAttempts : (t.abandon poolId requestId).directAttempts = t.directAttempts :=
  removeWaiter_directAttempts t requestId

end Abandon

/-- Taking back a request that is not there changes nothing. -/
theorem Scanned.of_abandon {requestId : String} (unseen : s.Unseen requestId) (now : Time)
    (poolId : String) : Scanned now s (s.abandon poolId requestId) := by
  have queues : (s.abandon poolId requestId).queues = s.queues := by
    have others : (s.queues poolId).filter (fun entry => entry.identity ≠ requestId) =
        s.queues poolId := List.filter_eq_self.mpr fun entry member =>
      decide_eq_true (unseen.entries poolId entry member)
    rw [abandon_queues, others, Function.update_eq_self]
  refine ⟨?_, fun other => ?_, fun other => ?_, abandon_permits, abandon_directAttempts, ?_⟩
  · rw [abandon_waiters, Table.erase_of_new unseen.waiter]
    exact .refl now s.waiters
  · rw [queues]
  · rw [queues]
  · rw [abandon_requestIdentity, Table.erase_of_new unseen.identity]

/-- A new request that has joined the queue and is taken back leaves what reading the queue
has left. -/
theorem Scanned.abandoned {clock : Clock} {request : DirectRequest} {poolId ownerId : String}
    {t : MemoryScheduler} (unseen : s.Unseen request.requestId)
    (early : clock.utc < request.deadline)
    (scanned : Scanned clock.monotonic (s.admitted clock request poolId ownerId) t) :
    Scanned clock.monotonic s (t.abandon poolId request.requestId) := by
  have waiters := @abandon_waiters poolId request.requestId t
  have lives := fun other => live_admitted unseen scanned waiters other
  refine ⟨?_, fun other => ?_, fun other => ?_, ?_, ?_, ?_⟩
  · rw [waiters]
    exact lapsed_admitted unseen scanned early
  · have shorter := scanned.sublist other
    rw [abandon_queues]
    rcases eq_or_ne other poolId with rfl | apart
    · rw [Function.update_self, ← queues_admitted unseen other]
      exact shorter.filter _
    · rw [Function.update_of_ne apart]
      exact shorter.trans (Function.update_of_ne apart _ s.queues ▸ List.Sublist.refl _)
  · rw [abandon_queues, ← lives other]
    rcases eq_or_ne other poolId with rfl | apart
    · -- no entry of the request stands for a waiter
      rw [Function.update_self, List.filter_filter]
      refine List.filter_congr fun entry _ => ?_
      rw [← Bool.decide_and]
      refine decide_eq_decide.mpr ⟨And.left, fun live => ⟨live, fun same => ?_⟩⟩
      obtain ⟨waiter, found, -⟩ := live
      rw [waiters, Table.find?_erase, if_pos same.symm] at found
      cases found
    · rw [Function.update_of_ne apart]
  · exact abandon_permits.trans scanned.permits
  · exact abandon_directAttempts.trans scanned.directAttempts
  · have joined : (s.admitted clock request poolId ownerId).requestIdentity =
        s.requestIdentity.put
          ⟨request, ownerId, clock.monotonic + s.settings.requestTtl⟩ := rfl
    rw [abandon_requestIdentity, scanned.requestIdentity, joined]
    exact Table.erase_put_of_new unseen.identity

/-- The queues are kept, whatever becomes of the request. -/
theorem Queued.tryReserve (queued : Queued s) (clock : Clock) (uuid : String)
    (request : DirectRequest) (poolId ownerId : String) :
    Queued ((tryReserve clock uuid request poolId ownerId).final s) := by
  obtain ⟨s₁, entered, path⟩ :=
    @tryReserve_ensures .leaving s clock uuid trivial request trivial poolId ownerId
  refine path.queued rfl rfl ?_
  rcases entered with rfl | ⟨guard, room, rfl⟩
  · exact queued
  · exact queued.admitted guard room

/-- What a call of `try_reserve` for a new request does: if it is refused, permits, attempts
and identities are as they were, and the queues have only lost what nobody misses; if it is
granted, there are one more permit, attempt and identity, and the request does not wait. -/
structure AskedOnce (clock : Clock) (request : DirectRequest) (ownerId : String)
    (s : MemoryScheduler) (outcome : Except SchedulerError (Except String DirectReservation))
    (s' : MemoryScheduler) : Prop where
  tidied : Tidied clock.monotonic s s'
  refused : (∀ reservation, outcome ≠ .ok (.ok reservation)) →
    s'.permits = s.permits ∧ s'.directAttempts = s.directAttempts ∧
    s'.requestIdentity = s.requestIdentity ∧
    ∀ poolId, (s'.queues poolId).Sublist (s.queues poolId)
  granted : ∀ reservation, outcome = .ok (.ok reservation) →
    s'.permits.rows = s.permits.rows ++ [reservation.permit] ∧
    s'.directAttempts.rows = s.directAttempts.rows ++ [reservation.permit] ∧
    s'.requestIdentity.rows = s.requestIdentity.rows ++
      [⟨request, ownerId, clock.monotonic + s.settings.requestTtl⟩] ∧
    s'.waiters.find? request.requestId = none ∧
    ∀ poolId entry, entry.identity = request.requestId → ¬ s'.Live poolId entry

theorem Tried.askedOnce {clock : Clock} {uuid : String} {request : DirectRequest}
    {poolId ownerId : String}
    {outcome : Except SchedulerError (Except String DirectReservation)}
    (tried : Tried clock uuid request poolId ownerId s outcome s')
    (unseen : s.Unseen request.requestId) (freshPermit : s.permits.find? uuid = none)
    (freshAttempt : s.directAttempts.find? uuid = none) (queued : Queued s) (queued' : Queued s') :
    AskedOnce clock request ownerId s outcome s' := by
  have refused (scanned : Scanned clock.monotonic s s')
      (nothing : ∀ reservation, outcome ≠ .ok (.ok reservation)) :
      AskedOnce clock request ownerId s outcome s' :=
    ⟨.of_lapsed queued queued' scanned.waiters scanned.live,
      fun _ => ⟨scanned.permits, scanned.directAttempts, scanned.requestIdentity, scanned.sublist⟩,
      fun reservation granted => absurd granted (nothing reservation)⟩
  rcases tried with ⟨nothing, rfl | rfl⟩ | ⟨early, t, scanned, ⟨nothing, rfl⟩ | ⟨reservation, rfl,
    rfl, rfl, rfl⟩⟩
  · exact refused (.refl clock.monotonic s') nothing
  · exact refused (.of_abandon unseen clock.monotonic poolId) nothing
  · exact refused (scanned.abandoned unseen early) nothing
  · -- the granted request leaves its queue, its entry stays behind
    have waiters : (t.grant reservation).waiters =
        t.waiters.erase reservation.request.requestId := by rw [grant_waiters, removeWaiter_waiters]
    have gone : (t.grant reservation).waiters.find? reservation.request.requestId = none := by
      rw [waiters, Table.find?_erase, if_pos rfl]
    have queues : (t.grant reservation).queues = t.queues := removeWaiter_queues t _
    have joined : (s.admitted clock reservation.request poolId ownerId).requestIdentity =
        s.requestIdentity.put ⟨reservation.request, ownerId,
          clock.monotonic + s.settings.requestTtl⟩ := rfl
    refine ⟨.of_lapsed queued queued' ?_ fun other => ?_,
      fun nothing => absurd rfl (nothing reservation), fun given same => ?_⟩
    · rw [waiters]
      exact lapsed_admitted unseen scanned early
    · rw [queues]
      exact live_admitted unseen scanned waiters other
    · obtain rfl : reservation = given := Except.ok.inj (Except.ok.inj same)
      refine ⟨?_, ?_, ?_, gone, fun other entry named => ?_⟩
      · rw [grant_permits, scanned.permits]
        exact Table.rows_put_of_new freshPermit
      · rw [grant_directAttempts, scanned.directAttempts]
        exact Table.rows_put_of_new freshAttempt
      · rw [grant_requestIdentity, scanned.requestIdentity, joined]
        exact Table.rows_put_of_new unseen.identity
      · rintro ⟨waiter, found, -⟩
        rw [named, gone] at found
        cases found

/-- In every state of every run, a new request that asks once leaves no trace if it is refused,
and exactly its permit, its attempt and its identity if it is granted. -/
theorem Process.asking_once {p : Process} (nobody : p.NobodyWaits) (events : List Event)
    (clock : Clock) {uuid : String} {request : DirectRequest}
    (unseen : (p.after events).scheduler.Unseen request.requestId)
    (freshPermit : (p.after events).scheduler.permits.find? uuid = none)
    (freshAttempt : (p.after events).scheduler.directAttempts.find? uuid = none)
    (poolId ownerId : String) :
    (tryReserve clock uuid request poolId ownerId).Ensures (p.after events).scheduler
      (AskedOnce clock request ownerId (p.after events).scheduler) := by
  have queued := after_queued nobody.ordered.queued nobody.ordered.calls events
  have tried := tryReserve_tries clock uuid unseen poolId ownerId
  exact tried.askedOnce unseen freshPermit freshAttempt queued
    (queued.tryReserve clock uuid request poolId ownerId)

/-- A request waits for the sample pool that is too late when the next one asks. -/
def lateWaiter : List Event :=
  [.direct ⟨0, 0⟩ "" (.enqueue { sampleRequest "x" with deadline := 5 } "p" "proxy"),
    .direct ⟨1, 1⟩ "" (.enqueue { sampleRequest "y" with workloadClass := .background } "p" "proxy")]

/-- The late waiter is removed on the way, and the other one keeps its place. -/
theorem asking_once_sample :
    let s := (twoPools.after lateWaiter).scheduler
    let request := { sampleRequest "z" with workloadClass := .maintenance }
    (tryReserve ⟨7, 7⟩ "a" request "p" "proxy").Ensures s fun outcome s' =>
      outcome = .ok (.error "inference_capacity") ∧
      s'.waiters.rows.map Waiter.identity = ["y"] ∧
      (s'.queues "p").map Entry.identity = ["y"] ∧
      AskedOnce ⟨7, 7⟩ request "proxy" s outcome s' := by
  refine ⟨by decide +kernel, by decide +kernel, by decide +kernel, ?_⟩
  refine Process.asking_once twoPools_nobodyWaits lateWaiter ⟨7, 7⟩ ⟨?_, ?_, ?_⟩ ?_ ?_ "p" "proxy"
  · decide +kernel
  · decide +kernel
  · -- both requests wait for one pool
    have queues : (twoPools.after lateWaiter).scheduler.queues =
        Function.update (Function.update (fun _ => []) "p" [⟨0, 0, "x"⟩]) "p"
          [⟨0, 0, "x"⟩, ⟨2, 1, "y"⟩] := by rfl
    intro poolId entry member
    rw [queues] at member
    rcases eq_or_ne poolId "p" with rfl | other
    · rw [Function.update_self] at member
      revert entry
      decide
    · rw [Function.update_of_ne other, Function.update_of_ne other] at member
      cases member
  · decide +kernel
  · decide +kernel

end IntramindRuntime.Scheduling
