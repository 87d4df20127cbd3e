import IntramindRuntime.Scheduling.Process

/-!
# What a turn can do

Whatever a turn of the scheduler computes, it changes the waiters, the permits, the
direct attempts, the identities and the pools by a sequence of moves. This file lists
the moves once, with the guards that the code has checked, and shows for each turn
that it consists of moves; invariants are then proved move by move.

## Main definitions

* `Same` — two states with the same waiters, permits, attempts, identities and pools
* `Move` — one change, with its guard
* `MemoryScheduler.MayAdmit` — the guard of `_enqueue`

## Main results

* `enqueue_ensures` — a request joins the queue, or nothing changes
* `reserve_moves`, `directCall_ensures`, `resume_joins`, `maintain_path` — turns consist of moves
-/

namespace IntramindRuntime.Scheduling

open Library Relation

/-- The states agree on all that a move is about. The loop may also have noticed that it
lost the control plane. -/
structure Same (s s' : MemoryScheduler) : Prop where
  unknownIdle : s'.unknownIdle = s.unknownIdle
  pools : s'.pools = s.pools
  waiters : s'.waiters = s.waiters
  permits : s'.permits = s.permits
  directAttempts : s'.directAttempts = s.directAttempts
  requestIdentity : s'.requestIdentity = s.requestIdentity
  started : s'.started = s.started
  controlReady : s'.controlReady = true → s.controlReady = true
  settings : s'.settings = s.settings
  queues : s'.queues = s.queues
  queueCounts : s'.queueCounts = s.queueCounts
  tenantCounts : s'.tenantCounts = s.tenantCounts

/-- What may happen, and what comes from outside. -/
structure Scope where
  /-- Executors may ask for permits. -/
  durable : Bool := true
  /-- Lost attempts may be probed. -/
  probing : Bool := true
  /-- The pools may be read again. -/
  refreshing : Bool := true
  /-- The pools that may be read. -/
  known : Pool → Prop := fun _ => True
  /-- The identifiers that new direct attempts may get. -/
  drawn : String → Prop := fun _ => True
  /-- The durable attempts that the ledger may report as over. -/
  gone : String → Prop := fun _ => True
  /-- The attempts that executors may ask permits for. -/
  asked : String → Prop := fun _ => True
  /-- The attempts whose permits executors may give back. -/
  returned : String → Prop := fun _ => True
  /-- Callers may go on with their direct attempts. -/
  acting : Bool := true
  /-- The attempts whose state the ledger may report. -/
  reported : String → Prop := fun _ => True
  /-- Executors may start to wait. -/
  queueing : Bool := true
  /-- Old identities may be forgotten. -/
  forgetting : Bool := true
  /-- The direct attempts that may end. -/
  ending : String → Prop := fun _ => True
  /-- The identities that a refused `try_reserve` may take back. -/
  disowned : String → Prop := fun _ => True
  /-- Pools may become usable, and their idle probes may be counted. -/
  readying : Bool := true
  /-- The loop may lose the control plane. -/
  losing : Bool := true

/-- The identifier belongs to a direct attempt, as far as the scheduler can tell. -/
def MemoryScheduler.Aside (s : MemoryScheduler) (attemptId : String) : Prop :=
  s.directAttempts.find? attemptId ≠ none ∨
    ∀ permit, s.permits.find? attemptId = some permit → permit.kind = .direct

/-- The maintenance loop ends a direct attempt with a permit: its pool has another epoch, or it
was lost and is proven idle. -/
inductive MemoryScheduler.Ends (s : MemoryScheduler) (attemptId : String) :
    (PermitState → PermitState) → (Bool → Bool) → Prop
  | stale {permit : Permit} {pool : Pool} (held : s.permits.find? attemptId = some permit)
    (direct : permit.kind = .direct) (found : s.pools.find? permit.poolId = some pool)
    (other : pool.epoch ≠ permit.engineEpoch) :
    s.Ends attemptId (fun state => if state = .reserved then .failedNotSent else .failedRecoverable)
      id
  | idle {permit : Permit} (held : s.permits.find? attemptId = some permit)
    (direct : permit.kind = .direct) (lost : permit.state = .unknown) :
    s.Ends attemptId (fun _ => .failedRecoverable) fun _ => true

/-- An entry of the queue of a pool stands for the waiter with its identity. -/
def MemoryScheduler.Live (s : MemoryScheduler) (poolId : String) (entry : Entry) : Prop :=
  ∃ waiter, s.waiters.find? entry.identity = some waiter ∧ waiter.poolId = poolId ∧
    waiter.queuedAt = entry.queuedAt

/-- Entries are dropped from the queues, but none that stands for a waiter. -/
structure MemoryScheduler.Prunes (s : MemoryScheduler) (queues : String → List Entry) : Prop where
  sublist : ∀ poolId, (queues poolId).Sublist (s.queues poolId)
  live : ∀ poolId, ∀ entry ∈ s.queues poolId, s.Live poolId entry → entry ∈ queues poolId

/-- One change of the scheduler. -/
inductive Move (scope : Scope) : MemoryScheduler → MemoryScheduler → Prop
  | quiet {s s' : MemoryScheduler} (same : Same s s')
    (steady : scope.readying = true ∨
      (s'.readyByPool = s.readyByPool ∧ s'.slotIdle = s.slotIdle))
    (control : scope.losing = true ∨ s'.controlReady = s.controlReady) : Move scope s s'
  /-- A waiter leaves. -/
  | withdraw {s : MemoryScheduler} (identity : String) : Move scope s (s.removeWaiter identity)
  /-- Entries of the queues are dropped. -/
  | prune {s : MemoryScheduler} (queues : String → List Entry) (prunes : s.Prunes queues) :
    Move scope s { s with queues }
  /-- An identity is too old, and so are its attempts without a permit. -/
  | forget {s : MemoryScheduler} (identity : String) (old : scope.forgetting = true) :
    Move scope s (s.forget identity)
  /-- A refused `try_reserve` takes its identity back. -/
  | disown {s : MemoryScheduler} (identity : String)
    (gone : s.waiters.find? identity = none) (disowned : scope.disowned identity) :
    Move scope s { s with requestIdentity := s.requestIdentity.erase identity }
  /-- A waiting request gets a direct permit. -/
  | grant {s : MemoryScheduler} {waiter : Waiter} {pool : Pool} (reservation : DirectReservation)
    (new : scope.drawn reservation.attemptId)
    (waits : s.waiters.find? reservation.request.requestId = some waiter)
    (found : s.pools.find? reservation.poolId = some pool)
    (room : SlotCapacity.tryAcquire pool s.permits s.pools reservation.request.workloadClass) :
    Move scope s (s.grant reservation)
  /-- A direct attempt is sent, or its caller loses it. -/
  | progress {s : MemoryScheduler} (attemptId : String) (state : PermitState)
    (unknownAt : Option Time → Option Time) (held : s.permits.find? attemptId ≠ none)
    (live : state.live = true) (acting : scope.acting = true) :
    Move scope s (s.editDirect attemptId fun p =>
      { p with state := state, unknownAt := unknownAt p.unknownAt })
  /-- A direct attempt is over. -/
  | conclude {s : MemoryScheduler} (attemptId : String) (state : PermitState → PermitState)
    (idleVerified : Bool → Bool) (aside : s.Aside attemptId) (ended : ∀ p, (state p).live = false)
    (unproven : scope.probing = true ∨ idleVerified = id)
    (cause : scope.acting = true ∨ s.Ends attemptId state idleVerified)
    (ending : scope.ending attemptId) :
    Move scope s (s.endDirect attemptId fun p =>
      { p with state := state p.state, idleVerified := idleVerified p.idleVerified })
  /-- A durable permit shows what the ledger says. -/
  | observe {s : MemoryScheduler} (attemptId : String) (state : PermitState)
    (reported : scope.reported attemptId) :
    Move scope s
      { s with permits := s.permits.modify attemptId fun p => { p with state := state } }
  /-- The permit of an attempt that is over in the ledger is given back. -/
  | drop {s : MemoryScheduler} (attemptId : String) (isOver : scope.gone attemptId) :
    Move scope s (s.release attemptId)
  /-- A pool is read again. -/
  | adopt {s : MemoryScheduler} (pool : Pool) (allowed : scope.refreshing = true)
    (fits : scope.known pool) : Move scope s { s with pools := s.pools.put pool }
  /-- The loop has the control plane again. -/
  | regain {s : MemoryScheduler} (allowed : scope.refreshing = true) :
    Move scope s { s with controlReady := true }
  /-- A probe begins or ends a streak. -/
  | weigh {s : MemoryScheduler} (unknownIdle : String → Option Streak)
    (allowed : scope.probing = true) :
    Move scope s { s with unknownIdle := unknownIdle }
  /-- An executor starts waiting. -/
  | wait {s : MemoryScheduler} (waiter : Waiter) (allowed : scope.durable = true)
    (asked : scope.asked waiter.identity) (queueing : scope.queueing = true)
    (absent : s.waiters.find? waiter.identity = none) (kind : waiter.kind = .durable) :
    Move scope s (s.addWaiter waiter)
  /-- A waiting executor gets a permit. -/
  | grantDurable {s : MemoryScheduler} {pool : Pool} (call : DurableCall)
    (allowed : scope.durable = true) (asked : scope.asked call.attemptId)
    (fits : scope.known pool) (named : pool.spec.poolId = call.poolId)
    (room : SlotCapacity.tryAcquire pool s.permits s.pools call.workloadClass) :
    Move scope s (s.grantDurable call)

variable {scope : Scope} {s s' : MemoryScheduler}

/-- A sequence of moves. -/
abbrev Path (scope : Scope) : MemoryScheduler → MemoryScheduler → Prop :=
  ReflTransGen (Move scope)

theorem Path.quiet (same : Same s s')
    (steady : s'.readyByPool = s.readyByPool ∧ s'.slotIdle = s.slotIdle)
    (control : s'.controlReady = s.controlReady) : Path scope s s' :=
  .single (.quiet same (Or.inr steady) (Or.inr control))

/-- A loop that makes moves makes moves, while what its items rely on holds. -/
theorem Path.foldl_of {α : Type} {f : MemoryScheduler → α → MemoryScheduler} {items : List α}
    (holds : MemoryScheduler → Prop)
    (step : ∀ s, holds s → ∀ item ∈ items, Path scope s (f s item) ∧ holds (f s item))
    {s : MemoryScheduler} (start : holds s) : Path scope s (items.foldl f s) := by
  induction items generalizing s with
  | nil => exact .refl
  | cons item rest ih =>
    obtain ⟨path, kept⟩ := step s start item List.mem_cons_self
    exact path.trans (ih (fun s here item member =>
      step s here item (List.mem_cons_of_mem _ member)) kept)

/-- A loop that makes moves makes moves. -/
theorem Path.foldl {α : Type} (f : MemoryScheduler → α → MemoryScheduler) (items : List α)
    (step : ∀ s, ∀ item ∈ items, Path scope s (f s item)) (s : MemoryScheduler) :
    Path scope s (items.foldl f s) :=
  Path.foldl_of (fun _ => True) (fun s _ item member => ⟨step s item member, trivial⟩) trivial

/-! ### What the queues leave alone -/

section Queues

variable (s)

@[simp] theorem removeWaiter_permits (identity : String) :
    (s.removeWaiter identity).permits = s.permits := by
  unfold MemoryScheduler.removeWaiter
  split <;> rfl

@[simp] theorem removeWaiter_pools (identity : String) :
    (s.removeWaiter identity).pools = s.pools := by
  unfold MemoryScheduler.removeWaiter
  split <;> rfl

@[simp] theorem removeWaiter_directAttempts (identity : String) :
    (s.removeWaiter identity).directAttempts = s.directAttempts := by
  unfold MemoryScheduler.removeWaiter
  split <;> rfl

@[simp] theorem removeWaiter_requestIdentity (identity : String) :
    (s.removeWaiter identity).requestIdentity = s.requestIdentity := by
  unfold MemoryScheduler.removeWaiter
  split <;> rfl

@[simp] theorem removeWaiter_queues (identity : String) :
    (s.removeWaiter identity).queues = s.queues := by
  unfold MemoryScheduler.removeWaiter
  split <;> rfl

@[simp] theorem find?_removeWaiter (identity other : String) :
    (s.removeWaiter identity).waiters.find? other =
      if identity = other then none else s.waiters.find? other := by
  unfold MemoryScheduler.removeWaiter
  split
  · rename_i absent
    split
    · rename_i same
      rw [← same, absent]
    · rfl
  · exact Table.find?_erase

variable (reservation : DirectReservation) (call : DurableCall)

@[simp] theorem grant_permits :
    (s.grant reservation).permits = s.permits.put reservation.permit := by
  simp [MemoryScheduler.grant]

@[simp] theorem grant_pools : (s.grant reservation).pools = s.pools := by
  simp [MemoryScheduler.grant]

@[simp] theorem grant_directAttempts :
    (s.grant reservation).directAttempts = s.directAttempts.put reservation.permit := by
  simp [MemoryScheduler.grant]

@[simp] theorem grant_waiters :
    (s.grant reservation).waiters = (s.removeWaiter reservation.request.requestId).waiters := rfl

@[simp] theorem grant_requestIdentity :
    (s.grant reservation).requestIdentity = s.requestIdentity := by
  simp [MemoryScheduler.grant]

@[simp] theorem grantDurable_permits :
    (s.grantDurable call).permits = s.permits.put call.permit := by
  simp [MemoryScheduler.grantDurable]

@[simp] theorem grantDurable_pools : (s.grantDurable call).pools = s.pools := by
  simp [MemoryScheduler.grantDurable]

@[simp] theorem grantDurable_directAttempts :
    (s.grantDurable call).directAttempts = s.directAttempts := by
  simp [MemoryScheduler.grantDurable]

end Queues

/-! ### Turns consist of moves -/

section Turns

/-- The queue of one pool gets shorter, and keeps what stands for a waiter. -/
theorem prunes_update {poolId : String} {entries : List Entry}
    (sublist : entries.Sublist (s.queues poolId))
    (live : ∀ entry ∈ s.queues poolId, s.Live poolId entry → entry ∈ entries) :
    s.Prunes (Function.update s.queues poolId entries) := by
  refine ⟨fun other => ?_, fun other entry member lives => ?_⟩
  · rcases eq_or_ne other poolId with rfl | apart
    · rwa [Function.update_self]
    · rw [Function.update_of_ne apart]
  · rcases eq_or_ne other poolId with rfl | apart
    · rw [Function.update_self]
      exact live entry member lives
    · rwa [Function.update_of_ne apart]

/-- A waiter that leaves makes no entry stand for a waiter. -/
theorem Live.of_removeWaiter {identity poolId : String} {entry : Entry}
    (lives : (s.removeWaiter identity).Live poolId entry) : s.Live poolId entry := by
  obtain ⟨waiter, found, here⟩ := lives
  rw [find?_removeWaiter] at found
  split at found
  · cases found
  · exact ⟨waiter, found, here⟩

/-- Reading a queue drops late waiters on the way, and what stands before the head. -/
theorem scan_path (now : Time) (poolId : String) (entries : List Entry) (s : MemoryScheduler)
    (sublist : entries.Sublist (s.queues poolId))
    (live : ∀ entry ∈ s.queues poolId, s.Live poolId entry → entry ∈ entries) :
    Path scope s (MemoryScheduler.scan now poolId entries s).2 := by
  fun_induction MemoryScheduler.scan now poolId entries s with
  | case1 s => exact .single (.prune _ (prunes_update sublist live))
  | case2 entry rest s waiter found here late ih =>
    -- the entry of the late waiter goes with it
    refine .head (.withdraw entry.identity) (ih ?_ fun other member lives => ?_)
    · rw [removeWaiter_queues]
      exact (List.sublist_cons_self entry rest).trans sublist
    · rw [removeWaiter_queues] at member
      refine (List.mem_cons.mp (live other member (Live.of_removeWaiter lives))).resolve_left ?_
      rintro rfl
      obtain ⟨waiter', found', -⟩ := lives
      rw [find?_removeWaiter, if_pos rfl] at found'
      cases found'
  | case3 entry rest s waiter found here early =>
    exact .single (.prune _ (prunes_update sublist live))
  | case4 entry rest s waiter found elsewhere ih =>
    refine ih ((List.sublist_cons_self entry rest).trans sublist) fun other member lives => ?_
    refine (List.mem_cons.mp (live other member lives)).resolve_left ?_
    rintro rfl
    obtain ⟨waiter', found', here⟩ := lives
    obtain rfl := Option.some.inj (found.symm.trans found')
    exact elsewhere here
  | case5 entry rest s absent ih =>
    refine ih ((List.sublist_cons_self entry rest).trans sublist) fun other member lives => ?_
    refine (List.mem_cons.mp (live other member lives)).resolve_left ?_
    rintro rfl
    obtain ⟨waiter', found', -⟩ := lives
    rw [absent] at found'
    cases found'

theorem first_path (now : Time) (poolId : String) (s : MemoryScheduler) :
    Path scope s (s.first now poolId).2 :=
  scan_path now poolId (s.queues poolId) s (List.Sublist.refl _) fun _ member _ => member

theorem scan_permits (now : Time) (poolId : String) (entries : List Entry) (s : MemoryScheduler) :
    (MemoryScheduler.scan now poolId entries s).2.permits = s.permits := by
  fun_induction MemoryScheduler.scan now poolId entries s with
  | case1 s => rfl
  | case2 entry rest s waiter found here late ih => rw [ih, removeWaiter_permits]
  | case3 entry rest s waiter found here early => rfl
  | case4 entry rest s waiter found elsewhere ih => exact ih
  | case5 entry rest s absent ih => exact ih

theorem scan_pools (now : Time) (poolId : String) (entries : List Entry) (s : MemoryScheduler) :
    (MemoryScheduler.scan now poolId entries s).2.pools = s.pools := by
  fun_induction MemoryScheduler.scan now poolId entries s with
  | case1 s => rfl
  | case2 entry rest s waiter found here late ih => rw [ih, removeWaiter_pools]
  | case3 entry rest s waiter found here early => rfl
  | case4 entry rest s waiter found elsewhere ih => exact ih
  | case5 entry rest s absent ih => exact ih

/-- The waiter at the head of a queue is a waiter of the scheduler. -/
theorem scan_found {now : Time} {poolId : String} {entries : List Entry} {s : MemoryScheduler}
    {waiter : Waiter} (head : (MemoryScheduler.scan now poolId entries s).1 = some waiter) :
    (MemoryScheduler.scan now poolId entries s).2.waiters.find? waiter.identity = some waiter := by
  fun_induction MemoryScheduler.scan now poolId entries s with
  | case1 s => cases head
  | case2 entry rest s waiter' found here late ih => exact ih head
  | case3 entry rest s waiter' found here early =>
    obtain rfl : waiter' = waiter := Option.some.inj head
    have named : waiter'.identity = entry.identity := Table.key_of_find? found
    rw [named]
    exact found
  | case4 entry rest s waiter' found elsewhere ih => exact ih head
  | case5 entry rest s absent ih => exact ih head

theorem expireDirty_path (now : Time) : Path scope s (s.expireDirty now) :=
  .quiet ⟨rfl, rfl, rfl, rfl, rfl, rfl, rfl, id, rfl, rfl, rfl, rfl⟩ ⟨rfl, rfl⟩ rfl

theorem pool_looks (poolId : String) :
    (pool poolId).Looks s fun pool => s.pools.find? poolId = some pool := by
  unfold pool
  refine Turn.looks_get_bind ?_
  split
  · exact Turn.looks_pure ‹_›
  · exact Turn.looks_throw _

theorem validate_looks (request : DirectRequest) (pool : Pool) :
    (validate request pool).Looks s fun _ => True := by
  unfold validate
  dsimp only
  split
  · exact Turn.looks_throw _
  · exact Turn.looks_pure trivial

theorem nextGeneration_looks (request : DirectRequest) (poolId ownerId : String) (pool : Pool)
    (previous : Option String) :
    (nextGeneration request poolId ownerId pool previous).Looks s fun _ => True := by
  cases previous with
  | none => exact Turn.looks_pure trivial
  | some previousAttemptId =>
    unfold nextGeneration
    refine Turn.looks_get_bind ?_
    split
    · exact Turn.looks_throw _
    · split
      · exact Turn.looks_throw _
      · split
        · exact Turn.looks_throw _
        · split
          · exact Turn.looks_throw _
          · split <;> exact Turn.looks_pure trivial

/-- Reading the head of a queue: the moves, and what is known of the head afterwards. -/
theorem first_moves {α : Type} {clock : Clock} {poolId : String} {f : Option Waiter → Code α}
    (rest : ∀ head s', s'.permits = s.permits → s'.pools = s.pools →
      (∀ waiter, head = some waiter → s'.waiters.find? waiter.identity = some waiter) →
      (f head).Moves (Move scope) s') :
    (first clock poolId >>= f).Moves (Move scope) s :=
  Turn.Moves.bind (first_path clock.monotonic poolId s) fun head s' ran => by
    cases ran
    exact rest _ _ (scan_permits _ _ _ s) (scan_pools _ _ _ s) fun waiter head => scan_found head

/-- The head of a queue is read, and the turn goes on from there. -/
theorem first_ensures {α : Type} {clock : Clock} {poolId : String} {f : Option Waiter → Code α}
    {post : Except SchedulerError α → MemoryScheduler → Prop}
    (rest : (f (s.first clock.monotonic poolId).1).Ensures (s.first clock.monotonic poolId).2 post) :
    (first clock poolId >>= f).Ensures s post := Turn.ensures_bind.mpr rest

theorem reserve_moves (clock : Clock) {uuid : String} (drawn : scope.drawn uuid)
    (request : DirectRequest) (poolId ownerId : String) (previous : Option String) :
    (reserve clock uuid request poolId ownerId previous).Moves (Move scope) s := by
  unfold reserve
  refine Turn.Moves.modify_bind (expireDirty_path clock.monotonic) ?_
  refine (pool_looks poolId).bind_moves fun pool found => ?_
  refine Turn.Moves.get_bind ?_
  split
  · exact Turn.moves_pure _
  · rename_i waiter waits
    split
    · exact Turn.moves_pure _
    · split
      · exact Turn.moves_pure _
      · refine (validate_looks request pool).bind_moves fun _ _ => ?_
        split
        · exact Turn.moves_throw _
        · refine (nextGeneration_looks request poolId ownerId pool previous).bind_moves
            fun generation _ => ?_
          split
          · exact Turn.moves_pure _
          · refine first_moves fun head s' permits pools here => Turn.Moves.get_bind ?_
            split
            · rename_i guard
              obtain ⟨head, room⟩ := guard
              have named : waiter.identity = request.requestId := Table.key_of_find? waits
              have waits' := here waiter head
              rw [named] at waits'
              refine Turn.Moves.modify_bind (.single (.grant _ drawn waits' ?_ room))
                (Turn.moves_pure _)
              rw [pools]
              exact found
            · exact Turn.moves_pure _

/-- The guard of `_enqueue`: the identity is not remembered, or its latest attempt
can be repeated. -/
def MemoryScheduler.MayAdmit (s : MemoryScheduler) (request : DirectRequest) (ownerId : String) :
    Prop :=
  match s.requestIdentity.find? request.requestId with
  | none => True
  | some known => known.request = request ∧ known.ownerId = ownerId ∧
      s.waiters.find? request.requestId = none ∧
      ∀ latest, s.latest request.requestId = some latest → latest.state.retryable = true

/-- The limits of the queues leave room for one more request. -/
def MemoryScheduler.HasRoom (s : MemoryScheduler) (request : DirectRequest) (poolId : String) :
    Prop :=
  s.queueCounts poolId < s.settings.endpointLimit ∧
    s.tenantCounts (poolId, request.tenantId) < s.settings.tenantLimit

theorem joinQueue_ensures (clock : Clock) (request : DirectRequest) (poolId ownerId : String)
    (pool : Pool) :
    (joinQueue clock request poolId ownerId pool).Ensures s fun _ s' =>
      s' = s ∨ (s.HasRoom request poolId ∧ s' = s.admitted clock request poolId ownerId) := by
  unfold joinQueue
  refine Turn.ensures_bind.mpr (Turn.ensures_get.mpr ?_)
  dsimp only
  split
  · exact Or.inl rfl
  · split
    · exact Or.inl rfl
    · rename_i room
      rw [not_or, not_le, not_le] at room
      refine (validate_looks request pool).bind_ensures (fun _ => Or.inl rfl) fun _ _ => ?_
      exact Or.inr ⟨room, rfl⟩

/-- A request has joined the queue, or nothing has changed. -/
def Entered (clock : Clock) (request : DirectRequest) (poolId ownerId : String)
    (s s' : MemoryScheduler) : Prop :=
  s' = s ∨ (s.MayAdmit request ownerId ∧ s.HasRoom request poolId ∧
    s' = s.admitted clock request poolId ownerId)

/-- A request joins the queue if the guard allows, or nothing changes. -/
theorem enqueue_ensures (clock : Clock) (request : DirectRequest) (poolId ownerId : String) :
    (enqueue clock request poolId ownerId).Ensures s fun _ s' =>
      Entered clock request poolId ownerId s s' := by
  unfold enqueue
  refine (pool_looks poolId).bind_ensures (fun _ => Or.inl rfl) fun pool found => ?_
  refine Turn.ensures_bind.mpr (Turn.ensures_get.mpr ?_)
  dsimp only
  have admits (guard : s.MayAdmit request ownerId) :
      (joinQueue clock request poolId ownerId pool).Ensures s fun _ s' =>
        Entered clock request poolId ownerId s s' :=
    (joinQueue_ensures clock request poolId ownerId pool).mono fun _ s' ends =>
      ends.imp_right fun joined => ⟨guard, joined⟩
  split
  · rename_i unknown
    refine admits ?_
    rw [MemoryScheduler.MayAdmit, unknown]
    trivial
  · rename_i identity known
    split
    · exact Or.inl rfl
    · rename_i same
      rw [not_or, not_not, not_not] at same
      split
      · exact Or.inl rfl
      · rename_i absent
        split
        · rename_i none_before
          refine admits ?_
          rw [MemoryScheduler.MayAdmit, known]
          exact ⟨same.1, same.2, absent, fun latest here => by rw [none_before] at here; cases here⟩
        · rename_i latest before
          split
          · rename_i retryable
            refine admits ?_
            rw [MemoryScheduler.MayAdmit, known]
            refine ⟨same.1, same.2, absent, fun latest' here => ?_⟩
            rw [before] at here
            exact Option.some.inj here ▸ retryable
          · exact Or.inl rfl

theorem abandon_path (poolId : String) {requestId : String} (disowned : scope.disowned requestId) :
    Path scope s (s.abandon poolId requestId) := by
  have withdraw : Path scope s (s.removeWaiter requestId) := .single (.withdraw requestId)
  have gone : (s.removeWaiter requestId).waiters.find? requestId = none := by
    rw [find?_removeWaiter, if_pos rfl]
  have disown := withdraw.tail (.disown requestId gone disowned)
  refine disown.tail (.prune _ (prunes_update ?_ fun entry member lives => ?_))
  · exact List.filter_sublist
  · -- the request does not wait any more
    refine List.mem_filter.mpr ⟨member, decide_eq_true fun same => ?_⟩
    obtain ⟨waiter, found, -⟩ := lives
    have waits : (s.removeWaiter requestId).waiters.find? entry.identity = some waiter := found
    rw [same, gone] at waits
    cases waits

theorem tryAdmitted_ensures (clock : Clock) {uuid : String} (drawn : scope.drawn uuid)
    (request : DirectRequest) (poolId ownerId : String) :
    (tryAdmitted clock uuid request poolId ownerId).Ensures s fun _ s' =>
      ∃ s₁, Entered clock request poolId ownerId s s₁ ∧ Path scope s₁ s' := by
  unfold tryAdmitted
  refine Turn.ensures_attempt_bind.mpr ?_
  have entered : Entered clock request poolId ownerId s
      ((enqueue clock request poolId ownerId).final s) :=
    enqueue_ensures clock request poolId ownerId
  split
  · exact ⟨_, entered, .refl⟩
  · exact ⟨_, entered, .refl⟩
  · have moves : (reserve clock uuid request poolId ownerId none).Moves (Move scope)
        ((enqueue clock request poolId ownerId).final s) :=
      reserve_moves clock drawn request poolId ownerId none
    refine (Turn.Moves.bind moves fun value s' ran => ?_).ensures
      fun s' path => ⟨_, entered, path⟩
    split <;> exact Turn.moves_pure _

theorem tryReserve_ensures (clock : Clock) {uuid : String} (drawn : scope.drawn uuid)
    {request : DirectRequest} (disowned : scope.disowned request.requestId)
    (poolId ownerId : String) :
    (tryReserve clock uuid request poolId ownerId).Ensures s fun _ s' =>
      ∃ s₁, Entered clock request poolId ownerId s s₁ ∧ Path scope s₁ s' := by
  unfold tryReserve
  refine Turn.ensures_bind.mpr (Turn.ensures_get.mpr ?_)
  dsimp only
  split
  · exact ⟨s, Or.inl rfl, .refl⟩
  · split
    · exact ⟨s, Or.inl rfl, .refl⟩
    · split
      · exact ⟨s, Or.inl rfl, .refl⟩
      · split
        · exact ⟨s, Or.inl rfl, .refl⟩
        · unfold Turn.Ensures
          rw [Turn.final_cleanup]
          obtain ⟨s₁, entered, path⟩ :=
            @tryAdmitted_ensures scope s clock uuid drawn request poolId ownerId
          refine ⟨s₁, entered, ?_⟩
          split
          · exact path
          · exact path.trans (abandon_path _ disowned)

theorem direct_looks (reservation : DirectReservation) :
    (direct reservation).Looks s fun attempt =>
      s.directAttempts.find? reservation.attemptId = some attempt ∧
        attempt.reservation = some reservation := by
  unfold direct
  refine Turn.looks_get_bind ?_
  split
  · exact Turn.looks_throw _
  · split
    · exact Turn.looks_pure ⟨‹_›, ‹_›⟩
    · exact Turn.looks_throw _

theorem markSend_moves (acting : scope.acting = true) (clock : Clock)
    (reservation : DirectReservation) :
    (markSend clock reservation).Moves (Move scope) s := by
  unfold markSend
  refine (direct_looks reservation).bind_moves fun attempt _ => Turn.Moves.get_bind ?_
  split
  · exact Turn.moves_throw _
  · rename_i guard
    rw [not_or, not_or] at guard
    exact Turn.moves_modify (.single (.progress _ .sendIntent id guard.2.1 rfl acting))

/-- A call of `finish` finds its attempt, and the evidence fits. -/
def MemoryScheduler.Finishes (s : MemoryScheduler) (reservation : DirectReservation)
    (evidence : Evidence) : Prop :=
  ∃ attempt ∈ s.directAttempts.find? reservation.attemptId,
    attempt.reservation = some reservation ∧
      ¬ (evidence = .completedResponse ∧ attempt.state = .reserved)

theorem finish_moves (acting : scope.acting = true) {reservation : DirectReservation}
    {evidence : Evidence} (ending : s.Finishes reservation evidence →
      scope.ending reservation.attemptId) :
    (finish reservation evidence).Moves (Move scope) s := by
  unfold finish
  refine (direct_looks reservation).bind_moves fun attempt found => Turn.Moves.get_bind ?_
  have named : attempt.attemptId = reservation.attemptId := Table.key_of_find? found.1
  have aside : s.Aside attempt.attemptId := by
    rw [named]
    exact Or.inl (found.1 ▸ Option.some_ne_none attempt)
  split
  · exact Turn.moves_throw _
  · rename_i fits
    have ending := ending ⟨attempt, found.1, found.2, fits⟩
    split
    · exact Turn.moves_pure _
    · have ended : ∀ _ : PermitState, evidence.state.live = false := fun _ => by
        cases evidence <;> rfl
      exact Turn.moves_modify
        (.single (.conclude _ (fun _ => evidence.state) id aside ended (Or.inr rfl) (Or.inl acting)
          (named ▸ ending)))

theorem unknown_moves (acting : scope.acting = true) (clock : Clock)
    (reservation : DirectReservation) :
    (unknown clock reservation).Moves (Move scope) s := by
  unfold unknown
  refine (direct_looks reservation).bind_moves fun attempt _ => Turn.Moves.get_bind ?_
  split
  · exact Turn.moves_pure _
  · rename_i held
    exact Turn.moves_modify (.single
      (.progress _ .unknown (fun _ => some clock.utc) held rfl acting))

theorem leave_moves (requestId ownerId : String) :
    (leave requestId ownerId).Moves (Move scope) s := by
  unfold leave
  refine Turn.moves_modify ?_
  split
  · split
    · exact .single (.withdraw requestId)
    · exact .refl
  · exact .refl

/-- The request that a call may let join the queue of a pool, and for whom. -/
def DirectCall.enters : DirectCall → Option (DirectRequest × String × String)
  | .enqueue request poolId ownerId | .tryReserve request poolId ownerId =>
    some (request, poolId, ownerId)
  | _ => none

theorem joins_of_enters {call : DirectCall} {request : DirectRequest} {poolId ownerId : String}
    (enters : call.enters = some (request, poolId, ownerId)) : call.joins = some request := by
  cases call with
  | enqueue | tryReserve =>
    cases enters
    rfl
  | _ => cases enters

/-- The attempt that a call draws or ends, and the identity that it takes back, are in scope. -/
def DirectCall.Fits (scope : Scope) (s : MemoryScheduler) (uuid : String) : DirectCall → Prop
  | .reserve _ _ _ | .retryConfirmed _ _ _ _ => scope.drawn uuid
  | .tryReserve request _ _ => scope.drawn uuid ∧ scope.disowned request.requestId
  | .finish reservation evidence =>
    s.Finishes reservation evidence → scope.ending reservation.attemptId
  | .enqueue _ _ _ | .markSend _ | .unknown _ | .leave _ _ => True

theorem DirectCall.fits_of_free {uuid : String} (drawn : scope.drawn uuid)
    (ending : ∀ attemptId, scope.ending attemptId)
    (disowned : ∀ identity, scope.disowned identity) (call : DirectCall) :
    call.Fits scope s uuid := by
  cases call with
  | finish => exact fun _ => ending _
  | tryReserve => exact ⟨drawn, disowned _⟩
  | reserve | retryConfirmed => exact drawn
  | enqueue | markSend | unknown | leave => trivial

/-- A direct call lets its request join the queue if the guard allows, and goes on by
moves. -/
theorem directCall_ensures (acting : scope.acting = true) (clock : Clock) {uuid : String}
    {call : DirectCall} (fits : call.Fits scope s uuid) :
    (call.code clock uuid).Ensures s fun _ s' => ∃ s₁,
      (s₁ = s ∨ ∃ request poolId ownerId, call.enters = some (request, poolId, ownerId) ∧
        s.MayAdmit request ownerId ∧ s.HasRoom request poolId ∧
        s₁ = s.admitted clock request poolId ownerId) ∧
      Path scope s₁ s' := by
  have moved {α : Type} {p : Code α} (moves : p.Moves (Move scope) s) :
      (discard p).Ensures s fun _ s' => ∃ s₁,
        (s₁ = s ∨ ∃ request poolId ownerId, call.enters = some (request, poolId, ownerId) ∧
          s.MayAdmit request ownerId ∧ s.HasRoom request poolId ∧
          s₁ = s.admitted clock request poolId ownerId) ∧
        Path scope s₁ s' :=
    moves.discard.ensures fun s' path => ⟨s, Or.inl rfl, path⟩
  cases call with
  | enqueue request poolId ownerId =>
    refine Turn.ensures_discard.mpr ((enqueue_ensures clock request poolId ownerId).mono ?_)
    rintro _ s' (same | entered)
    · exact ⟨s', Or.inl same, .refl⟩
    · exact ⟨s', Or.inr ⟨request, poolId, ownerId, rfl, entered⟩, .refl⟩
  | reserve request poolId ownerId => exact moved (reserve_moves _ fits _ _ _ _)
  | retryConfirmed request poolId ownerId previous => exact moved (reserve_moves _ fits _ _ _ _)
  | tryReserve request poolId ownerId =>
    have entered := @tryReserve_ensures scope s clock uuid fits.1 request fits.2 poolId ownerId
    refine Turn.ensures_discard.mpr (entered.mono ?_)
    rintro _ s' ⟨s₁, same | entered, path⟩
    · exact ⟨s₁, Or.inl same, path⟩
    · exact ⟨s₁, Or.inr ⟨request, poolId, ownerId, rfl, entered⟩, path⟩
  | markSend reservation =>
    exact (markSend_moves acting clock reservation).ensures fun s' path => ⟨s, Or.inl rfl, path⟩
  | finish reservation evidence =>
    exact (finish_moves acting fits).ensures fun s' path => ⟨s, Or.inl rfl, path⟩
  | unknown reservation =>
    exact (unknown_moves acting clock reservation).ensures fun s' path => ⟨s, Or.inl rfl, path⟩
  | leave requestId ownerId =>
    exact (leave_moves requestId ownerId).ensures fun s' path => ⟨s, Or.inl rfl, path⟩

end Turns

/-! ### Durable calls -/

section Durable

/-- A call in its loop is about an attempt that executors may ask for, and waits under its
identifier. -/
def DurableWait.Asked (scope : Scope) (wait : DurableWait) : Prop :=
  scope.asked wait.call.attemptId ∧ wait.waiter.identity = wait.call.attemptId

/-- A suspended call is about an attempt that executors may ask for or give back, and keeps
a pool that is known and is the pool it asks for. -/
def Suspended.Knows (scope : Scope) : Suspended → Prop
  | .identifying call => scope.asked call.attemptId
  | .waiting wait => wait.Asked scope
  | .validating wait pool =>
    wait.Asked scope ∧ scope.known pool ∧ pool.spec.poolId = wait.call.poolId
  | .releasing attemptId => scope.returned attemptId

/-- What the ledger answers a call is in scope: a permit is freed for an attempt that is over. -/
def Scope.Hears (scope : Scope) : Suspended → Answer → Prop
  | .releasing attemptId, .computeHeld held => held ≠ some true → scope.gone attemptId
  | _, _ => True

theorem Scope.hears_of_gone (gone : ∀ attemptId, scope.gone attemptId) (on : Suspended)
    (answer : Answer) : scope.Hears on answer := by
  unfold Scope.Hears
  split
  · exact fun _ => gone _
  · trivial

/-- A turn of a durable call makes moves, and stays suspended on what is known. -/
def Advances (scope : Scope) (s : MemoryScheduler) (outcome : Except SchedulerError Progress)
    (s' : MemoryScheduler) : Prop :=
  Path scope s s' ∧ ∀ on, outcome = .ok (.suspended on) → on.Knows scope

theorem Advances.of_path {s₁ : MemoryScheduler} {outcome : Except SchedulerError Progress}
    (path : Path scope s s₁) (later : Advances scope s₁ outcome s') :
    Advances scope s outcome s' := ⟨path.trans later.1, later.2⟩

theorem advances_done : Advances scope s (.ok .done) s :=
  ⟨.refl, fun _ stopped => by cases stopped⟩

theorem advances_error (error : SchedulerError) : Advances scope s (.error error) s :=
  ⟨.refl, fun _ stopped => by cases stopped⟩

theorem advances_suspended {on : Suspended} (knows : on.Knows scope) :
    Advances scope s (.ok (.suspended on)) s :=
  ⟨.refl, fun _ stopped => by cases stopped; exact knows⟩

theorem leaveDurable_path (waiter : Waiter) : Path scope s (s.leaveDurable waiter) := by
  unfold MemoryScheduler.leaveDurable
  have counted : Path scope s { s with
      durableWaiterRefs := Function.update s.durableWaiterRefs waiter.identity
        (max (s.durableWaiterRefs waiter.identity - 1) 0) } :=
    .quiet ⟨rfl, rfl, rfl, rfl, rfl, rfl, rfl, id, rfl, rfl, rfl, rfl⟩ ⟨rfl, rfl⟩ rfl
  dsimp only
  split
  · exact counted.tail (.withdraw _)
  · exact counted

theorem cleanup_advances {p : Code Progress} {waiter : Waiter}
    (advances : p.Ensures s (Advances scope s)) :
    (p.cleanup (unlessSuspended waiter)).Ensures s (Advances scope s) := by
  unfold Turn.Ensures at advances ⊢
  rw [Turn.final_cleanup, Turn.outcome_cleanup]
  refine ⟨advances.1.trans ?_, advances.2⟩
  unfold unlessSuspended
  split
  · exact .refl
  · exact leaveDurable_path waiter

theorem first_advances {clock : Clock} {poolId : String} {f : Option Waiter → Code Progress}
    (rest : ∀ head s', (f head).Ensures s' (Advances scope s')) :
    (first clock poolId >>= f).Ensures s (Advances scope s) := by
  have later := rest (s.first clock.monotonic poolId).1 (s.first clock.monotonic poolId).2
  have path : Path scope s (s.first clock.monotonic poolId).2 := first_path _ _ s
  exact first_ensures (later.mono fun _ _ => Advances.of_path path)

/-- The waiter with which a durable call joins the queue. -/
def DurableCall.waiter (call : DurableCall) (clock : Clock) (operationCreatedAt : Time)
    (ref : ℕ) : Waiter where
  ref := ref
  identity := call.attemptId
  tenantId := ""
  poolId := call.poolId
  ownerId := call.ownerId
  workloadClass := call.workloadClass
  deadline := clock.monotonic + max 0 (call.deadline - clock.utc)
  queuedAt := clock.monotonic - max 0 (clock.utc - operationCreatedAt)
  kind := .durable

/-- An executor has joined the queue with the row of its attempt, or nothing has changed. -/
def Queues (clock : Clock) (call : DurableCall) (row : Option LedgerAttempt)
    (s s' : MemoryScheduler) : Prop :=
  s' = s ∨ ∃ actual, row = some actual ∧ s.waiters.find? call.attemptId = none ∧
    s' = s.addWaiter (call.waiter clock actual.operationCreatedAt s.nextRef)

theorem Queues.pools {clock : Clock} {call : DurableCall} {row : Option LedgerAttempt}
    (queues : Queues clock call row s s') : s'.pools = s.pools := by
  rcases queues with rfl | ⟨actual, -, -, rfl⟩ <;> rfl

/-- A suspended call lets its executor join the queue, or changes nothing. -/
def Joins (clock : Clock) (on : Suspended) (answer : Answer) (s s' : MemoryScheduler) : Prop :=
  s' = s ∨ ∃ call row, on = .identifying call ∧ answer = .attempt row ∧
    ∃ actual, row = some actual ∧ s.waiters.find? call.attemptId = none ∧
      s' = s.addWaiter (call.waiter clock actual.operationCreatedAt s.nextRef)

theorem durableWaiter_joins (clock : Clock) (call : DurableCall) (actual : LedgerAttempt) :
    (durableWaiter clock call actual.operationCreatedAt).Ensures s fun outcome s' =>
      Queues clock call (some actual) s s' ∧
        ∀ waiter, outcome = .ok waiter → waiter.identity = call.attemptId := by
  unfold durableWaiter
  refine Turn.ensures_bind.mpr (Turn.ensures_get.mpr ?_)
  dsimp only
  split
  · rename_i absent
    refine ⟨Or.inr ⟨actual, rfl, absent, rfl⟩, ?_⟩
    rintro waiter ⟨⟩
    rfl
  · rename_i found
    split
    · exact ⟨Or.inl rfl, fun _ failed => by cases failed⟩
    · refine ⟨Or.inl rfl, ?_⟩
      rintro waiter ⟨⟩
      exact Table.key_of_find? found

theorem checkPool_looks (call : DurableCall) (operation : OperationSpec) (pool : Pool) :
    (checkPool call operation pool).Looks s fun _ => True := by
  unfold checkPool
  split
  · exact Turn.looks_throw _
  · split
    · exact Turn.looks_throw _
    · exact Turn.looks_pure trivial

theorem durableRelease_advances {attemptId : String} (returned : scope.returned attemptId)
    (ownerId : String) : (durableRelease attemptId ownerId).Ensures s (Advances scope s) := by
  unfold durableRelease
  refine Turn.ensures_bind.mpr (Turn.ensures_get.mpr ?_)
  dsimp only
  split
  · exact advances_done
  · split
    · exact advances_error _
    · exact advances_suspended returned

theorem interrupted_path (on : Suspended) : Path scope s (interrupted on s) := by
  cases on with
  | waiting wait => exact leaveDurable_path wait.waiter
  | validating wait pool => exact leaveDurable_path wait.waiter
  | identifying call => exact .refl
  | releasing attemptId => exact .refl

variable (executors : scope.durable = true)

include executors

theorem dispatch_advances (clock : Clock) (wait : DurableWait) {pool : Pool}
    (asked : wait.Asked scope) (fits : scope.known pool)
    (named : pool.spec.poolId = wait.call.poolId) :
    (dispatch clock wait pool).Ensures s (Advances scope s) := by
  unfold dispatch
  refine Turn.ensures_bind.mpr (Turn.ensures_get.mpr ?_)
  dsimp only
  split
  · exact advances_error _
  · split
    · refine first_advances fun head s' => ?_
      refine Turn.ensures_bind.mpr (Turn.ensures_get.mpr ?_)
      dsimp only
      split
      · rename_i guard
        exact advances_done.of_path
          (.single (.grantDurable wait.call executors asked.1 fits named guard.2))
      · exact advances_suspended asked
    · exact advances_suspended asked

variable (knows : ∀ poolId pool, s.pools.find? poolId = some pool → scope.known pool)

include knows

theorem durableLoop_advances (clock : Clock) (wait : DurableWait) (asked : wait.Asked scope) :
    (durableLoop clock wait).Ensures s (Advances scope s) := by
  unfold durableLoop
  refine Turn.ensures_bind.mpr (Turn.ensures_modify.mpr ?_)
  have quiet : Path scope s (s.expireDirty clock.monotonic) := expireDirty_path _
  refine Turn.Ensures.mono ?_ fun _ _ => .of_path quiet
  refine (pool_looks wait.call.poolId).bind_ensures advances_error fun pool found => ?_
  refine (checkPool_looks wait.call wait.operation pool).bind_ensures advances_error fun _ _ => ?_
  refine Turn.ensures_bind.mpr (Turn.ensures_get.mpr ?_)
  dsimp only
  have fits : scope.known pool := knows _ pool found
  have named : pool.spec.poolId = wait.call.poolId := Table.key_of_find? found
  split
  · exact advances_done
  · split
    · exact advances_suspended ⟨asked, fits, named⟩
    · exact dispatch_advances executors clock wait asked fits named

theorem awaitPermit_joins (clock : Clock) (call : DurableCall)
    (asked : scope.asked call.attemptId) (actual : LedgerAttempt) :
    (awaitPermit clock call actual).Ensures s fun outcome s' =>
      ∃ s₁, Queues clock call (some actual) s s₁ ∧ Advances scope s₁ outcome s' := by
  unfold awaitPermit
  have joins := @durableWaiter_joins s clock call actual
  refine Turn.ensures_bind.mpr (joins.mono fun outcome s₁ joined => ?_)
  obtain ⟨queues, named⟩ := joined
  cases outcome with
  | error error => exact ⟨s₁, queues, advances_error error⟩
  | ok waiter =>
    refine Turn.ensures_bind.mpr (Turn.ensures_modify.mpr ?_)
    have counted : Path scope s₁ (s₁.countRef call.attemptId) :=
      .quiet ⟨rfl, rfl, rfl, rfl, rfl, rfl, rfl, id, rfl, rfl, rfl, rfl⟩ ⟨rfl, rfl⟩ rfl
    have waits : DurableWait.Asked scope
        ⟨call, actual.operation, waiter, clock.monotonic + second⟩ := ⟨asked, named waiter rfl⟩
    refine Turn.Ensures.mono (cleanup_advances (durableLoop_advances executors ?_ clock _ waits))
      fun _ _ advances => ⟨s₁, queues, .of_path counted advances⟩
    intro poolId pool found
    refine knows poolId pool ?_
    rw [← queues.pools]
    exact found

theorem identified_joins (clock : Clock) (call : DurableCall)
    (asked : scope.asked call.attemptId) (row : Option LedgerAttempt) :
    (identified clock call row).Ensures s fun outcome s' =>
      ∃ s₁, Queues clock call row s s₁ ∧ Advances scope s₁ outcome s' := by
  have refused (error : SchedulerError) :
      ∃ s₁, Queues clock call row s s₁ ∧ Advances scope s₁ (.error error) s :=
    ⟨s, Or.inl rfl, advances_error error⟩
  cases row with
  | none => exact refused _
  | some actual =>
    unfold identified
    dsimp only
    split
    · exact refused _
    · split
      · exact refused _
      · refine (pool_looks call.poolId).bind_ensures refused fun pool found => ?_
        refine (checkPool_looks call actual.operation pool).bind_ensures refused fun _ _ => ?_
        refine Turn.ensures_bind.mpr (Turn.ensures_get.mpr ?_)
        dsimp only
        split
        · split
          · exact refused _
          · exact ⟨s, Or.inl rfl, advances_done⟩
        · exact awaitPermit_joins executors knows clock call asked actual

/-- A turn of a durable call: an executor may join the queue, and moves follow. -/
theorem resume_joins (clock : Clock) {on : Suspended} (stale : on.Knows scope)
    {answer : Answer} (heard : scope.Hears on answer) :
    (resume clock on answer).Ensures s fun outcome s' =>
      ∃ s₁, Joins clock on answer s s₁ ∧ Advances scope s₁ outcome s' := by
  have goes_on {code : Code Progress} (advances : code.Ensures s (Advances scope s)) :
      code.Ensures s fun outcome s' =>
        ∃ s₁, Joins clock on answer s s₁ ∧ Advances scope s₁ outcome s' :=
    advances.mono fun _ _ advances => ⟨s, Or.inl rfl, advances⟩
  unfold resume
  split
  · rename_i call row
    refine (identified_joins executors knows clock call stale row).mono ?_
    rintro outcome s' ⟨s₁, queues, advances⟩
    exact ⟨s₁, queues.imp_right fun queues => ⟨call, row, rfl, rfl, queues⟩, advances⟩
  · exact goes_on (cleanup_advances (durableLoop_advances executors knows clock _ stale))
  · rename_i wait pool row
    refine goes_on (cleanup_advances ?_)
    unfold validated
    split
    · exact dispatch_advances executors clock _ stale.1 stale.2.1 stale.2.2
    · exact advances_error _
  · rename_i attemptId held
    refine goes_on ?_
    unfold released
    split
    · exact advances_error _
    · rename_i isOver
      exact advances_done.of_path (.single (.drop attemptId (heard isOver)))
  · exact goes_on (advances_suspended stale)

end Durable

/-! ### The maintenance loop -/

section Maintenance

/-- Pools may become usable, and the control plane may be lost, if the loop is told what could
make them so. -/
def Scope.Readies (scope : Scope) : Notice → Prop
  | .refreshed _ _ | .slots _ => scope.readying = true
  | .live _ | .failed => scope.losing = true
  | _ => True

theorem Scope.readies (readying : scope.readying = true) (losing : scope.losing = true)
    (notice : Notice) : scope.Readies notice := by
  cases notice with
  | refreshed | slots => exact readying
  | live | failed => exact losing
  | ticked | proof | settled => trivial

/-- What the loop is told is in scope: the pools are known, the ledger may report the attempts,
and those that are not live any more are over. -/
def Scope.Heeds (scope : Scope) : Maintenance → Notice → Prop
  | .refreshing, .refreshed records _ =>
    scope.refreshing = true ∧ ∀ pool ∈ records, scope.known pool
  | .reconciling active, .live held =>
    ∀ attemptId ∈ active, scope.reported attemptId ∧
      (held.reverse.lookup attemptId = none → scope.gone attemptId)
  | _, _ => True

theorem Scope.heeds_of_gone (gone : ∀ attemptId, scope.gone attemptId)
    (reported : ∀ attemptId, scope.reported attemptId) (on : Maintenance)
    {notice : Notice} (pools : ∀ records order, notice = .refreshed records order →
      scope.refreshing = true ∧ ∀ pool ∈ records, scope.known pool) : scope.Heeds on notice := by
  unfold Scope.Heeds
  split
  · exact pools _ _ rfl
  · exact fun attemptId _ => ⟨reported attemptId, fun _ => gone attemptId⟩
  · trivial

theorem find?_endDirect {attemptId other : String} {f : Permit → Permit}
    (key : ∀ p, (f p).attemptId = p.attemptId) :
    (s.endDirect attemptId f).permits.find? other =
      if attemptId = other then none else s.permits.find? other := by
  refine Table.find?_erase.trans ?_
  split
  · rfl
  · rename_i apart
    exact (Table.find?_modify key).trans (if_neg apart)

theorem find?_endStale {permit : Permit} {other : String} (apart : permit.attemptId ≠ other) :
    (s.endStale permit).permits.find? other = s.permits.find? other := by
  refine (find?_endDirect ?_).trans (if_neg apart)
  exact fun _ => rfl

/-- A loop over permits ends some of them one by one; each is there when its turn comes. -/
theorem endEach_path {f : MemoryScheduler → Permit → MemoryScheduler} {items : List Permit}
    (apart : (items.map Permit.attemptId).Nodup)
    (step : ∀ item ∈ items, ∀ s' : MemoryScheduler, s'.pools = s.pools →
      s'.permits.find? item.attemptId = some item →
      Path scope s' (f s' item) ∧ (f s' item).pools = s'.pools ∧
        ∀ id, item.attemptId ≠ id → (f s' item).permits.find? id = s'.permits.find? id)
    (s' : MemoryScheduler) (pools : s'.pools = s.pools)
    (here : ∀ item ∈ items, s'.permits.find? item.attemptId = some item) :
    Path scope s' (items.foldl f s') := by
  induction items generalizing s' with
  | nil => exact .refl
  | cons item rest ih =>
    obtain ⟨path, same, others⟩ :=
      step item List.mem_cons_self s' pools (here item List.mem_cons_self)
    rw [List.map_cons, List.nodup_cons] at apart
    refine path.trans (ih apart.2 (fun item member => step item (List.mem_cons_of_mem _ member))
      (f s' item) (same.trans pools) fun later member => ?_)
    rw [others]
    · exact here later (List.mem_cons_of_mem _ member)
    · intro equal
      exact apart.1 (equal ▸ List.mem_map_of_mem member)

/-- The permits that a filter of the rows lists are there, and have different identifiers. -/
theorem filter_rows (keeps : Permit → Bool) :
    ((s.permits.rows.filter keeps).map Permit.attemptId).Nodup ∧
      ∀ item ∈ s.permits.rows.filter keeps, s.permits.find? item.attemptId = some item :=
  ⟨(List.filter_sublist.map Permit.attemptId).nodup s.permits.nodup,
    fun _ member => Table.find?_of_mem (List.mem_of_mem_filter member)⟩

/-- The direct permits of an epoch that is over are ended one by one. -/
theorem stale_path {pool : Pool} (found : s.pools.find? pool.spec.poolId = some pool)
    (ending : ∀ permit ∈ s.stale pool.spec.poolId pool.epoch, scope.ending permit.attemptId) :
    Path scope s ((s.stale pool.spec.poolId pool.epoch).foldl MemoryScheduler.endStale s) := by
  obtain ⟨apart, here⟩ := @filter_rows s fun permit =>
    permit.poolId = pool.spec.poolId ∧ permit.engineEpoch ≠ pool.epoch ∧ permit.kind = .direct
  refine endEach_path apart (fun item member s' pools held => ?_) s rfl here
  obtain ⟨located, old, direct⟩ := of_decide_eq_true (List.mem_filter.mp member).2
  have found' : s'.pools.find? item.poolId = some pool := by rw [pools, located, found]
  have ends := MemoryScheduler.Ends.stale held direct found' (Ne.symm old)
  refine ⟨.single (.conclude item.attemptId _ id ?_ (fun state => ?_) (Or.inr rfl) (Or.inr ends)
    (ending item member)), rfl, fun id other => find?_endStale other⟩
  · exact Or.inr fun permit here => Option.some.inj (held.symm.trans here) ▸ direct
  · split <;> rfl

/-- The direct permits that a turn of the maintenance loop may end: those of another epoch
than a pool is read with, and those that a verdict covers. -/
def MemoryScheduler.retired (s : MemoryScheduler) : Maintenance → Notice → List Permit
  | .refreshing, .refreshed records _ =>
    records.flatMap fun current => s.stale current.spec.poolId current.epoch
  | .proving pool candidates started _, .proof reply =>
    match (s.weigh pool started (terminated pool candidates reply)).2 with
    | none => []
    | some verdict => (s.judged pool.spec.poolId verdict).filter fun permit =>
      permit.kind = .direct ∧ permit.engineEpoch = verdict.epoch ∧
        ∃ unknownAt ∈ permit.unknownAt, unknownAt < verdict.since
  | _, _ => []

/-- A refresh leaves the permits that it keeps as they are. -/
theorem find?_adoptPool {clock : Clock} {current : Pool} {id : String} {permit : Permit}
    (found : (s.adoptPool clock current).permits.find? id = some permit) :
    s.permits.find? id = some permit := by
  have ended (items : List Permit) (t : MemoryScheduler)
      (found : (items.foldl MemoryScheduler.endStale t).permits.find? id = some permit) :
      t.permits.find? id = some permit := by
    induction items generalizing t with
    | nil => exact found
    | cons item rest ih =>
      have before := ih _ found
      rcases eq_or_ne item.attemptId id with rfl | apart
      · have gone : (t.endStale item).permits.find? item.attemptId = none := by
          refine (find?_endDirect ?_).trans (if_pos rfl)
          exact fun _ => rfl
        rw [gone] at before
        cases before
      · rwa [find?_endStale apart] at before
  unfold MemoryScheduler.adoptPool at found
  dsimp only at found
  split at found
  · split at found <;> exact ended _ { s with pools := s.pools.put current } found
  · exact found

section Refreshing

variable (refreshing : scope.refreshing = true) (readying : scope.readying = true)

include refreshing readying

theorem adoptPool_path (clock : Clock) {current : Pool} (fits : scope.known current)
    (ending : ∀ permit ∈ s.stale current.spec.poolId current.epoch,
      scope.ending permit.attemptId) :
    Path scope s (s.adoptPool clock current) := by
  unfold MemoryScheduler.adoptPool
  have adopted : Path scope s { s with pools := s.pools.put current } :=
    .single (.adopt current refreshing fits)
  dsimp only
  split
  · have ended := adopted.trans (stale_path Table.find?_put_self ending)
    split
    · exact ended.tail (.quiet ⟨rfl, rfl, rfl, rfl, rfl, rfl, rfl, id, rfl, rfl, rfl, rfl⟩
        (Or.inl readying) (Or.inr rfl))
    · exact ended
  · exact adopted

/-- A refresh of a running process, which reads no attempts, makes moves. -/
theorem adopt_path (clock : Clock) {records : List Pool}
    (fits : ∀ pool ∈ records, scope.known pool)
    (ending : ∀ pool ∈ records, ∀ permit ∈ s.stale pool.spec.poolId pool.epoch,
      scope.ending permit.attemptId) :
    Path scope s (s.adopt clock records [] []) := by
  refine Path.foldl_of (f := fun s current => s.adoptPool clock current)
    (fun t => ∀ id permit, t.permits.find? id = some permit → s.permits.find? id = some permit)
    (fun t kept current member => ⟨?_, fun id permit found => ?_⟩) fun _ _ found => found
  · refine adoptPool_path refreshing readying clock (fits current member) fun permit old => ?_
    -- what is stale now was stale before the first pool was read
    obtain ⟨held, stale⟩ := List.mem_filter.mp old
    have held : permit ∈ s.permits.rows :=
      Table.mem_of_find? (kept _ permit (Table.find?_of_mem held))
    exact ending current member permit (List.mem_filter.mpr ⟨held, stale⟩)
  · exact kept id permit (find?_adoptPool found)

end Refreshing

theorem expireRequests_path (forgetting : scope.forgetting = true) (now : Time) :
    Path scope s (s.expireRequests now) := by
  unfold MemoryScheduler.expireRequests
  refine ReflTransGen.trans (Path.foldl _ _ (fun s item _ => .single (.forget _ forgetting)) _)
    (Path.foldl _ _ (fun s waiter _ => .single (.withdraw _)) _)

/-- Moves, after which old requests may be forgotten. -/
def Sweeps (scope : Scope) (now : Time) (s s' : MemoryScheduler) : Prop :=
  ∃ t, Path scope s t ∧ (s' = t ∨ s' = t.expireRequests now)

theorem Sweeps.of_path {now : Time} (path : Path scope s s') : Sweeps scope now s s' :=
  ⟨s', path, Or.inl rfl⟩

theorem Sweeps.after {now : Time} {s₁ : MemoryScheduler} (sweeps : Sweeps scope now s₁ s')
    (path : Path scope s s₁) : Sweeps scope now s s' := by
  obtain ⟨t, later, ends⟩ := sweeps
  exact ⟨t, path.trans later, ends⟩

theorem Sweeps.path {now : Time} (sweeps : Sweeps scope now s s')
    (forgetting : scope.forgetting = true) : Path scope s s' := by
  obtain ⟨t, path, rfl | rfl⟩ := sweeps
  · exact path
  · exact path.trans (expireRequests_path forgetting now)

theorem lost_path (losing : scope.losing = true) : Path scope s (lost s).scheduler :=
  .single (.quiet ⟨rfl, rfl, rfl, rfl, rfl, rfl, rfl, fun ready => (by cases ready), rfl, rfl, rfl,
    rfl⟩ (Or.inr ⟨rfl, rfl⟩) (Or.inl losing))

theorem probed_path (readying : scope.readying = true) (clock : Clock) (poolId : String)
    (idle : Bool) :
    Path scope s (s.probed clock poolId idle) := by
  unfold MemoryScheduler.probed
  generalize (if idle then s.slotIdle poolId + 1 else 0) = count
  dsimp only
  split
  · exact .single (.quiet ⟨rfl, rfl, rfl, rfl, rfl, rfl, rfl, id, rfl, rfl, rfl, rfl⟩
      (Or.inl readying) (Or.inr rfl))
  · exact .single (.quiet ⟨rfl, rfl, rfl, rfl, rfl, rfl, rfl, id, rfl, rfl, rfl, rfl⟩
      (Or.inl readying) (Or.inr rfl))

theorem reconcileEach_moves {live : List (String × PermitState)} {active : List String}
    (isOver : ∀ attemptId ∈ active, scope.reported attemptId ∧
      (live.reverse.lookup attemptId = none → scope.gone attemptId)) :
    (reconcileEach live active).Moves (Move scope) s := by
  induction active generalizing s with
  | nil => exact Turn.moves_pure _
  | cons attemptId rest ih =>
    have later {s : MemoryScheduler} : (reconcileEach live rest).Moves (Move scope) s :=
      ih fun attemptId member => isOver attemptId (List.mem_cons_of_mem _ member)
    unfold reconcileEach
    split
    · rename_i state reported
      refine Turn.Moves.get_bind ?_
      split
      · exact Turn.moves_throw _
      · have reported := (isOver attemptId List.mem_cons_self).1
        exact Turn.Moves.modify_bind (.single (.observe attemptId state reported)) later
    · rename_i absent
      have gone := (isOver attemptId List.mem_cons_self).2 absent
      exact Turn.Moves.modify_bind (.single (.drop attemptId gone)) later

theorem weigh_permits (pool : Pool) (started : Time)
    (proof : Option (String × Finset String)) :
    (s.weigh pool started proof).1.permits = s.permits := by
  unfold MemoryScheduler.weigh
  split
  · rfl
  · split
    · rfl
    · dsimp only
      split
      · rfl
      · split <;> rfl

section Probing

variable (probing : scope.probing = true)

include probing

theorem weigh_path (pool : Pool) (started : Time) (proof : Option (String × Finset String)) :
    Path scope s (s.weigh pool started proof).1 := by
  unfold MemoryScheduler.weigh
  have forgotten : Path scope s (s.forgetStreak pool.spec.poolId) :=
    .single (.weigh _ probing)
  split
  · exact forgotten
  · split
    · exact forgotten
    · dsimp only
      split
      · exact forgotten
      · split
        · exact .single (.weigh _ probing)
        · exact forgotten

/-- The permits that a verdict covers are ended one by one. -/
theorem settled_path (poolId : String) (verdict : Verdict)
    (ending : ∀ permit ∈ s.judged poolId verdict, permit.kind = .direct →
      permit.engineEpoch = verdict.epoch →
      (∃ unknownAt ∈ permit.unknownAt, unknownAt < verdict.since) →
      scope.ending permit.attemptId) :
    Path scope s ((s.judged poolId verdict).foldl
      (fun s permit => s.settleIdle verdict permit) s) := by
  obtain ⟨apart, here⟩ := @filter_rows s fun permit =>
    permit.poolId = poolId ∧ permit.attemptId ∈ verdict.streak ∧ permit.state = .unknown
  refine endEach_path apart (fun item member s' pools held => ?_) s rfl here
  obtain ⟨-, -, lost⟩ := of_decide_eq_true (List.mem_filter.mp member).2
  dsimp only [MemoryScheduler.settleIdle]
  split
  · rename_i covered
    refine ⟨.single (.conclude item.attemptId _ _ ?_ (fun _ => rfl) (Or.inl probing)
      (Or.inr (.idle held covered.1 lost)) (ending item member covered.1 covered.2.1 covered.2.2)),
      rfl, fun id other => ?_⟩
    swap
    · refine Eq.trans (find?_endDirect ?_) (if_neg other)
      exact fun _ => rfl
    exact Or.inr fun permit here => Option.some.inj (held.symm.trans here) ▸ covered.1
  · exact ⟨.refl, rfl, fun _ _ => rfl⟩

theorem settleNext_sweeps (clock : Clock) (pending : List (String × Finset String))
    (s : MemoryScheduler) :
    Sweeps scope clock.monotonic s (settleNext clock pending s).scheduler := by
  induction pending generalizing s with
  | nil => exact ⟨s, .refl, Or.inr rfl⟩
  | cons item rest ih =>
    unfold settleNext
    split
    · exact ih s
    · split
      · exact .of_path .refl
      · have forgotten : Path scope s (s.forgetStreak item.1) :=
          .single (.weigh _ probing)
        exact (ih _).after forgotten

theorem settleBegin_sweeps (clock : Clock) :
    Sweeps scope clock.monotonic s (settleBegin clock s).scheduler := by
  have kept : Path scope s (s.keepStreaks s.pendingUnknown) :=
    .single (.weigh _ probing)
  exact (settleNext_sweeps probing clock _ _).after kept

theorem settleProved_sweeps (clock : Clock) (pool : Pool) (started : Time)
    {proof : Option (String × Finset String)} (rest : List (String × Finset String))
    (ending : ∀ verdict, (s.weigh pool started proof).2 = some verdict →
      ∀ permit ∈ s.judged pool.spec.poolId verdict, permit.kind = .direct →
      permit.engineEpoch = verdict.epoch →
      (∃ unknownAt ∈ permit.unknownAt, unknownAt < verdict.since) →
      scope.ending permit.attemptId) :
    Sweeps scope clock.monotonic s (settleProved clock pool started proof rest s).scheduler := by
  unfold settleProved
  have weighed := @weigh_path scope s probing pool started proof
  have permits := @weigh_permits s pool started proof
  dsimp only
  split
  · rename_i s₁ same
    rw [same] at weighed
    exact (settleNext_sweeps probing clock rest s₁).after weighed
  · rename_i s₁ verdict same
    rw [same] at weighed permits
    have judged : s₁.judged pool.spec.poolId verdict = s.judged pool.spec.poolId verdict := by
      rw [MemoryScheduler.judged, permits]
      rfl
    have ending := ending verdict (by rw [same])
    have settled := weighed.trans
      (settled_path probing pool.spec.poolId verdict (judged ▸ ending))
    split
    · exact (settleNext_sweeps probing clock rest _).after settled
    · exact .of_path settled

theorem reconcileBegin_sweeps (clock : Clock) :
    Sweeps scope clock.monotonic s (reconcileBegin clock s).scheduler := by
  unfold reconcileBegin
  split
  · exact settleBegin_sweeps probing clock
  · exact .of_path .refl

theorem probeNext_sweeps (clock : Clock) (pools : List String) (s : MemoryScheduler) :
    Sweeps scope clock.monotonic s (probeNext clock pools s).scheduler := by
  induction pools generalizing s with
  | nil => exact (reconcileBegin_sweeps probing clock).after (expireDirty_path _)
  | cons poolId rest ih =>
    unfold probeNext
    split
    · exact .of_path .refl
    · exact ih s

/-- A turn of the maintenance loop makes moves, and may forget old requests at its end. -/
theorem maintain_sweeps (clock : Clock) (on : Maintenance) {notice : Notice}
    (heard : scope.Heeds on notice) (readies : scope.Readies notice)
    (ending : ∀ permit ∈ s.retired on notice, scope.ending permit.attemptId) :
    Sweeps scope clock.monotonic s (maintain clock s on notice).scheduler := by
  unfold maintain
  split
  · exact .of_path .refl
  · rename_i records order
    have adopted : Path scope s (s.adopt clock records [] []) :=
      adopt_path heard.1 readies clock heard.2 fun pool read permit old =>
        ending permit (List.mem_flatMap.mpr ⟨pool, read, old⟩)
    have ready : Path scope s { s.adopt clock records [] [] with controlReady := true } :=
      adopted.tail (.regain heard.1)
    exact (probeNext_sweeps probing clock _ _).after ready
  · exact (probeNext_sweeps probing clock _ _).after (probed_path readies clock _ _)
  · rename_i active held
    have moves : (reconcileEach held active).Moves (Move scope) s :=
      reconcileEach_moves heard
    unfold Turn.Moves Turn.final at moves
    split
    · rename_i s₁ ran
      rw [ran] at moves
      exact (settleBegin_sweeps probing clock).after moves
    · rename_i error s₁ ran
      rw [ran] at moves
      exact .of_path (moves.trans (lost_path readies))
  · rename_i pool candidates started rest reply
    refine settleProved_sweeps probing clock pool started rest fun verdict weighed permit judged
      direct epoch since => ending permit ?_
    rw [MemoryScheduler.retired, weighed]
    exact List.mem_filter.mpr ⟨judged, decide_eq_true ⟨direct, epoch, since⟩⟩
  · exact settleNext_sweeps probing clock _ s
  · exact .of_path .refl
  · exact .of_path (lost_path readies)
  · exact .of_path .refl

/-- A turn of the maintenance loop makes moves. -/
theorem maintain_path (forgetting : scope.forgetting = true) (clock : Clock) (on : Maintenance)
    {notice : Notice} (heard : scope.Heeds on notice) (readies : scope.Readies notice)
    (ending : ∀ permit ∈ s.retired on notice, scope.ending permit.attemptId) :
    Path scope s (maintain clock s on notice).scheduler :=
  (maintain_sweeps probing clock on heard readies ending).path forgetting

end Probing

end Maintenance

/-! ### Processes -/

namespace Process

variable {p : Process}

/-- The calls in flight are about what is in scope. -/
def CallsKnow (scope : Scope) (p : Process) : Prop :=
  ∀ id on, p.calls id = some on → on.Knows scope

/-- One call goes on or ends. -/
theorem CallsKnow.update (calls : p.CallsKnow scope) {id : ℕ}
    {now : Option Suspended} (knows : ∀ on, now = some on → on.Knows scope) :
    ∀ id' on, Function.update p.calls id now id' = some on → on.Knows scope := by
  intro id' on found
  by_cases same : id' = id
  · rw [same, Function.update_self] at found
    exact knows on found
  · rw [Function.update_of_ne same] at found
    exact calls id' on found

/-- What an event brings from outside is in scope. -/
def InScope (scope : Scope) (p : Process) : Event → Prop
  | .direct _ uuid call => scope.acting = true ∧ call.Fits scope p.scheduler uuid
  | .acquire _ call => scope.asked call.attemptId
  | .release _ attemptId _ => scope.returned attemptId
  | .resume _ id answer => ∀ on, p.calls id = some on → scope.Hears on answer
  | .maintain _ notice => scope.probing = true ∧ scope.Heeds p.maintenance notice ∧
      scope.Readies notice ∧
      ∀ permit ∈ p.scheduler.retired p.maintenance notice, scope.ending permit.attemptId
  | _ => True

/-- A request has joined the queue in a turn of its caller, or none has. -/
def Joined (p : Process) (event : Event) (s : MemoryScheduler) : Prop :=
  s = p.scheduler ∨ ∃ clock uuid call request poolId ownerId,
    event = .direct clock uuid call ∧ call.enters = some (request, poolId, ownerId) ∧
      p.scheduler.MayAdmit request ownerId ∧ p.scheduler.HasRoom request poolId ∧
      s = p.scheduler.admitted clock request poolId ownerId

/-- The maintenance loop stays where it is in the turns of others. -/
theorem step_maintenance {event : Event} (caller : ∀ clock notice, event ≠ .maintain clock notice) :
    (p.step event).maintenance = p.maintenance := by
  cases event with
  | maintain clock notice => exact absurd rfl (caller clock notice)
  | acquire | release | resume | interrupt =>
    simp only [step]
    split <;> rfl
  | _ => rfl

/-- A caller has joined a queue in this turn, or none has. -/
def Enters (p : Process) (event : Event) (s : MemoryScheduler) : Prop :=
  p.Joined event s ∨ ∃ clock id answer on, event = .resume clock id answer ∧
    p.calls id = some on ∧ Joins clock on answer p.scheduler s

/-- A turn: a caller may join a queue, moves follow, and old requests may be forgotten. -/
def Sweeping (scope : Scope) (p : Process) (event : Event) : Prop :=
  ∃ s, p.Enters event s ∧ (∃ now, Sweeps scope now s (p.step event).scheduler) ∧
    (p.step event).CallsKnow scope

/-- A turn: a request may join the queue, and moves follow. -/
def Turns (scope : Scope) (p : Process) (event : Event) : Prop :=
  ∃ s, p.Joined event s ∧ Path scope s (p.step event).scheduler ∧
    (p.step event).CallsKnow scope

theorem sweeping_of_turned {event : Event} {id : ℕ} {code : Code Progress}
    (joins : code.Ensures p.scheduler fun outcome s' =>
      ∃ s, p.Enters event s ∧ Advances scope s outcome s')
    (calls : p.CallsKnow scope) (same : p.step event = p.turned id code) :
    p.Sweeping scope event := by
  unfold Sweeping
  rw [same]
  obtain ⟨s, enters, advances⟩ := joins
  refine ⟨s, enters, ⟨0, .of_path advances.1⟩, calls.update fun on stopped => advances.2 on ?_⟩
  unfold pending at stopped
  split at stopped
  · rename_i ended
    rw [ended, Option.some.inj stopped]
  · cases stopped

/-- Every turn of a process lets at most one caller join a queue, and is a sequence of moves
otherwise. -/
theorem step_sweeps {event : Event} (executors : scope.durable = true)
    (knows : ∀ poolId pool, p.scheduler.pools.find? poolId = some pool → scope.known pool)
    (calls : p.CallsKnow scope) (inScope : p.InScope scope event) :
    p.Sweeping scope event := by
  have nobody : p.Enters event p.scheduler := Or.inl (Or.inl rfl)
  -- a turn that no task can take
  have idle (same : p.step event = p) : p.Sweeping scope event := by
    unfold Sweeping
    rw [same]
    exact ⟨_, nobody, ⟨0, .of_path .refl⟩, calls⟩
  cases event with
  | direct clock uuid call =>
    obtain ⟨s, rfl | ⟨request, poolId, ownerId, joined⟩, path⟩ :=
      @directCall_ensures scope p.scheduler inScope.1 clock uuid call inScope.2
    · exact ⟨_, nobody, ⟨0, .of_path path⟩, calls⟩
    · exact ⟨s, Or.inl (Or.inr ⟨clock, uuid, call, request, poolId, ownerId, rfl, joined⟩),
        ⟨0, .of_path path⟩, calls⟩
  | acquire id call =>
    cases free : p.calls id with
    | none =>
      have same : p.step (.acquire id call) =
          { p with calls := Function.update p.calls id (some (.identifying call)) } := by
        simp only [step, free]
      unfold Sweeping
      rw [same]
      refine ⟨_, nobody, ⟨0, .of_path .refl⟩, calls.update fun on stopped => ?_⟩
      rw [← Option.some.inj stopped]
      exact inScope
    | some on => exact idle (by simp only [step, free])
  | release id attemptId ownerId =>
    cases free : p.calls id with
    | none =>
      have same : p.step (.release id attemptId ownerId) =
          p.turned id (durableRelease attemptId ownerId) := by simp only [step, free]
      have advances : (durableRelease attemptId ownerId).Ensures p.scheduler
          (Advances scope p.scheduler) := durableRelease_advances inScope ownerId
      exact sweeping_of_turned (advances.mono fun _ _ advances => ⟨_, nobody, advances⟩) calls same
    | some on => exact idle (by simp only [step, free])
  | resume clock id answer =>
    cases found : p.calls id with
    | none => exact idle (by simp only [step, found])
    | some on =>
      have same : p.step (.resume clock id answer) =
          p.turned id (Scheduling.resume clock on answer) := by simp only [step, found]
      have joins := resume_joins executors knows clock (calls id on found) (inScope on found)
      refine sweeping_of_turned (joins.mono ?_) calls same
      rintro outcome s' ⟨s, joins, advances⟩
      exact ⟨s, Or.inr ⟨clock, id, answer, on, rfl, found, joins⟩, advances⟩
  | interrupt id =>
    cases found : p.calls id with
    | none => exact idle (by simp only [step, found])
    | some on =>
      have same : p.step (.interrupt id) = { p with
          scheduler := interrupted on p.scheduler
          calls := Function.update p.calls id none } := by
        simp only [step, found]
      unfold Sweeping
      rw [same]
      have ended : ∀ on, (none : Option Suspended) = some on → on.Knows scope :=
        fun _ stopped => by cases stopped
      exact ⟨_, nobody, ⟨0, .of_path (interrupted_path on)⟩, calls.update ended⟩
  | maintain clock notice =>
    exact ⟨_, nobody,
      ⟨_, maintain_sweeps inScope.1 clock p.maintenance inScope.2.1 inScope.2.2.1
        inScope.2.2.2⟩, calls⟩
  | timer clock =>
    exact ⟨_, nobody, ⟨0, .of_path (expireDirty_path _)⟩, calls⟩

/-- Every turn of a process is a sequence of moves. -/
theorem step_turns {event : Event} (executors : scope.durable = true)
    (queueing : scope.queueing = true) (forgetting : scope.forgetting = true)
    (knows : ∀ poolId pool, p.scheduler.pools.find? poolId = some pool → scope.known pool)
    (calls : p.CallsKnow scope) (inScope : p.InScope scope event) :
    p.Turns scope event := by
  obtain ⟨s, enters, ⟨now, sweeps⟩, calls'⟩ := step_sweeps executors knows calls inScope
  have path := sweeps.path forgetting
  rcases enters with joined | ⟨clock, id, answer, on, rfl, found, same | ⟨call, row, rfl, -, actual,
    -, absent, rfl⟩⟩
  · exact ⟨s, joined, path, calls'⟩
  · exact ⟨s, Or.inl same, path, calls'⟩
  · have asked : scope.asked call.attemptId := calls id _ found
    exact ⟨_, Or.inl rfl, .head (.wait _ executors asked queueing absent rfl) path, calls'⟩

end Process

end IntramindRuntime.Scheduling
