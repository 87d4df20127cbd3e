import IntramindRuntime.Scheduling.Moves

/-!
# The permit of one attempt

A direct attempt belongs to the task that sends it: only the calls of this task change it. The
maintenance loop takes its permit away where the pool is read with another epoch. As long as it is
not, the attempt and its permit are as the task has left them, whatever else the process does; so
the call that settles the attempt finds both, and does what it is for.

## Main definitions

* `MemoryScheduler.Holds`, `MemoryScheduler.Released` — the attempt has its permit, or it has been
  settled
* `Event.Spares` — an event that is not about an attempt
* `Process.Renews` — the loop reads another epoch of the pool of an attempt

## Main results

* `Process.after_holds` — events that are not about an attempt leave it and its permit alone
* `Holds.marks`, `Holds.finishes`, `Holds.loses` — what the calls of its task do
-/

namespace IntramindRuntime.Scheduling

open Library Relation

/-- A direct attempt in a state. -/
def DirectReservation.attempt (reservation : DirectReservation) (state : PermitState)
    (unknownAt : Option Time) : Permit :=
  { reservation.permit with state, unknownAt }

/-- The attempt of a reservation has its permit. Both are one object. -/
def MemoryScheduler.Holds (s : MemoryScheduler) (reservation : DirectReservation)
    (state : PermitState) : Prop :=
  ∃ unknownAt,
    s.directAttempts.find? reservation.attemptId = some (reservation.attempt state unknownAt) ∧
    s.permits.find? reservation.attemptId = some (reservation.attempt state unknownAt)

/-- The attempt of a reservation has been settled: it has no permit any more. -/
def MemoryScheduler.Released (s : MemoryScheduler) (reservation : DirectReservation)
    (state : PermitState) : Prop :=
  ∃ unknownAt,
    s.directAttempts.find? reservation.attemptId = some (reservation.attempt state unknownAt) ∧
    s.permits.find? reservation.attemptId = none

/-- The attempt that a call of its task is about. -/
def DirectCall.about : DirectCall → Option String
  | .markSend reservation | .finish reservation _ | .unknown reservation =>
    some reservation.attemptId
  | _ => none

/-- The event is not about the attempt: no call of its task, and its identifier is not used for
another one. -/
def Event.Spares (a : String) : Event → Prop
  | .direct _ uuid call => uuid ≠ a ∧ call.about ≠ some a
  | .acquire _ call => call.attemptId ≠ a
  | .release _ attemptId _ => attemptId ≠ a
  | _ => True

/-- The maintenance loop reads the pool of a reservation, and it has another epoch. -/
def Process.Renews (p : Process) (reservation : DirectReservation) : Event → Prop
  | .maintain _ (.refreshed records _) =>
    p.maintenance = .refreshing ∧ ∃ current ∈ records,
      current.spec.poolId = reservation.poolId ∧ current.epoch ≠ reservation.engineEpoch
  | _ => False

/-- Nobody acts for a direct attempt, it does not end, and its identifier is not used. -/
def Scope.sparing (a : String) : Scope where
  acting := false
  drawn := (· ≠ a)
  gone := (· ≠ a)
  asked := (· ≠ a)
  returned := (· ≠ a)
  reported := (· ≠ a)
  ending := (· ≠ a)

/-- If an attempt has its permit, both stay as they are. -/
def Keeps (a : String) (s s' : MemoryScheduler) : Prop :=
  s.permits.find? a ≠ none → s'.permits.find? a = s.permits.find? a ∧
    s'.directAttempts.find? a = s.directAttempts.find? a

section Keeps

variable {a : String} {s s₁ s' : MemoryScheduler}

theorem Keeps.refl (s : MemoryScheduler) : Keeps a s s := fun _ => ⟨rfl, rfl⟩

theorem Keeps.trans (first : Keeps a s s₁) (second : Keeps a s₁ s') : Keeps a s s' := by
  intro held
  obtain ⟨permit, attempt⟩ := first held
  obtain ⟨permit', attempt'⟩ := second (permit ▸ held)
  exact ⟨permit'.trans permit, attempt'.trans attempt⟩

theorem Keeps.of_eq (permits : s'.permits.find? a = s.permits.find? a)
    (attempts : s'.directAttempts.find? a = s.directAttempts.find? a) : Keeps a s s' :=
  fun _ => ⟨permits, attempts⟩

/-- Another attempt is changed. -/
theorem Keeps.editDirect {other : String} {f : Permit → Permit} (apart : other ≠ a)
    (key : ∀ p, (f p).attemptId = p.attemptId) : Keeps a s (s.editDirect other f) :=
  .of_eq ((Table.find?_modify key).trans (if_neg apart))
    ((Table.find?_modify key).trans (if_neg apart))

/-- Another attempt is over. -/
theorem Keeps.endDirect {other : String} {f : Permit → Permit} (apart : other ≠ a)
    (key : ∀ p, (f p).attemptId = p.attemptId) : Keeps a s (s.endDirect other f) :=
  .of_eq ((find?_endDirect key).trans (if_neg apart))
    ((Table.find?_modify key).trans (if_neg apart))

theorem Move.keeps (move : Move (.sparing a) s s') : Keeps a s s' := by
  cases move with
  | quiet same => exact .of_eq (by rw [same.permits]) (by rw [same.directAttempts])
  | withdraw identity =>
    exact .of_eq (by rw [removeWaiter_permits]) (by rw [removeWaiter_directAttempts])
  | prune | disown | adopt | regain | weigh | wait => exact .of_eq rfl rfl
  | forget identity =>
    -- only attempts without a permit are forgotten
    intro held
    refine ⟨rfl, ?_⟩
    unfold MemoryScheduler.forget
    rw [Table.find?_filter]
    cases found : s.directAttempts.find? a with
    | none => rfl
    | some attempt =>
      have named : attempt.attemptId = a := Table.key_of_find? found
      simp [Option.filter, named, held]
  | grant reservation new =>
    have apart : Keyed.key reservation.permit ≠ a := new
    exact .of_eq (by rw [grant_permits, Table.find?_put_of_ne apart])
      (by rw [grant_directAttempts, Table.find?_put_of_ne apart])
  | progress attemptId state unknownAt held live acting => cases acting
  | conclude attemptId state idleVerified aside ended unproven cause ending =>
    exact .endDirect ending fun _ => rfl
  | observe attemptId state reported =>
    refine .of_eq (Eq.trans (Table.find?_modify ?_) (if_neg reported)) rfl
    exact fun _ => rfl
  | drop attemptId isOver => exact .of_eq (Table.find?_erase.trans (if_neg isOver)) rfl
  | grantDurable call allowed asked =>
    have apart : Keyed.key call.permit ≠ a := asked
    exact .of_eq (by rw [grantDurable_permits, Table.find?_put_of_ne apart])
      (by rw [grantDurable_directAttempts])

theorem Path.keeps (path : Path (.sparing a) s s') : Keeps a s s' := by
  induction path with
  | refl => exact .refl s
  | tail _ move ih => exact ih.trans move.keeps

theorem Sweeps.keeps {now : Time} (sweeps : Sweeps (.sparing a) now s s') : Keeps a s s' :=
  (sweeps.path rfl).keeps

/-! ### Direct calls -/

theorem markSend_keeps (clock : Clock) {reservation : DirectReservation}
    (apart : reservation.attemptId ≠ a) :
    (markSend clock reservation).Ensures s fun _ s' => Keeps a s s' := by
  unfold markSend
  refine (direct_looks reservation).bind_ensures (fun _ => .refl s) fun attempt found => ?_
  have named : attempt.attemptId = reservation.attemptId := Table.key_of_find? found.1
  refine Turn.ensures_bind.mpr (Turn.ensures_get.mpr ?_)
  dsimp only
  split
  · exact .refl s
  · exact .editDirect (named ▸ apart) fun _ => rfl

theorem unknown_keeps (clock : Clock) {reservation : DirectReservation}
    (apart : reservation.attemptId ≠ a) :
    (unknown clock reservation).Ensures s fun _ s' => Keeps a s s' := by
  unfold unknown
  refine (direct_looks reservation).bind_ensures (fun _ => .refl s) fun attempt found => ?_
  have named : attempt.attemptId = reservation.attemptId := Table.key_of_find? found.1
  refine Turn.ensures_bind.mpr (Turn.ensures_get.mpr ?_)
  dsimp only
  split
  · exact .refl s
  · exact .editDirect (named ▸ apart) fun _ => rfl

theorem finish_keeps {reservation : DirectReservation} (evidence : Evidence)
    (apart : reservation.attemptId ≠ a) :
    (finish reservation evidence).Ensures s fun _ s' => Keeps a s s' := by
  unfold finish
  refine (direct_looks reservation).bind_ensures (fun _ => .refl s) fun attempt found => ?_
  have named : attempt.attemptId = reservation.attemptId := Table.key_of_find? found.1
  refine Turn.ensures_bind.mpr (Turn.ensures_get.mpr ?_)
  dsimp only
  split
  · exact .refl s
  · split
    · exact .refl s
    · exact .endDirect (named ▸ apart) fun _ => rfl

/-- A call that is not about the attempt. -/
theorem directCall_keeps (clock : Clock) {uuid : String} {call : DirectCall} (apart : uuid ≠ a)
    (other : call.about ≠ some a) :
    (call.code clock uuid).Ensures s fun _ s' => Keeps a s s' := by
  have moved {α : Type} {p : Code α} (moves : p.Moves (Move (.sparing a)) s) :
      (discard p).Ensures s fun _ s' => Keeps a s s' :=
    moves.discard.ensures fun s' path => Path.keeps path
  have named {reservation : DirectReservation} (about : call.about = some reservation.attemptId) :
      reservation.attemptId ≠ a := by
    rintro rfl
    exact other about
  cases call with
  | enqueue request poolId ownerId =>
    refine Turn.ensures_discard.mpr ((enqueue_ensures clock request poolId ownerId).mono ?_)
    rintro _ s' (rfl | ⟨_, _, entered⟩)
    · exact .refl _
    · exact entered ▸ .of_eq rfl rfl
  | reserve request poolId ownerId => exact moved (reserve_moves _ apart _ _ _ _)
  | retryConfirmed request poolId ownerId previous => exact moved (reserve_moves _ apart _ _ _ _)
  | tryReserve request poolId ownerId =>
    have entered :=
      @tryReserve_ensures (.sparing a) s clock uuid apart request trivial poolId ownerId
    refine Turn.ensures_discard.mpr (entered.mono ?_)
    rintro _ s' ⟨s₁, same | ⟨_, _, entered⟩, path⟩
    · exact same ▸ Path.keeps path
    · exact Keeps.trans (entered ▸ .of_eq rfl rfl) (Path.keeps path)
  | markSend reservation => exact markSend_keeps clock (named rfl)
  | finish reservation evidence => exact finish_keeps evidence (named rfl)
  | unknown reservation => exact unknown_keeps clock (named rfl)
  | leave requestId ownerId =>
    exact (leave_moves requestId ownerId).ensures fun s' path => Path.keeps path

end Keeps

/-! ### Turns of the process -/

section Reconciling

variable {scope : Scope} {s : MemoryScheduler}

theorem settleNext_reconciles (clock : Clock) (pending : List (String × Finset String))
    (s : MemoryScheduler) (active : List String) :
    (settleNext clock pending s).next ≠ .reconciling active := by
  induction pending generalizing s with
  | nil => nofun
  | cons item rest ih =>
    unfold settleNext
    split
    · exact ih s
    · split
      · nofun
      · exact ih _

theorem probeNext_reconciles {clock : Clock} {pools : List String} {active : List String}
    (reconciles : (probeNext clock pools s).next = .reconciling active) :
    active = s.reconcilable := by
  induction pools with
  | nil =>
    rw [probeNext, reconcileBegin] at reconciles
    split at reconciles
    · exact absurd reconciles (settleNext_reconciles clock _ _ active)
    · cases reconciles
      rfl
  | cons poolId rest ih =>
    rw [probeNext] at reconciles
    split at reconciles
    · cases reconciles
    · exact ih reconciles

/-- The loop asks the ledger about the permits that are not direct. -/
theorem maintain_reconciles {clock : Clock} {on : Maintenance} {notice : Notice}
    {active : List String} (heard : scope.Heeds on notice) (readies : scope.Readies notice)
    (ending : ∀ permit ∈ s.retired on notice, scope.ending permit.attemptId)
    (reconciles : (maintain clock s on notice).next = .reconciling active) :
    on = .reconciling active ∨ ∃ t, Path scope s t ∧ active = t.reconcilable := by
  unfold maintain at reconciles
  split at reconciles
  · cases reconciles
  · rename_i records order
    have adopted : Path scope s (s.adopt clock records [] []) :=
      adopt_path heard.1 readies clock heard.2 fun pool read permit old =>
        ending permit (List.mem_flatMap.mpr ⟨pool, read, old⟩)
    exact .inr ⟨_, adopted.tail (.regain heard.1), probeNext_reconciles reconciles⟩
  · exact .inr ⟨_, probed_path readies clock _ _, probeNext_reconciles reconciles⟩
  · split at reconciles
    · exact absurd reconciles (settleNext_reconciles clock _ _ active)
    · cases reconciles
  · rw [settleProved] at reconciles
    dsimp only at reconciles
    split at reconciles
    · exact absurd reconciles (settleNext_reconciles clock _ _ active)
    · split at reconciles
      · exact absurd reconciles (settleNext_reconciles clock _ _ active)
      · cases reconciles
  · exact absurd reconciles (settleNext_reconciles clock _ _ active)
  · cases reconciles
  · cases reconciles
  · exact .inl reconciles

end Reconciling

namespace Process

variable {p : Process} {reservation : DirectReservation} {state : PermitState} {event : Event}

/-- No other task is about the attempt. -/
structure Apart (p : Process) (a : String) : Prop where
  calls : p.CallsKnow (.sparing a)
  listed : ∀ active, p.maintenance = .reconciling active → a ∉ active

theorem Enters.keeps_attempt {s : MemoryScheduler} {a : String} (enters : p.Enters event s) :
    Keeps a p.scheduler s := by
  rcases enters with (rfl | ⟨clock, uuid, call, request, poolId, ownerId, rfl, enters, guard, room,
    rfl⟩) | ⟨clock, id, answer, on, rfl, found, rfl | ⟨call, row, rfl, rfl, actual, rfl, absent,
    rfl⟩⟩ <;> exact .of_eq rfl rfl

/-- A live attempt ends in a turn of the loop only if its pool is read with another epoch. -/
theorem retired_apart (holds : p.scheduler.Holds reservation state) (known : state ≠ .unknown)
    {clock : Clock} {notice : Notice} (stays : ¬ p.Renews reservation (.maintain clock notice))
    {permit : Permit} (retired : permit ∈ p.scheduler.retired p.maintenance notice) :
    permit.attemptId ≠ reservation.attemptId := by
  obtain ⟨unknownAt, -, held⟩ := holds
  -- the permit of the attempt is the one that its task has left
  have only (member : permit ∈ p.scheduler.permits.rows)
      (same : permit.attemptId = reservation.attemptId) :
      permit = reservation.attempt state unknownAt := by
    have found : p.scheduler.permits.find? permit.attemptId = some permit :=
      Table.find?_of_mem member
    rw [same, held] at found
    exact (Option.some.inj found).symm
  intro same
  unfold MemoryScheduler.retired at retired
  split at retired
  · rename_i records order waits
    obtain ⟨current, read, old⟩ := List.mem_flatMap.mp retired
    obtain ⟨member, guard⟩ := List.mem_filter.mp old
    obtain ⟨located, epoch, -⟩ := of_decide_eq_true guard
    obtain rfl := only member same
    exact stays ⟨waits, current, read, located.symm, epoch.symm⟩
  · split at retired
    · cases retired
    · obtain ⟨judged, -⟩ := List.mem_filter.mp retired
      obtain ⟨member, guard⟩ := List.mem_filter.mp judged
      obtain rfl := only member same
      exact known (of_decide_eq_true guard).2.2
  · cases retired

theorem inScope_sparing (apart : p.Apart reservation.attemptId)
    (holds : p.scheduler.Holds reservation state) (known : state ≠ .unknown)
    (spares : event.Spares reservation.attemptId) (stays : ¬ p.Renews reservation event)
    (other : ∀ clock uuid call, event ≠ .direct clock uuid call) :
    p.InScope (.sparing reservation.attemptId) event := by
  cases event with
  | direct clock uuid call => exact absurd rfl (other clock uuid call)
  | acquire | release => exact spares
  | resume clock id answer =>
    intro on found
    have knows := apart.calls id on found
    unfold Scope.Hears
    split
    · exact fun _ => knows
    · trivial
  | maintain clock notice =>
    refine ⟨rfl, ?_, Scope.readies rfl rfl notice, fun permit retired =>
      retired_apart holds known stays retired⟩
    unfold Scope.Heeds
    split
    · exact ⟨rfl, fun _ _ => trivial⟩
    · rename_i active held waits
      -- the ledger is not asked about the attempt
      have ne {attemptId : String} (asked : attemptId ∈ active) :
          attemptId ≠ reservation.attemptId := by
        rintro rfl
        exact apart.listed active waits asked
      exact fun attemptId asked => ⟨ne asked, fun _ => ne asked⟩
    · trivial
  | interrupt | timer => trivial

theorem step_keeps (apart : p.Apart reservation.attemptId)
    (holds : p.scheduler.Holds reservation state) (known : state ≠ .unknown)
    (spares : event.Spares reservation.attemptId) (stays : ¬ p.Renews reservation event) :
    Keeps reservation.attemptId p.scheduler (p.step event).scheduler ∧
      (p.step event).Apart reservation.attemptId := by
  cases event with
  | direct clock uuid call =>
    have keeps := @directCall_keeps _ p.scheduler clock uuid call spares.1 spares.2
    exact ⟨keeps, apart.calls, apart.listed⟩
  | maintain clock notice =>
    have inScope := inScope_sparing apart holds known spares stays (by rintro _ _ _ ⟨⟩)
    obtain ⟨s, enters, ⟨now, sweeps⟩, calls⟩ :=
      step_sweeps rfl (fun _ _ _ => trivial) apart.calls inScope
    refine ⟨enters.keeps_attempt.trans sweeps.keeps, calls, ?_⟩
    intro active reconciles
    rcases maintain_reconciles inScope.2.1 inScope.2.2.1 inScope.2.2.2 reconciles with
      still | ⟨t, path, rfl⟩
    · exact apart.listed active still
    · -- the permit is direct
      obtain ⟨unknownAt, -, held⟩ := holds
      have kept := (Path.keeps path (held ▸ nofun)).1
      intro listed
      obtain ⟨permit, member, named⟩ := List.mem_map.mp listed
      obtain ⟨member, kind⟩ := List.mem_filter.mp member
      have found : t.permits.find? permit.attemptId = some permit := Table.find?_of_mem member
      rw [named, kept, held] at found
      cases found
      exact of_decide_eq_true kind rfl
  | acquire | release | resume | interrupt | timer =>
    have inScope := inScope_sparing apart holds known spares stays (by rintro _ _ _ ⟨⟩)
    obtain ⟨s, enters, ⟨now, sweeps⟩, calls⟩ :=
      step_sweeps rfl (fun _ _ _ => trivial) apart.calls inScope
    refine ⟨enters.keeps_attempt.trans sweeps.keeps, calls, ?_⟩
    rw [step_maintenance (by rintro _ _ ⟨⟩)]
    exact apart.listed

/-- Events that are not about the attempt, and that read no other epoch of its pool, leave the
attempt and its permit as they are. -/
theorem after_holds {events : List Event} (apart : p.Apart reservation.attemptId)
    (holds : p.scheduler.Holds reservation state) (known : state ≠ .unknown)
    (others : p.Throughout
      (fun p event => event.Spares reservation.attemptId ∧ ¬ p.Renews reservation event) events) :
    (p.after events).scheduler.Holds reservation state := by
  induction events generalizing p with
  | nil => exact holds
  | cons event rest ih =>
    obtain ⟨⟨spares, stays⟩, later⟩ := others
    obtain ⟨keeps, apart⟩ := step_keeps apart holds known spares stays
    refine ih apart ?_ later
    obtain ⟨unknownAt, attempt, held⟩ := holds
    obtain ⟨permits, attempts⟩ := keeps (held ▸ nofun)
    exact ⟨unknownAt, attempts.trans attempt, permits.trans held⟩

end Process

/-! ### The calls of the task -/

section Calls

variable {s : MemoryScheduler} {reservation : DirectReservation} {state : PermitState}

/-- The call finds the attempt. -/
theorem MemoryScheduler.Holds.bind {α : Type} {f : Permit → Code α}
    {post : Except SchedulerError α → MemoryScheduler → Prop} (holds : s.Holds reservation state)
    (rest : ∀ unknownAt,
      s.directAttempts.find? reservation.attemptId = some (reservation.attempt state unknownAt) →
      s.permits.find? reservation.attemptId = some (reservation.attempt state unknownAt) →
      (f (reservation.attempt state unknownAt)).Ensures s post) :
    Turn.Ensures (direct reservation >>= f) s post := by
  obtain ⟨unknownAt, attempt, held⟩ := holds
  refine Turn.ensures_bind.mpr ?_
  unfold direct
  refine Turn.ensures_bind.mpr (Turn.ensures_get.mpr ?_)
  dsimp only
  split
  · rename_i absent
    rw [attempt] at absent
    cases absent
  · rename_i found there
    rw [attempt] at there
    obtain rfl := Option.some.inj there
    have mine : (reservation.attempt state unknownAt).reservation = some reservation := rfl
    rw [if_pos mine]
    exact rest unknownAt attempt held

/-- An attempt with a permit is changed. -/
theorem holds_editDirect {unknownAt unknownAt' : Option Time} {state' : PermitState}
    {f : Permit → Permit}
    (attempt : s.directAttempts.find? reservation.attemptId =
      some (reservation.attempt state unknownAt))
    (held : s.permits.find? reservation.attemptId = some (reservation.attempt state unknownAt))
    (key : ∀ p, (f p).attemptId = p.attemptId)
    (now : f (reservation.attempt state unknownAt) = reservation.attempt state' unknownAt') :
    (s.editDirect reservation.attemptId f).Holds reservation state' := by
  refine ⟨unknownAt', ?_, ?_⟩
  · refine (Table.find?_modify key).trans ?_
    rw [if_pos rfl, attempt, Option.map_some, now]
  · refine (Table.find?_modify key).trans ?_
    rw [if_pos rfl, held, Option.map_some, now]

/-- An attempt with a permit is settled. -/
theorem released_endDirect {unknownAt : Option Time} {state' : PermitState} {f : Permit → Permit}
    (attempt : s.directAttempts.find? reservation.attemptId =
      some (reservation.attempt state unknownAt))
    (key : ∀ p, (f p).attemptId = p.attemptId)
    (now : f (reservation.attempt state unknownAt) = reservation.attempt state' unknownAt) :
    (s.endDirect reservation.attemptId f).Released reservation state' := by
  refine ⟨unknownAt, ?_, (find?_endDirect key).trans (if_pos rfl)⟩
  refine (Table.find?_modify key).trans ?_
  rw [if_pos rfl, attempt, Option.map_some, now]

/-- The attempt is marked as sent, unless it may not be sent any more. -/
theorem MemoryScheduler.Holds.marks (holds : s.Holds reservation .reserved) (clock : Clock) :
    (markSend clock reservation).Ensures s fun outcome s' =>
      (outcome = .ok () → s'.Holds reservation .sendIntent) ∧
        (outcome ≠ .ok () → s'.Holds reservation .reserved) := by
  refine holds.bind fun unknownAt attempt held => ?_
  refine Turn.ensures_bind.mpr (Turn.ensures_get.mpr ?_)
  dsimp only
  split
  · exact ⟨(fun never => by cases never), fun _ => holds⟩
  · refine ⟨fun _ => holds_editDirect attempt held (fun _ => rfl) rfl, fun raised => ?_⟩
    exact absurd rfl raised

/-- The attempt is settled with a proof of termination, or as not sent. -/
theorem MemoryScheduler.Holds.finishes (holds : s.Holds reservation state) (evidence : Evidence)
    (sent : evidence = .completedResponse → state ≠ .reserved) :
    (finish reservation evidence).Ensures s fun outcome s' =>
      outcome = .ok () ∧ s'.Released reservation evidence.state := by
  refine holds.bind fun unknownAt attempt held => ?_
  refine Turn.ensures_bind.mpr (Turn.ensures_get.mpr ?_)
  dsimp only
  split
  · rename_i early
    exact absurd early.2 (sent early.1)
  · split
    · rename_i absent
      have absent : s.permits.find? reservation.attemptId = none := absent
      rw [held] at absent
      cases absent
    · exact ⟨rfl, released_endDirect attempt (fun _ => rfl) rfl⟩

/-- It stays unknown what became of the attempt. -/
theorem MemoryScheduler.Holds.loses (holds : s.Holds reservation state) (clock : Clock) :
    (unknown clock reservation).Ensures s fun outcome s' =>
      outcome = .ok () ∧ s'.Holds reservation .unknown := by
  refine holds.bind fun unknownAt attempt held => ?_
  refine Turn.ensures_bind.mpr (Turn.ensures_get.mpr ?_)
  dsimp only
  split
  · rename_i absent
    have absent : s.permits.find? reservation.attemptId = none := absent
    rw [held] at absent
    cases absent
  · exact ⟨rfl, holds_editDirect attempt held (fun _ => rfl) rfl⟩

end Calls

end IntramindRuntime.Scheduling
