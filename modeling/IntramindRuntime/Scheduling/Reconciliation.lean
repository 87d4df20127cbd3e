import IntramindRuntime.Scheduling.Coverage
import IntramindRuntime.Scheduling.Readiness

/-!
# Durable permits follow the ledger

Each turn of maintenance reads which durable and legacy permits there are, asks the ledger
which of their attempts are live, and gives the other permits back. The answer comes after
an await. Until then executors get permits and give permits back, and the ledger goes on.
A permit that was given back while the answer says that its attempt is live is missed by
the loop, which then takes the control plane for lost.

## Main definitions

* `Shows` — the query finds an attempt live
* `Reconciliation` — a runtime API, its ledger, and what the query has found
* `Parted` — direct attempts have identifiers of their own, and some permits are there
* `Reconciliation.Spared` — no permit was given back that the loop is about to look up

## Main results

* `reconcileEach_spec` — what the loop does with the answer
* `Reconciliation.reconciles` — what happens when the answer comes, in every run
-/

namespace IntramindRuntime.Scheduling

open Library
open Ledger (Db)

/-! ### The answer of the ledger -/

/-- The query of `_reconcile_durable` finds the attempt, if it asks for it. -/
def Shows (d : Db) (id : String) : Prop :=
  (∃ a ∈ d.attempts.rows, a.attemptId = id ∧ (a.computeHeld = true ∨ a.state = .reserved)) ∨
    ∃ a ∈ d.directAttempts.rows, a.attemptId = id ∧ a.computeHeld = true

instance (d : Db) (id : String) : Decidable (Shows d id) := by
  unfold Shows
  infer_instance

theorem shows_iff {d : Db} {active : List String} {id : String} (asked : id ∈ active) :
    (liveOf d active).reverse.lookup id ≠ none ↔ Shows d id := by
  have listed : (liveOf d active).reverse.lookup id ≠ none ↔
      ∃ state, (id, state) ∈ liveOf d active := by
    rw [ne_eq, List.lookup_eq_none_iff, not_forall]
    constructor
    · rintro ⟨⟨other, state⟩, found⟩
      rw [Classical.not_imp, List.mem_reverse] at found
      have same : id = other := by simpa using found.2
      exact ⟨state, same ▸ found.1⟩
    · rintro ⟨state, member⟩
      refine ⟨(id, state), fun absent => ?_⟩
      have other := absent (List.mem_reverse.mpr member)
      simp at other
  rw [listed]
  constructor
  · rintro ⟨state, member⟩
    rcases List.mem_append.mp member with member | member
    · obtain ⟨a, here, same⟩ := List.mem_map.mp member
      obtain ⟨row, live⟩ := List.mem_filter.mp here
      cases same
      refine Or.inl ⟨a, row, rfl, ?_⟩
      simpa [asked] using live
    · obtain ⟨a, here, same⟩ := List.mem_map.mp member
      obtain ⟨row, live⟩ := List.mem_filter.mp here
      cases same
      refine Or.inr ⟨a, row, rfl, ?_⟩
      simpa [asked] using live
  · rintro (⟨a, row, rfl, live⟩ | ⟨a, row, rfl, live⟩)
    · refine ⟨_, List.mem_append_left _ (List.mem_map.mpr
        ⟨a, List.mem_filter.mpr ⟨row, ?_⟩, rfl⟩)⟩
      simpa [asked] using live
    · refine ⟨_, List.mem_append_right _ (List.mem_map.mpr
        ⟨a, List.mem_filter.mpr ⟨row, ?_⟩, rfl⟩)⟩
      simpa [asked] using live

variable {s s' : MemoryScheduler}

/-- What the loop has done with the answer: only permits it asked about have changed, and only
those are gone that the answer does not name. -/
structure Reconciled (live : List (String × PermitState)) (ids : List String)
    (s s' : MemoryScheduler) : Prop where
  ready : s'.controlReady = s.controlReady
  permits : ∀ id, s'.permits.find? id = s.permits.find? id ∨
    (id ∈ ids ∧ s.permits.find? id ≠ none ∧
      (s'.permits.find? id = none → live.reverse.lookup id = none))

theorem Reconciled.refl (live : List (String × PermitState)) (ids : List String)
    (s : MemoryScheduler) : Reconciled live ids s s := ⟨rfl, fun _ => Or.inl rfl⟩

/-- One more permit was looked at before. -/
theorem Reconciled.after {live : List (String × PermitState)} {attemptId : String}
    {rest : List String} {s₁ : MemoryScheduler} (later : Reconciled live rest s₁ s')
    (ready : s₁.controlReady = s.controlReady)
    (apart : ∀ id, id ≠ attemptId → s₁.permits.find? id = s.permits.find? id)
    (held : s₁.permits.find? attemptId ≠ none → s.permits.find? attemptId ≠ none)
    (gone : s₁.permits.find? attemptId = none → s.permits.find? attemptId ≠ none →
      live.reverse.lookup attemptId = none) :
    Reconciled live (attemptId :: rest) s s' := by
  refine ⟨later.ready.trans ready, fun id => ?_⟩
  rcases eq_or_ne id attemptId with rfl | other
  · by_cases before : s.permits.find? id = none
    · have still : s₁.permits.find? id = none := not_not.mp fun now => held now before
      rcases later.permits id with same | ⟨-, now, -⟩
      · exact Or.inl (same.trans (still.trans before.symm))
      · exact absurd still now
    · refine Or.inr ⟨List.mem_cons_self, before, fun absent => ?_⟩
      rcases later.permits id with same | ⟨-, -, unnamed⟩
      · exact gone (same.symm.trans absent) before
      · exact unnamed absent
  · rw [← apart id other]
    exact (later.permits id).imp_right fun ⟨member, facts⟩ =>
      ⟨List.mem_cons_of_mem _ member, facts⟩

/-- The loop raises if and only if the answer names an attempt that it has no permit for. -/
theorem reconcileEach_spec (live : List (String × PermitState)) (ids : List String)
    (s : MemoryScheduler) :
    (reconcileEach live ids).Ensures s fun outcome s' =>
      (outcome = .ok () ↔ ∀ id ∈ ids, live.reverse.lookup id ≠ none → s.permits.find? id ≠ none) ∧
        Reconciled live ids s s' := by
  induction ids generalizing s with
  | nil => exact ⟨iff_of_true rfl fun _ member => (by cases member), .refl live [] s⟩
  | cons attemptId rest ih =>
    unfold reconcileEach
    split
    · rename_i state named
      refine Turn.ensures_bind.mpr (Turn.ensures_get.mpr ?_)
      dsimp only
      split
      · -- the `KeyError`
        rename_i absent
        refine Turn.ensures_throw.mpr ⟨iff_of_false (by rintro ⟨⟩) fun held => ?_, .refl _ _ s⟩
        exact held attemptId List.mem_cons_self (named ▸ Option.some_ne_none state) absent
      · rename_i permit found
        have key (p : Permit) : Keyed.key { p with state := state } = Keyed.key p := rfl
        have kept (id : String) : (s.permits.modify attemptId fun p =>
            { p with state := state }).find? id = none ↔ s.permits.find? id = none :=
          ⟨fun absent => Table.find?_eq_none_of_modify absent key,
            fun absent => Table.find?_modify_eq_none absent key⟩
        refine Turn.ensures_bind.mpr (Turn.ensures_modify.mpr ((ih _).mono ?_))
        rintro outcome s' ⟨raises, later⟩
        refine ⟨raises.trans ⟨fun held id member => ?_, fun held id member live => ?_⟩,
          later.after rfl (fun id other => ?_) (not_imp_not.mpr (kept attemptId).mpr) ?_⟩
        · rcases List.mem_cons.mp member with rfl | member
          · exact fun _ => found ▸ Option.some_ne_none permit
          · exact fun live => mt (kept id).mpr (held id member live)
        · exact mt (kept id).mp (held id (List.mem_cons_of_mem _ member) live)
        · exact (Table.find?_modify key).trans (if_neg other.symm)
        · exact fun absent before => absurd ((kept attemptId).mp absent) before
    · rename_i unnamed
      have gone : (s.release attemptId).permits.find? attemptId = none :=
        Table.find?_erase.trans (if_pos rfl)
      have apart (id : String) (other : id ≠ attemptId) :
          (s.release attemptId).permits.find? id = s.permits.find? id :=
        Table.find?_erase.trans (if_neg other.symm)
      refine Turn.ensures_bind.mpr (Turn.ensures_modify.mpr ((ih _).mono ?_))
      rintro outcome s' ⟨raises, later⟩
      refine ⟨raises.trans ⟨fun held id member live => ?_, fun held id member live => ?_⟩,
        later.after rfl apart (fun now => absurd gone now) fun _ _ => unnamed⟩
      · -- the attempt that was given back is not among those that the answer names
        have other : id ≠ attemptId := by
          rintro rfl
          exact live unnamed
        rw [← apart id other]
        exact held id ((List.mem_cons.mp member).resolve_left other) live
      · have other : id ≠ attemptId := by
          rintro rfl
          exact live unnamed
        rw [apart id other]
        exact held id (List.mem_cons_of_mem _ member) live

/-! ### What the rest of the turn leaves alone -/

/-- The permits and the pools are the same, and the loop has the control plane if it had it. -/
structure Untouched (s s' : MemoryScheduler) : Prop where
  ready : s'.controlReady = s.controlReady
  permits : s'.permits = s.permits
  pools : s'.pools = s.pools

namespace Untouched

theorem refl (s : MemoryScheduler) : Untouched s s := ⟨rfl, rfl, rfl⟩

theorem trans {s₁ : MemoryScheduler} (first : Untouched s s₁) (second : Untouched s₁ s') :
    Untouched s s' :=
  ⟨second.ready.trans first.ready, second.permits.trans first.permits,
    second.pools.trans first.pools⟩

theorem foldl {α : Type} {f : MemoryScheduler → α → MemoryScheduler}
    (step : ∀ s item, Untouched s (f s item)) (items : List α) (s : MemoryScheduler) :
    Untouched s (items.foldl f s) := by
  induction items generalizing s with
  | nil => exact refl s
  | cons item rest ih => exact (step s item).trans (ih (f s item))

theorem expireRequests (now : Time) : Untouched s (s.expireRequests now) := by
  unfold MemoryScheduler.expireRequests
  refine trans (foldl (fun s item => ?_) _ s) (foldl (fun s waiter => ?_) _ _)
  · exact ⟨rfl, rfl, rfl⟩
  · exact ⟨removeWaiter_controlReady _, removeWaiter_permits _ _, removeWaiter_pools _ _⟩

theorem settleNext (clock : Clock) (pending : List (String × Finset String))
    (s : MemoryScheduler) : Untouched s (settleNext clock pending s).scheduler := by
  induction pending generalizing s with
  | nil => exact expireRequests _
  | cons item rest ih =>
    unfold Scheduling.settleNext
    split
    · exact ih s
    · split
      · exact refl s
      · have forgotten : Untouched s (s.forgetStreak item.1) := ⟨rfl, rfl, rfl⟩
        exact forgotten.trans (ih _)

theorem settleBegin (clock : Clock) (s : MemoryScheduler) :
    Untouched s (settleBegin clock s).scheduler := by
  have kept : Untouched s (s.keepStreaks s.pendingUnknown) := ⟨rfl, rfl, rfl⟩
  exact kept.trans (settleNext clock _ _)

theorem probeNext (clock : Clock) (pools : List String) (s : MemoryScheduler) :
    Untouched s (probeNext clock pools s).scheduler := by
  induction pools generalizing s with
  | nil =>
    have expired : Untouched s (s.expireDirty clock.monotonic) := ⟨rfl, rfl, rfl⟩
    unfold Scheduling.probeNext reconcileBegin
    split
    · exact expired.trans (settleBegin clock _)
    · exact expired
  | cons poolId rest ih =>
    unfold Scheduling.probeNext
    split
    · exact refl s
    · exact ih s

end Untouched

/-- The loop has the control plane after the answer if it had it before and does not raise. -/
theorem maintain_live {clock : Clock} {active : List String} {live : List (String × PermitState)}
    (s : MemoryScheduler) :
    let after := (maintain clock s (.reconciling active) (.live live)).scheduler
    (after.controlReady = true ↔ s.controlReady = true ∧
        (reconcileEach live active).outcome s = .ok ()) ∧
      after.permits = ((reconcileEach live active).final s).permits := by
  obtain ⟨-, done⟩ := reconcileEach_spec live active s
  unfold maintain Turn.outcome Turn.final
  unfold Turn.final at done
  dsimp only
  generalize reconcileEach live active s = ended at done ⊢
  cases ended with
  | ok value s' =>
    have rest : Untouched s' (settleBegin clock s').scheduler := .settleBegin clock s'
    refine ⟨?_, rest.permits⟩
    rw [rest.ready, done.ready]
    exact (and_iff_left rfl).symm
  | error error s' => exact ⟨iff_of_false Bool.false_ne_true fun both => (by cases both.2), rfl⟩

/-! ### Direct permits and others -/

/-- The identifiers of direct attempts are `drawn`, no other permit has one of these, and the
attempts that `needs` names have permits. -/
structure Parted (drawn needs : String → Prop) (s : MemoryScheduler) : Prop where
  attempts : ∀ id, s.directAttempts.find? id ≠ none → drawn id
  permits : ∀ id permit, s.permits.find? id = some permit → (permit.kind = .direct ↔ drawn id)
  holds : ∀ id, needs id → s.permits.find? id ≠ none

namespace Parted

variable {drawn needs : String → Prop}

/-- Only direct attempts and permits matter. -/
theorem of_same (parted : Parted drawn needs s)
    (attempts : ∀ id, s'.directAttempts.find? id ≠ none → s.directAttempts.find? id ≠ none)
    (permits : s'.permits = s.permits) : Parted drawn needs s' where
  attempts id found := parted.attempts id (attempts id found)
  permits id permit found := parted.permits id permit (permits ▸ found)
  holds id need := permits ▸ parted.holds id need

theorem put (parted : Parted drawn needs s) {permit : Permit}
    (fits : permit.kind = .direct ↔ drawn permit.attemptId)
    (permits : s'.permits = s.permits.put permit)
    (attempts : ∀ id, s'.directAttempts.find? id ≠ none →
      s.directAttempts.find? id ≠ none ∨ drawn id) : Parted drawn needs s' := by
  refine ⟨fun id found => ?_, fun id other found => ?_, fun id need => ?_⟩
  · exact (attempts id found).elim (parted.attempts id) fun new => new
  · rw [permits, Table.find?_put] at found
    split at found
    · rename_i same
      cases found
      exact same ▸ fits
    · exact parted.permits id other found
  · rw [permits, Table.find?_put]
    split
    · exact Option.some_ne_none _
    · exact parted.holds id need

theorem modify (parted : Parted drawn needs s) {attemptId : String} {f : Permit → Permit}
    (permits : s'.permits = s.permits.modify attemptId f)
    (key : ∀ p, (f p).attemptId = p.attemptId) (kind : ∀ p, (f p).kind = p.kind)
    (attempts : ∀ id, s'.directAttempts.find? id ≠ none → s.directAttempts.find? id ≠ none) :
    Parted drawn needs s' := by
  refine ⟨fun id found => parted.attempts id (attempts id found), fun id permit found => ?_,
    fun id need => ?_⟩
  · rw [permits] at found
    obtain ⟨old, here, ⟨-, rfl⟩ | ⟨-, rfl⟩⟩ := Table.find?_of_modify found key
    · rw [kind]
      exact parted.permits id old here
    · exact parted.permits id _ here
  · rw [permits]
    exact fun absent => parted.holds id need (Table.find?_eq_none_of_modify absent key)

theorem release (parted : Parted drawn needs s) {attemptId : String} (free : ¬ needs attemptId) :
    Parted drawn needs (s.release attemptId) := by
  have erased (id : String) : (s.release attemptId).permits.find? id =
      if attemptId = id then none else s.permits.find? id := Table.find?_erase
  refine ⟨parted.attempts, fun id permit found => ?_, fun id need => ?_⟩
  · rw [erased] at found
    split at found
    · cases found
    · exact parted.permits id permit found
  · rw [erased]
    split
    · rename_i same
      exact absurd (same ▸ need) free
    · exact parted.holds id need

/-- The permits that there are now are there. -/
theorem holding (parted : Parted drawn needs s) (kept : String → Prop) :
    Parted drawn (fun id => kept id ∧ s.permits.find? id ≠ none) s :=
  ⟨parted.attempts, parted.permits, fun _ need => need.2⟩

end Parted

/-- Direct attempts get identifiers that are drawn, executors ask for others, and what may be
over needs no permit. -/
def Scope.parting (drawn gone : String → Prop) : Scope where
  drawn := drawn
  asked id := ¬ drawn id
  gone := gone

section Moves

variable {drawn gone needs : String → Prop}

/-- Moves keep the permits of attempts that are neither direct nor over. -/
theorem Move.parted (move : Move (.parting drawn gone) s s') (parted : Parted drawn needs s)
    (free : ∀ id, needs id → ¬ drawn id ∧ ¬ gone id) : Parted drawn needs s' := by
  cases move with
  | quiet same =>
    exact parted.of_same (fun id found => same.directAttempts ▸ found) same.permits
  | withdraw identity =>
    exact parted.of_same (fun id found => removeWaiter_directAttempts s identity ▸ found)
      (removeWaiter_permits _ _)
  | forget identity =>
    refine parted.of_same (fun id found absent => found ?_) rfl
    unfold MemoryScheduler.forget
    rw [Table.find?_filter, absent]
    rfl
  | prune | disown | adopt | regain | weigh | wait =>
    exact parted.of_same (fun _ found => found) rfl
  | grant reservation new =>
    refine parted.put (iff_of_true rfl new : (reservation.permit.kind = .direct ↔ _))
      (grant_permits s reservation) fun id found => ?_
    rw [grant_directAttempts, Table.find?_put] at found
    split at found
    · rename_i same
      exact Or.inr (same ▸ new)
    · exact Or.inl found
  | progress attemptId state unknownAt =>
    exact parted.modify rfl (fun _ => rfl) (fun _ => rfl) fun id found absent =>
      found (Table.find?_modify_eq_none absent fun _ => rfl)
  | conclude attemptId state idleVerified aside =>
    -- an attempt that needs its permit is not aside: its permit is there, and is not direct
    have unneeded : ¬ needs attemptId := by
      intro need
      obtain ⟨other, -⟩ := free attemptId need
      obtain ⟨permit, found⟩ := Option.ne_none_iff_exists'.mp (parted.holds attemptId need)
      rcases aside with listed | direct
      · exact other (parted.attempts attemptId listed)
      · exact other ((parted.permits attemptId permit found).mp (direct permit found))
    have edited : Parted drawn needs (s.editDirect attemptId fun p =>
        { p with state := state p.state, idleVerified := idleVerified p.idleVerified }) :=
      parted.modify rfl (fun _ => rfl) (fun _ => rfl) fun id found absent =>
        found (Table.find?_modify_eq_none absent fun _ => rfl)
    exact edited.release unneeded
  | observe attemptId state =>
    exact parted.modify rfl (fun _ => rfl) (fun _ => rfl) fun _ found => found
  | drop attemptId isOver => exact parted.release fun need => (free attemptId need).2 isOver
  | grantDurable call allowed asked =>
    have durable : call.permit.kind = .direct ↔ drawn call.permit.attemptId :=
      iff_of_false (by rintro ⟨⟩) asked
    exact parted.put durable (grantDurable_permits s call)
      fun id found => Or.inl (grantDurable_directAttempts s call ▸ found)

theorem Path.parted (path : Path (.parting drawn gone) s s') (parted : Parted drawn needs s)
    (free : ∀ id, needs id → ¬ drawn id ∧ ¬ gone id) : Parted drawn needs s' := by
  induction path with
  | refl => exact parted
  | tail _ move ih => exact move.parted ih free

/-- What holds of the moves holds of the turns. -/
theorem Process.step_parted {p : Process} {event : Event} (parted : Parted drawn needs p.scheduler)
    (free : ∀ id, needs id → ¬ drawn id ∧ ¬ gone id)
    (calls : p.CallsKnow (.parting drawn gone)) (inScope : p.InScope (.parting drawn gone) event) :
    Parted drawn needs (p.step event).scheduler ∧
      (p.step event).CallsKnow (.parting drawn gone) := by
  obtain ⟨s, joined, path, calls⟩ :=
    Process.step_turns rfl rfl rfl (fun _ _ _ => trivial) calls inScope
  refine ⟨path.parted ?_ free, calls⟩
  rcases joined with rfl | ⟨clock, uuid, call, request, poolId, ownerId, -, -, -, -, rfl⟩
  · exact parted
  · exact parted.of_same (fun _ found => found) rfl

end Moves

/-! ### The start -/

section Start

variable {drawn : String → Prop}

/-- The attempts that a start reads. -/
def Start.attemptIds (start : Start) : List String :=
  start.reading.durable.map HydratedAttempt.attemptId ++
    start.reading.legacy.map LegacyAttempt.attemptId

/-- Permits that are not direct are added one by one. -/
theorem Parted.putAll (parted : Parted drawn (fun _ => False) s) (permits : List Permit)
    (fits : ∀ permit ∈ permits, permit.kind ≠ .direct ∧ ¬ drawn permit.attemptId) :
    Parted drawn (fun _ => False) { s with permits := permits.foldl Table.put s.permits } := by
  induction permits generalizing s with
  | nil => exact parted
  | cons permit rest ih =>
    obtain ⟨kind, other⟩ := fits permit List.mem_cons_self
    have added : Parted drawn (fun _ => False) { s with permits := s.permits.put permit } :=
      parted.put (iff_of_false kind other) rfl fun _ found => Or.inl found
    exact ih added fun later member => fits later (List.mem_cons_of_mem _ member)

/-- The marks of a start leave the permits alone. -/
theorem markEach_permits (boot : String) (began until' : Time) (poolIds : List String)
    (owners : Owners) (s : MemoryScheduler) :
    let marked := MemoryScheduler.markEach boot began until' poolIds owners s
    marked.permits = s.permits ∧ marked.directAttempts = s.directAttempts := by
  induction poolIds generalizing owners s with
  | nil => exact ⟨rfl, rfl⟩
  | cons other rest ih =>
    have first : (s.mark boot other (owners other)).permits = s.permits ∧
        (s.mark boot other (owners other)).directAttempts = s.directAttempts := by
      unfold MemoryScheduler.mark
      split
      · split <;> exact ⟨rfl, rfl⟩
      · exact ⟨rfl, rfl⟩
    unfold MemoryScheduler.markEach
    dsimp only
    split
    · exact first
    · exact ⟨(ih _ _).1.trans first.1, (ih _ _).2.trans first.2⟩

/-- A scheduler that starts has the permits of the attempts it has read. -/
theorem Parted.start {start : Start} (permits : s.permits = .empty)
    (attempts : s.directAttempts = .empty) (apart : ∀ id ∈ start.attemptIds, ¬ drawn id) :
    Parted drawn (fun _ => False) (s.start start) := by
  have new : Parted drawn (fun _ => False) (s.markedBy start) := by
    obtain ⟨permits', attempts'⟩ : (s.markedBy start).permits = s.permits ∧
        (s.markedBy start).directAttempts = s.directAttempts :=
      markEach_permits _ _ _ _ _ s
    refine ⟨fun id found => ?_, fun id permit found => ?_, fun _ => False.elim⟩
    · exact absurd (by rw [attempts'.trans attempts]; rfl) found
    · rw [permits'.trans permits] at found
      cases found
  have read : Parted drawn (fun _ => False)
      ((s.markedBy start).adopt start.clock start.reading.records [] []) :=
    (@adopt_path (.parting drawn fun _ => True) _ rfl rfl start.clock start.reading.records
      (fun _ _ => trivial) fun _ _ _ _ => trivial).parted new fun _ => False.elim
  have added : Parted drawn (fun _ => False) ((s.markedBy start).adopt start.clock
      start.reading.records start.reading.durable start.reading.legacy) := by
    refine read.putAll (start.reading.durable.map HydratedAttempt.permit ++
      start.reading.legacy.map LegacyAttempt.permit) fun permit member => ?_
    rcases List.mem_append.mp member with member | member
    · obtain ⟨item, here, rfl⟩ := List.mem_map.mp member
      refine ⟨by rintro ⟨⟩, apart _ (List.mem_append_left _ ?_)⟩
      exact List.mem_map_of_mem here
    · obtain ⟨item, here, rfl⟩ := List.mem_map.mp member
      refine ⟨by rintro ⟨⟩, apart _ (List.mem_append_right _ ?_)⟩
      exact List.mem_map_of_mem here
  obtain ⟨permits', attempts', -⟩ := open_same ((s.markedBy start).adopt start.clock
      start.reading.records start.reading.durable start.reading.legacy) start.clock
  exact added.of_same (fun id found => attempts' ▸ found) permits'

end Start

/-! ### Runs -/

/-- Whether the loop awaits this answer. -/
instance (on : Maintenance) (active : List String) : Decidable (on = .reconciling active) :=
  match on with
  | .reconciling asked =>
    decidable_of_iff (asked = active) ⟨congrArg _, Maintenance.reconciling.inj⟩
  | .sleeping | .refreshing | .probing _ _ | .proving _ _ _ _ | .settling _ _ => isFalse nofun

/-- A runtime API, its ledger, and what the query of `_reconcile_durable` has found. -/
structure Reconciliation where
  process : Process
  db : Db
  /-- The ledger as it was when the query was executed, until the answer arrives. -/
  queried : Option Db := none
  /-- The attempts whose permits `durable_release` has given back, and that have no permit
  since. The code keeps no such record. -/
  returned : List String := []

/-- What happens next. -/
inductive ReconciliationEvent
  /-- A transaction commits, whatever it does. -/
  | ledger (db : Db)
  /-- A turn of the runtime API, other than the one that gets the answer to the query. -/
  | turn (event : Event)
  /-- The query is executed. -/
  | query
  /-- Its answer arrives. -/
  | answer (clock : Clock)

/-- The answer to the query of `_reconcile_durable`. -/
def Event.answersLive : Event → Bool
  | .maintain _ (.live _) => true
  | _ => false

/-- The attempt whose permit a turn of `durable_release` gives back. -/
def Process.givesBack (p : Process) : Event → Option String
  | .resume _ id (.computeHeld held) =>
    match p.calls id with
    | some (.releasing attemptId) => if held = some true then none else some attemptId
    | _ => none
  | _ => none

namespace ReconciliationEvent

/-- The identifiers that new direct attempts may get. -/
def draws : ReconciliationEvent → List String
  | .turn event => event.draws
  | _ => []

/-- The attempts that executors ask permits for. -/
def asks : ReconciliationEvent → List String
  | .turn (.acquire _ call) => [call.attemptId]
  | _ => []

end ReconciliationEvent

namespace Reconciliation

variable (σ : Reconciliation)

/-- A turn of the runtime API. -/
def turn (event : Event) : Reconciliation :=
  let process := σ.process.step event
  { σ with
    process
    queried := if event.maintains then none else σ.queried
    returned := ((σ.process.givesBack event).toList ++ σ.returned).filter fun id =>
      process.scheduler.permits.find? id = none }

/-- One step. What cannot happen changes nothing. -/
def step : ReconciliationEvent → Reconciliation
  | .ledger db => { σ with db }
  | .turn event => if event.answersLive then σ else σ.turn event
  | .query =>
    match σ.process.maintenance with
    | .reconciling _ => { σ with queried := some σ.db }
    | _ => σ
  | .answer clock =>
    match σ.process.maintenance, σ.queried with
    | .reconciling active, some d => σ.turn (.maintain clock (.live (liveOf d active)))
    | _, _ => σ

/-- Any sequence of steps. -/
def after (events : List ReconciliationEvent) : Reconciliation := events.foldl step σ

/-- A runtime API that has started. -/
def begun (s : MemoryScheduler) (start : Start) (db : Db) : Reconciliation where
  process := { scheduler := s.start start }
  db := db

/-- Of the attempts that the loop has asked about, the query has found none whose permit was
given back meanwhile. -/
def Spared (active : List String) (d : Db) : Prop :=
  ∀ id ∈ σ.returned, id ∈ active → ¬ Shows d id

instance (active : List String) (d : Db) : Decidable (σ.Spared active d) := by
  unfold Spared
  infer_instance

/-- The direct attempts of a run have identifiers that no durable or legacy attempt has:
`uuid4` does not repeat itself. -/
def Apart (start : Start) (events : List ReconciliationEvent) : Prop :=
  ∀ id ∈ events.flatMap ReconciliationEvent.draws,
    id ∉ events.flatMap ReconciliationEvent.asks ∧ id ∉ start.attemptIds

instance (start : Start) (events : List ReconciliationEvent) : Decidable (Apart start events) := by
  unfold Apart
  infer_instance

/-- What holds between two steps. -/
structure Sound (drawn : String → Prop) : Prop where
  parted : Parted drawn (fun _ => False) σ.process.scheduler
  calls : σ.process.CallsKnow (.parting drawn fun _ => True)
  /-- The loop waits for attempts that are not direct, and whose permits are there unless they
  were given back. -/
  waiting : ∀ active, σ.process.maintenance = .reconciling active → ∀ id ∈ active,
    ¬ drawn id ∧ (σ.process.scheduler.permits.find? id = none → id ∈ σ.returned)
  returned : ∀ id ∈ σ.returned, σ.process.scheduler.permits.find? id = none

variable {σ} {drawn : String → Prop}

/-- What a turn of a caller, an executor or a timer brings is in scope. -/
theorem inScope_parting {p : Process} {event : Event}
    (caller : ∀ clock notice, event ≠ .maintain clock notice)
    (draws : ∀ id ∈ event.draws, drawn id)
    (asks : ∀ id call, event = .acquire id call → ¬ drawn call.attemptId) :
    p.InScope (.parting drawn fun id => p.givesBack event = some id) event := by
  cases event with
  | direct clock uuid call =>
    exact ⟨rfl, call.fits_of_free (draws uuid List.mem_cons_self) (fun _ => trivial)
      fun _ => trivial⟩
  | acquire id call => exact asks id call rfl
  | resume clock id answer =>
    intro on found
    unfold Scope.Hears
    split
    · rename_i attemptId held
      intro unheld
      have back : p.givesBack (.resume clock id (.computeHeld held)) =
          if held = some true then none else some attemptId := by
        unfold Process.givesBack
        simp only [found]
      exact back.trans (if_neg unheld)
    · trivial
  | maintain clock notice => exact absurd rfl (caller clock notice)
  | release | interrupt | timer => trivial

theorem inScope_maintain {p : Process} (clock : Clock) (notice : Notice) :
    p.InScope (.parting drawn fun _ => True) (.maintain clock notice) :=
  ⟨rfl, Scope.heeds_of_gone (fun _ => trivial) (fun _ => trivial) _ fun _ _ _ =>
    ⟨rfl, fun _ _ => trivial⟩, Scope.readies rfl rfl notice, fun _ _ => trivial⟩

/-- The loop goes on waiting for the ledger only if it is told nothing. -/
theorem maintain_waits {clock : Clock} {s : MemoryScheduler} {active : List String}
    {notice : Notice}
    (waits : (maintain clock s (.reconciling active) notice).next = .reconciling active) :
    (maintain clock s (.reconciling active) notice).scheduler = s := by
  cases notice with
  | live held =>
    unfold maintain at waits
    dsimp only at waits
    split at waits
    · exact absurd waits (settleNext_next _ _)
    · cases waits
  | failed => cases waits
  | ticked | refreshed | slots | proof | settled => rfl

/-- A turn keeps the invariant. -/
theorem Sound.turn (sound : σ.Sound drawn) {event : Event} (draws : ∀ id ∈ event.draws, drawn id)
    (asks : ∀ id call, event = .acquire id call → ¬ drawn call.attemptId) :
    (σ.turn event).Sound drawn := by
  have absent : ∀ id ∈ (σ.turn event).returned,
      (σ.turn event).process.scheduler.permits.find? id = none :=
    fun id member => of_decide_eq_true (List.mem_filter.mp member).2
  by_cases caller : ∃ clock notice, event = .maintain clock notice
  · obtain ⟨clock, notice, rfl⟩ := caller
    obtain ⟨parted, calls⟩ := Process.step_parted sound.parted (fun _ => False.elim) sound.calls
      (inScope_maintain clock notice)
    refine ⟨parted, calls, fun active waits id member => ?_, absent⟩
    have waits : (maintain clock σ.process.scheduler σ.process.maintenance notice).next =
        .reconciling active := waits
    rcases maintain_next waits with before | now
    · -- the loop has not been told anything that it waits for
      rw [before] at waits
      obtain ⟨other, returned⟩ := sound.waiting active before id member
      refine ⟨other, fun absent => List.mem_filter.mpr ⟨?_, decide_eq_true absent⟩⟩
      have absent : (maintain clock σ.process.scheduler σ.process.maintenance
        notice).scheduler.permits.find? id = none := absent
      rw [before, maintain_waits waits] at absent
      exact List.mem_append_right _ (returned absent)
    · rw [now] at member
      obtain ⟨permit, here, rfl⟩ := List.mem_map.mp member
      obtain ⟨here, kind⟩ := List.mem_filter.mp here
      have found := Table.find?_of_mem here
      exact ⟨(not_congr (parted.permits _ permit found)).mp (of_decide_eq_true kind),
        fun absent => absurd (found.symm.trans absent) (Option.some_ne_none permit)⟩
  · have caller : ∀ clock notice, event ≠ .maintain clock notice :=
      fun clock notice same => caller ⟨clock, notice, same⟩
    have kept := sound.parted.holding fun id => ¬ drawn id ∧ σ.process.givesBack event ≠ some id
    obtain ⟨parted, calls⟩ := Process.step_parted kept (fun _ need => need.1) sound.calls
      (inScope_parting caller draws asks)
    refine ⟨⟨parted.attempts, parted.permits, fun _ => False.elim⟩, calls,
      fun active waits id member => ?_, absent⟩
    obtain ⟨other, returned⟩ := sound.waiting active
      ((Process.step_maintenance caller).symm.trans waits) id member
    refine ⟨other, fun absent => List.mem_filter.mpr ⟨?_, decide_eq_true absent⟩⟩
    by_cases back : σ.process.givesBack event = some id
    · exact List.mem_append_left _ (Option.mem_toList.mpr back)
    · refine List.mem_append_right _ (returned ?_)
      by_contra held
      exact parted.holds id ⟨⟨other, back⟩, held⟩ absent

theorem step_sound (sound : σ.Sound drawn) {event : ReconciliationEvent}
    (draws : ∀ id ∈ event.draws, drawn id) (asks : ∀ id ∈ event.asks, ¬ drawn id) :
    (σ.step event).Sound drawn := by
  cases event with
  | ledger db => exact ⟨sound.parted, sound.calls, sound.waiting, sound.returned⟩
  | turn event =>
    simp only [step]
    split
    · exact sound
    · refine sound.turn draws fun id call same => asks _ ?_
      rw [same]
      exact List.mem_cons_self
  | query =>
    simp only [step]
    split
    · exact ⟨sound.parted, sound.calls, sound.waiting, sound.returned⟩
    · exact sound
  | answer clock =>
    simp only [step]
    split
    · refine sound.turn (fun id member => ?_) fun id call same => ?_
      · cases member
      · cases same
    · exact sound

/-- Every run keeps the invariant. -/
theorem after_sound (sound : σ.Sound drawn) {events : List ReconciliationEvent}
    (draws : ∀ event ∈ events, ∀ id ∈ event.draws, drawn id)
    (asks : ∀ event ∈ events, ∀ id ∈ event.asks, ¬ drawn id) : (σ.after events).Sound drawn := by
  induction events generalizing σ with
  | nil => exact sound
  | cons event rest ih =>
    have first : (σ.step event).Sound drawn :=
      step_sound sound (draws event List.mem_cons_self) (asks event List.mem_cons_self)
    exact ih first (fun later member => draws later (List.mem_cons_of_mem _ member))
      fun later member => asks later (List.mem_cons_of_mem _ member)

theorem begun_sound {s : MemoryScheduler} {start : Start} (db : Db) (permits : s.permits = .empty)
    (attempts : s.directAttempts = .empty) (apart : ∀ id ∈ start.attemptIds, ¬ drawn id) :
    (begun s start db).Sound drawn where
  parted := .start permits attempts apart
  calls _ _ found := by cases found
  waiting _ waits := by cases waits
  returned _ member := by cases member

variable {s : MemoryScheduler} {start : Start} {db d : Db} {events : List ReconciliationEvent}
  {active : List String}

/-- Whenever the answer of the ledger comes: the loop raises, and the control plane is lost,
if and only if the query has found an attempt whose permit was given back meanwhile. No direct
permit changes, no permit appears, and a permit goes only if the query has not found its
attempt. -/
theorem reconciles (permits : s.permits = .empty) (attempts : s.directAttempts = .empty)
    (apart : Apart start events)
    (waits : ((begun s start db).after events).process.maintenance = .reconciling active)
    (queried : ((begun s start db).after events).queried = some d) (clock : Clock) :
    let σ := (begun s start db).after events
    let before := σ.process.scheduler
    let after := (σ.step (.answer clock)).process.scheduler
    ((reconcileEach (liveOf d active) active).outcome before = .ok () ↔ σ.Spared active d) ∧
      (after.controlReady = true ↔ before.controlReady = true ∧ σ.Spared active d) ∧
      ∀ id, after.permits.find? id = before.permits.find? id ∨
        ∃ permit, before.permits.find? id = some permit ∧ permit.kind ≠ .direct ∧
          (after.permits.find? id = none → ¬ Shows d id) := by
  intro σ before after
  have sound : σ.Sound fun id => id ∈ events.flatMap ReconciliationEvent.draws := by
    refine after_sound (begun_sound db permits attempts fun id read drawn => ?_)
      (fun event member id draws => List.mem_flatMap.mpr ⟨event, member, draws⟩)
      fun event member id asks drawn => ?_
    · exact (apart id drawn).2 read
    · exact (apart id drawn).1 (List.mem_flatMap.mpr ⟨event, member, asks⟩)
  have answered : after =
      (maintain clock before (.reconciling active) (.live (liveOf d active))).scheduler := by
    have step : σ.step (.answer clock) =
        σ.turn (.maintain clock (.live (liveOf d active))) := by
      simp only [step, σ, waits, queried]
    show (σ.step (.answer clock)).process.scheduler = _
    rw [step]
    show (maintain clock before σ.process.maintenance _).scheduler = _
    rw [waits]
  obtain ⟨ready, rest⟩ := @maintain_live clock active (liveOf d active) before
  obtain ⟨raises, done⟩ := reconcileEach_spec (liveOf d active) active before
  have spared : (reconcileEach (liveOf d active) active).outcome before = .ok () ↔
      σ.Spared active d := by
    refine raises.trans ⟨fun held id returned member live => ?_, fun spared id member live => ?_⟩
    · exact held id member ((shows_iff member).mpr live) (sound.returned id returned)
    · refine fun absent => spared id ?_ member ((shows_iff member).mp live)
      exact (sound.waiting active waits id member).2 absent
  refine ⟨spared, ?_, fun id => ?_⟩
  · rw [answered, ready, spared]
  · rw [answered, rest]
    refine (done.permits id).imp_right fun ⟨member, held, gone⟩ => ?_
    obtain ⟨permit, found⟩ := Option.ne_none_iff_exists'.mp held
    obtain ⟨other, -⟩ := sound.waiting active waits id member
    refine ⟨permit, found, (not_congr (sound.parted.permits id permit found)).mpr other,
      fun absent live => ?_⟩
    exact (shows_iff member).mpr live (gone absent)

/-! ### An executor that is done too early -/

/-- A start that finds no other boot. -/
def quietStart : Start where
  began := 1000000
  owners := fun _ => none
  reading := { records := [{ samplePool with
    spec := { samplePool.spec with modelProfile := "m", profileId := "f" } }] }
  clock := ⟨0, 1000000⟩

/-- The executor of the sample gets its permit and sends, and the loop reads the permits. -/
def waiting : List ReconciliationEvent :=
  [.ledger (Ledger.Sample.after Ledger.Sample.reserved), .turn (.acquire 0 Deployment.sampleCall),
    .turn (.resume ⟨1, 1000000⟩ 0 (.attempt (some Deployment.sampleAttempt))),
    .ledger (Ledger.Sample.after Ledger.Sample.sent), .turn (.maintain ⟨2, 1000000⟩ .ticked),
    .turn (.maintain ⟨3, 1000000⟩ (.refreshed quietStart.reading.records []))]

/-- The query finds the attempt, which holds compute. -/
def asked : List ReconciliationEvent := waiting ++ [.query]

/-- The engine is done, and the executor gives its permit back before the answer arrives. -/
def askedAndDone : List ReconciliationEvent := asked ++
  [.ledger (Ledger.Sample.after (Ledger.Sample.sent ++
      [.call (Ledger.Sample.env "") (.computeFinished Ledger.Sample.reservation)])),
    .turn (.release 0 "a" "w"), .turn (.resume ⟨4, 1000000⟩ 0 (.computeHeld (some false)))]

/-- The runtime API of the sample, which has just started. -/
def sampleBegun : Reconciliation := begun newScheduler quietStart (Db.empty {})

/-- The attempt keeps its permit, as the answer names it. -/
theorem reconciles_sample :
    let σ := sampleBegun.after asked
    let after := (σ.step (.answer ⟨5, 1000000⟩)).process.scheduler
    after.controlReady = true ↔ σ.process.scheduler.controlReady = true ∧
      σ.Spared ["a"] (Ledger.Sample.after Ledger.Sample.sent) := by
  have waits : (sampleBegun.after waiting).process.maintenance = .reconciling ["a"] := by
    decide +kernel
  have queried : (sampleBegun.after asked).queried =
      some (Ledger.Sample.after Ledger.Sample.sent) := by
    show ((sampleBegun.after waiting).step .query).queried = _
    simp only [step, waits]
    rfl
  have waits' : (sampleBegun.after asked).process.maintenance = .reconciling ["a"] := by
    decide +kernel
  exact (reconciles rfl rfl (by decide) waits' queried ⟨5, 1000000⟩).2.1

/-- The answer names an attempt that has no permit any more, and the control plane is lost. -/
theorem reconciles_fails :
    let σ := sampleBegun.after askedAndDone
    Apart quietStart askedAndDone ∧ σ.process.maintenance = .reconciling ["a"] ∧
      σ.process.scheduler.controlReady = true ∧
      (σ.step (.answer ⟨5, 1000000⟩)).process.scheduler.controlReady = false := by
  decide +kernel

end Reconciliation

end IntramindRuntime.Scheduling
