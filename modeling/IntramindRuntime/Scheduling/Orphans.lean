import IntramindRuntime.Scheduling.Moves

/-!
# Direct attempts that nobody collects

A direct attempt outlives its permit, so that its caller can still ask what became of it.
It is dropped together with the identity of its request, unless it holds a permit at that
moment. A permit that ends later leaves an attempt that no turn will ever drop.

## Main definitions

* `MemoryScheduler.Remembers`, `NoOrphans` — every attempt can still be dropped
* `Process.retired` — the attempts whose permits a turn takes away
* `Process.Collects` — the condition on a turn

## Main results

* `Process.no_orphans` — in a run that meets the condition, no attempt is left behind
* `no_orphans_fails` — an attempt that ends after its identity was forgotten stays for ever
-/

namespace IntramindRuntime.Scheduling

open Library Relation

variable {s s' : MemoryScheduler}

/-- The request of an attempt is remembered. -/
def MemoryScheduler.Remembers (s : MemoryScheduler) (attempt : Permit) : Prop :=
  ∃ requestId ∈ attempt.requestId, s.requestIdentity.find? requestId ≠ none

instance (attempt : Permit) : Decidable (s.Remembers attempt) := by
  unfold MemoryScheduler.Remembers
  infer_instance

/-- Every direct attempt holds a permit, or its request is remembered. -/
def NoOrphans (s : MemoryScheduler) : Prop :=
  ∀ attempt ∈ s.directAttempts.rows,
    s.permits.find? attempt.attemptId ≠ none ∨ s.Remembers attempt

instance : Decidable (NoOrphans s) := by
  unfold NoOrphans
  infer_instance

/-! ### What a move does to an attempt -/

/-- The attempt with an identifier, if there is one, belongs to a request that is remembered
and that is not to be lost. -/
def MemoryScheduler.Kept (s : MemoryScheduler) (lost : String → Prop) (attemptId : String) : Prop :=
  ∀ attempt, s.directAttempts.find? attemptId = some attempt →
    ∃ requestId ∈ attempt.requestId, s.requestIdentity.find? requestId ≠ none ∧ ¬ lost requestId

/-- Every attempt holds a permit or is kept. -/
def Collectible (lost : String → Prop) (s : MemoryScheduler) : Prop :=
  ∀ attemptId, s.permits.find? attemptId ≠ none ∨ s.Kept lost attemptId

section Moves

variable {lost : String → Prop} {attemptId : String}

/-- An attempt is kept if it stays with its request, and identities stay. -/
theorem MemoryScheduler.Kept.of_follows (kept : s.Kept lost attemptId)
    (attempts : ∀ attempt', s'.directAttempts.find? attemptId = some attempt' →
      ∃ attempt, s.directAttempts.find? attemptId = some attempt ∧
        attempt'.requestId = attempt.requestId)
    (identities : ∀ requestId, ¬ lost requestId → s.requestIdentity.find? requestId ≠ none →
      s'.requestIdentity.find? requestId ≠ none) : s'.Kept lost attemptId := by
  intro attempt' found'
  obtain ⟨attempt, found, same⟩ := attempts attempt' found'
  obtain ⟨requestId, mine, known, stays⟩ := kept attempt found
  exact ⟨requestId, same ▸ mine, identities requestId stays known, stays⟩

/-- Nothing changes for the attempts and the identities. -/
theorem MemoryScheduler.Kept.of_eq (kept : s.Kept lost attemptId)
    (attempts : s'.directAttempts = s.directAttempts)
    (identities : s'.requestIdentity = s.requestIdentity) : s'.Kept lost attemptId :=
  kept.of_follows (fun attempt found => ⟨attempt, attempts ▸ found, rfl⟩)
    fun _ _ known => identities ▸ known

/-- A change of an attempt that leaves its reservation alone. -/
theorem MemoryScheduler.Kept.modify (kept : s.Kept lost attemptId) {id : String}
    {f : Permit → Permit} (attempts : s'.directAttempts = s.directAttempts.modify id f)
    (identities : s'.requestIdentity = s.requestIdentity)
    (key : ∀ p, (f p).attemptId = p.attemptId) (same : ∀ p, (f p).requestId = p.requestId) :
    s'.Kept lost attemptId := by
  refine kept.of_follows (fun attempt' found' => ?_) fun _ _ known => identities ▸ known
  rw [attempts] at found'
  obtain ⟨attempt, found, ⟨rfl, rfl⟩ | ⟨-, rfl⟩⟩ := Table.find?_of_modify found' key
  · exact ⟨attempt, found, same attempt⟩
  · exact ⟨attempt', found, rfl⟩

variable {scope : Scope}

/-- A move keeps an attempt, unless it grants one with this identifier. -/
theorem Move.kept (move : Move scope s s') (keeping : scope.forgetting = false)
    (kept : s.Kept scope.disowned attemptId) :
    s'.Kept scope.disowned attemptId ∨ (scope.drawn attemptId ∧
      s'.permits.find? attemptId ≠ none) := by
  cases move with
  | quiet same => exact Or.inl (kept.of_eq same.directAttempts same.requestIdentity)
  | withdraw identity =>
    exact Or.inl (kept.of_eq (removeWaiter_directAttempts s identity)
      (removeWaiter_requestIdentity s identity))
  | forget identity old =>
    rw [keeping] at old
    cases old
  | disown identity gone disowned =>
    refine Or.inl (kept.of_follows (fun attempt found => ⟨attempt, found, rfl⟩) ?_)
    intro requestId stays known
    have other : identity ≠ requestId := fun same => stays (same ▸ disowned)
    exact fun absent => known ((Table.find?_erase.trans (if_neg other)).symm.trans absent)
  | grant reservation new waits found room =>
    rcases eq_or_ne reservation.attemptId attemptId with rfl | other
    · refine Or.inr ⟨new, ?_⟩
      rw [grant_permits]
      exact fun absent => Option.some_ne_none _ (Table.find?_put_self.symm.trans absent)
    · refine Or.inl (kept.of_follows (fun attempt found => ⟨attempt, ?_, rfl⟩)
        fun _ _ known => grant_requestIdentity s reservation ▸ known)
      rw [grant_directAttempts] at found
      have different : Keyed.key reservation.permit ≠ attemptId := other
      exact (Table.find?_put_of_ne different).symm.trans found
  | progress id => exact Or.inl (kept.modify rfl rfl (fun _ => rfl) fun _ => rfl)
  | conclude id => exact Or.inl (kept.modify rfl rfl (fun _ => rfl) fun _ => rfl)
  | grantDurable call =>
    refine Or.inl (kept.of_eq (grantDurable_directAttempts s call) ?_)
    exact removeWaiter_requestIdentity s call.attemptId
  | prune | observe | drop | adopt | regain | weigh | wait => exact Or.inl (kept.of_eq rfl rfl)

/-- A move takes no permit away but of an attempt that may end or is over. -/
theorem Move.holds (move : Move scope s s') (held : s.permits.find? attemptId ≠ none) :
    s'.permits.find? attemptId ≠ none ∨ scope.ending attemptId ∨ scope.gone attemptId := by
  have put (permit : Permit) : (s.permits.put permit).find? attemptId ≠ none := by
    rw [Table.find?_put]
    split
    · exact Option.some_ne_none _
    · exact held
  have modified {id : String} {f : Permit → Permit} (key : ∀ p, (f p).attemptId = p.attemptId) :
      (s.permits.modify id f).find? attemptId ≠ none :=
    fun absent => held (Table.find?_eq_none_of_modify absent key)
  cases move with
  | quiet same => exact Or.inl (same.permits ▸ held)
  | withdraw identity => exact Or.inl (removeWaiter_permits s identity ▸ held)
  | grant reservation => exact Or.inl (grant_permits s reservation ▸ put reservation.permit)
  | grantDurable call => exact Or.inl (grantDurable_permits s call ▸ put call.permit)
  | progress id => exact Or.inl (modified fun _ => rfl)
  | observe id => exact Or.inl (modified fun _ => rfl)
  | conclude id state idleVerified aside ended unproven cause ending =>
    rcases eq_or_ne id attemptId with rfl | other
    · exact Or.inr (Or.inl ending)
    · refine Or.inl ?_
      rw [find?_endDirect, if_neg other]
      · exact held
      · exact fun _ => rfl
  | drop id isOver =>
    rcases eq_or_ne id attemptId with rfl | other
    · exact Or.inr (Or.inr isOver)
    · exact Or.inl fun absent => held ((Table.find?_erase.trans (if_neg other)).symm.trans absent)
  | prune | forget | disown | adopt | regain | weigh | wait => exact Or.inl held

/-- Moves leave no orphan if the attempts that end are kept, and none of them is new. -/
theorem Path.collectible (path : Path scope s s') (keeping : scope.forgetting = false)
    (ends : ∀ attemptId, scope.ending attemptId ∨ scope.gone attemptId →
      ¬ scope.drawn attemptId ∧ s.Kept scope.disowned attemptId)
    (collectible : Collectible scope.disowned s) : Collectible scope.disowned s' := by
  have both : Collectible scope.disowned s' ∧ ∀ attemptId,
      scope.ending attemptId ∨ scope.gone attemptId → s'.Kept scope.disowned attemptId := by
    induction path with
    | refl => exact ⟨collectible, fun attemptId ending => (ends attemptId ending).2⟩
    | tail _ move ih =>
      obtain ⟨collectible, kept⟩ := ih
      have stays (attemptId : String) (ending : scope.ending attemptId ∨ scope.gone attemptId) :=
        (move.kept keeping (kept attemptId ending)).resolve_right fun new =>
          (ends attemptId ending).1 new.1
      refine ⟨fun attemptId => ?_, stays⟩
      rcases collectible attemptId with held | kept
      · exact (move.holds held).imp_right (stays attemptId)
      · exact (move.kept keeping kept).symm.imp_left And.right
  exact both.1

end Moves

/-! ### Forgetting -/

/-- Forgetting an identity leaves none of its attempts without a permit. -/
theorem NoOrphans.forget (whole : NoOrphans s) (identity : String) :
    NoOrphans (s.forget identity) := by
  intro attempt member
  obtain ⟨here, survives⟩ := List.mem_filter.mp member
  rcases whole attempt here with held | ⟨requestId, mine, known⟩
  · exact Or.inl held
  · rcases eq_or_ne identity requestId with rfl | other
    · refine Or.inl fun absent => ?_
      exact of_decide_eq_true survives ⟨mine, absent⟩
    · refine Or.inr ⟨requestId, mine, fun absent => known ?_⟩
      exact (Table.find?_erase.trans (if_neg other)).symm.trans absent

theorem NoOrphans.removeWaiter (whole : NoOrphans s) (identity : String) :
    NoOrphans (s.removeWaiter identity) := by
  unfold NoOrphans MemoryScheduler.Remembers
  rw [removeWaiter_directAttempts, removeWaiter_permits, removeWaiter_requestIdentity]
  exact whole

theorem NoOrphans.expireRequests (whole : NoOrphans s) (now : Time) :
    NoOrphans (s.expireRequests now) := by
  have forgotten (expired : List Identity) (t : MemoryScheduler) (start : NoOrphans t) :
      NoOrphans (expired.foldl (fun s known => s.forget known.request.requestId) t) := by
    induction expired generalizing t with
    | nil => exact start
    | cons known rest ih => exact ih _ (start.forget _)
  have withdrawn (late : List Waiter) (t : MemoryScheduler) (start : NoOrphans t) :
      NoOrphans (late.foldl (fun s waiter => s.removeWaiter waiter.identity) t) := by
    induction late generalizing t with
    | nil => exact start
    | cons waiter rest ih => exact ih _ (start.removeWaiter _)
  exact withdrawn _ _ (forgotten _ _ whole)

/-- What is left of the direct attempts after old identities are forgotten. -/
theorem mem_expireRequests {now : Time} {attempt : Permit}
    (member : attempt ∈ (s.expireRequests now).directAttempts.rows) :
    attempt ∈ s.directAttempts.rows ∧ ∀ known ∈ s.requestIdentity.rows, known.expires ≤ now →
      s.waiters.find? known.request.requestId = none →
      attempt.requestId = some known.request.requestId →
      s.permits.find? attempt.attemptId ≠ none := by
  have withdrawn (late : List Waiter) (t : MemoryScheduler) :
      (late.foldl (fun s waiter => s.removeWaiter waiter.identity) t).directAttempts =
        t.directAttempts := by
    induction late generalizing t with
    | nil => rfl
    | cons waiter rest ih => exact (ih _).trans (removeWaiter_directAttempts t waiter.identity)
  -- forgetting takes attempts away, and no permits
  have forgotten (expired : List Identity) (t : MemoryScheduler)
      (left : attempt ∈ (expired.foldl (fun s known => s.forget known.request.requestId)
        t).directAttempts.rows) :
      attempt ∈ t.directAttempts.rows ∧ ∀ known ∈ expired,
        attempt.requestId = some known.request.requestId →
        t.permits.find? attempt.attemptId ≠ none := by
    induction expired generalizing t with
    | nil => exact ⟨left, fun _ nothing => by cases nothing⟩
    | cons known rest ih =>
      obtain ⟨here, others⟩ := ih _ left
      obtain ⟨before, survives⟩ := List.mem_filter.mp here
      refine ⟨before, fun other listed mine => ?_⟩
      rcases List.mem_cons.mp listed with rfl | later
      · exact fun absent => of_decide_eq_true survives ⟨mine, absent⟩
      · exact others other later mine
  have left : attempt ∈ ((s.requestIdentity.rows.filter fun known =>
      known.expires ≤ now ∧ s.waiters.find? known.request.requestId = none).foldl
      (fun s known => s.forget known.request.requestId) s).directAttempts.rows :=
    (congrArg (attempt ∈ ·.rows) (withdrawn _ _)).mp member
  obtain ⟨before, held⟩ := forgotten _ _ left
  refine ⟨before, fun known listed old idle => held known ?_⟩
  exact List.mem_filter.mpr ⟨listed, decide_eq_true ⟨old, idle⟩⟩

/-- Once all permits are given back and all identities are too old, the attempts that are left
belong to requests that wait again. -/
theorem NoOrphans.swept (whole : NoOrphans s) {now : Time} (free : s.permits.rows = [])
    (old : ∀ known ∈ s.requestIdentity.rows, known.expires ≤ now) :
    ∀ attempt ∈ (s.expireRequests now).directAttempts.rows,
      ∃ requestId ∈ attempt.requestId, s.waiters.find? requestId ≠ none := by
  intro attempt member
  obtain ⟨before, held⟩ := mem_expireRequests member
  have absent : s.permits.find? attempt.attemptId = none := by
    rw [Table.find?, free]
    rfl
  obtain ⟨requestId, mine, known⟩ := (whole attempt before).resolve_left fun held => held absent
  refine ⟨requestId, mine, fun idle => ?_⟩
  obtain ⟨identity, found⟩ := Option.ne_none_iff_exists'.mp known
  have named : identity.request.requestId = requestId := Table.key_of_find? found
  have listed : identity ∈ s.requestIdentity.rows := Table.mem_of_find? found
  refine held identity listed (old identity listed) ?_ ?_ absent
  · rw [named]
    exact idle
  · rw [named]
    exact mine

/-! ### Turns -/

instance (reservation : DirectReservation) (evidence : Evidence) :
    Decidable (s.Finishes reservation evidence) := by
  unfold MemoryScheduler.Finishes
  infer_instance

/-- The request of a caller that asks once. -/
def Event.asksOnce : Event → Option DirectRequest
  | .direct _ _ (.tryReserve request _ _) => some request
  | _ => none

/-- The permits that the ledger reports as over. -/
def Maintenance.dropped : Maintenance → Notice → List String
  | .reconciling active, .live held =>
    active.filter fun attemptId => held.reverse.lookup attemptId = none
  | _, _ => []

namespace Process

variable {p : Process}

/-- The attempts whose permits a turn takes away, if they hold one. -/
def retired (p : Process) : Event → List String
  | .direct _ _ (.finish reservation evidence) =>
    if p.scheduler.Finishes reservation evidence then [reservation.attemptId] else []
  | .maintain _ notice =>
    (p.scheduler.retired p.maintenance notice).map Permit.attemptId ++
      p.maintenance.dropped notice
  | .resume _ id (.computeHeld held) =>
    match p.calls id with
    | some (.releasing attemptId) => if held = some true then [] else [attemptId]
    | _ => []
  | _ => []

/-- A direct attempt that loses its permit is still remembered, and a request asks once only if
none of its attempts has lost its permit. -/
def Collects (p : Process) (event : Event) : Prop :=
  (∀ attempt ∈ p.scheduler.directAttempts.rows, attempt.attemptId ∈ p.retired event →
    p.scheduler.permits.find? attempt.attemptId ≠ none → p.scheduler.Remembers attempt) ∧
  ∀ request ∈ event.asksOnce, ∀ attempt ∈ p.scheduler.directAttempts.rows,
    attempt.requestId = some request.requestId →
    p.scheduler.permits.find? attempt.attemptId ≠ none

instance (p : Process) (event : Event) : Decidable (p.Collects event) := by
  unfold Collects
  infer_instance

/-- Who asks once ends nothing. -/
theorem asksOnce_of_retired {event : Event} {attemptId : String}
    (ending : attemptId ∈ p.retired event) : event.asksOnce = none := by
  cases event with
  | direct clock uuid call =>
    cases call with
    | tryReserve => cases ending
    | enqueue | reserve | retryConfirmed | markSend | finish | unknown | leave => rfl
  | acquire | release | resume | interrupt | maintain | timer => rfl

/-- What a turn may end and take back; it grants nothing if it ends something. -/
def collecting (p : Process) (event : Event) : Scope where
  forgetting := false
  drawn := fun _ => p.retired event = []
  ending := fun attemptId => attemptId ∈ p.retired event
  gone := fun attemptId => attemptId ∈ p.retired event
  disowned := fun requestId => ∃ request ∈ event.asksOnce, request.requestId = requestId

theorem inScope_collecting (event : Event) : p.InScope (p.collecting event) event := by
  cases event with
  | direct clock uuid call =>
    refine ⟨rfl, ?_⟩
    cases call with
    | reserve | retryConfirmed => exact Eq.refl ([] : List String)
    | tryReserve request => exact ⟨Eq.refl ([] : List String), request, rfl, rfl⟩
    | finish reservation evidence =>
      intro finishes
      have ends : p.retired (.direct clock uuid (.finish reservation evidence)) =
        [reservation.attemptId] := if_pos finishes
      exact (congrArg (reservation.attemptId ∈ ·) ends).mpr List.mem_cons_self
    | enqueue | markSend | unknown | leave => trivial
  | resume clock id answer =>
    intro on found
    unfold Scope.Hears
    split
    · rename_i attemptId held
      intro isOver
      have ends : p.retired (.resume clock id (.computeHeld held)) = [attemptId] := by
        simp only [retired, found, if_neg isOver]
      exact (congrArg (attemptId ∈ ·) ends).mpr List.mem_cons_self
    · trivial
  | maintain clock notice =>
    refine ⟨rfl, ?_, Scope.readies rfl rfl notice, fun permit member => ?_⟩
    · unfold Scope.Heeds
      split
      · exact ⟨rfl, fun _ _ => trivial⟩
      · rename_i active held waiting
        refine fun attemptId asked => ⟨trivial, fun absent => List.mem_append.mpr (Or.inr ?_)⟩
        rw [waiting]
        exact List.mem_filter.mpr ⟨asked, decide_eq_true absent⟩
      · trivial
    · exact List.mem_append.mpr (Or.inl (List.mem_map_of_mem member))
  | acquire | release | interrupt | timer => trivial

/-- Who joins a queue leaves the attempts and their permits alone, and is remembered. -/
theorem Enters.keeps {event : Event} (enters : p.Enters event s) :
    s.permits = p.scheduler.permits ∧ ∀ lost attemptId, p.scheduler.Kept lost attemptId →
      s.Kept lost attemptId := by
  rcases enters with (rfl | ⟨clock, uuid, call, request, poolId, ownerId, rfl, enters, guard, room,
    rfl⟩) | ⟨clock, id, answer, on, rfl, found, rfl | ⟨call, row, rfl, rfl, actual, rfl, absent,
    rfl⟩⟩
  · exact ⟨rfl, fun _ _ kept => kept⟩
  · refine ⟨rfl, fun lost attemptId kept => kept.of_follows
      (fun attempt found => ⟨attempt, found, rfl⟩) fun requestId _ known => ?_⟩
    have put : (p.scheduler.admitted clock request poolId ownerId).requestIdentity.find? requestId =
        if request.requestId = requestId then some ⟨request, ownerId,
          clock.monotonic + p.scheduler.settings.requestTtl⟩
        else p.scheduler.requestIdentity.find? requestId := Table.find?_put
    rw [put]
    split
    · exact Option.some_ne_none _
    · exact known
  · exact ⟨rfl, fun _ _ kept => kept⟩
  · exact ⟨rfl, fun _ _ kept => kept.of_eq rfl rfl⟩

theorem step_noOrphans {event : Event} (calls : p.CallsKnow {}) (collects : p.Collects event)
    (whole : NoOrphans p.scheduler) :
    NoOrphans (p.step event).scheduler ∧ (p.step event).CallsKnow {} := by
  obtain ⟨s, enters, ⟨now, t, path, ends⟩, calls⟩ :=
    @step_sweeps (p.collecting event) p event rfl (fun _ _ _ => trivial) calls
      (inScope_collecting event)
  obtain ⟨permits, keeps⟩ := enters.keeps
  -- an attempt that is remembered is kept, unless its request asks once
  have remembered {attempt : Permit} (member : attempt ∈ p.scheduler.directAttempts.rows)
      (known : p.scheduler.Remembers attempt)
      (bare : p.scheduler.permits.find? attempt.attemptId = none ∨ event.asksOnce = none) :
      ∃ requestId ∈ attempt.requestId, p.scheduler.requestIdentity.find? requestId ≠ none ∧
        ¬ (p.collecting event).disowned requestId := by
    obtain ⟨requestId, mine, known⟩ := known
    refine ⟨requestId, mine, known, ?_⟩
    rintro ⟨request, asks, rfl⟩
    rcases bare with bare | asksNot
    · exact collects.2 request asks attempt member mine bare
    · rw [asksNot] at asks
      cases asks
  have start : Collectible (p.collecting event).disowned s := by
    intro attemptId
    rw [permits]
    by_cases held : p.scheduler.permits.find? attemptId = none
    · refine Or.inr (keeps _ _ fun attempt found => ?_)
      have member : attempt ∈ p.scheduler.directAttempts.rows := Table.mem_of_find? found
      have bare : p.scheduler.permits.find? attempt.attemptId = none := by
        rw [show attempt.attemptId = attemptId from Table.key_of_find? found]
        exact held
      exact remembered member ((whole attempt member).resolve_left fun holds => holds bare)
        (Or.inl bare)
    · exact Or.inl held
  have kept : Collectible (p.collecting event).disowned t := by
    refine path.collectible rfl (fun attemptId ending => ?_) start
    have ending : attemptId ∈ p.retired event := ending.elim id id
    refine ⟨fun nothing => ?_, keeps _ _ fun attempt found => ?_⟩
    · have nothing : p.retired event = [] := nothing
      rw [nothing] at ending
      cases ending
    · have member : attempt ∈ p.scheduler.directAttempts.rows := Table.mem_of_find? found
      have named : attempt.attemptId = attemptId := Table.key_of_find? found
      have known : p.scheduler.Remembers attempt := by
        by_cases held : p.scheduler.permits.find? attempt.attemptId = none
        · exact (whole attempt member).resolve_left fun holds => holds held
        · exact collects.1 attempt member (named ▸ ending) held
      exact remembered member known (Or.inr (asksOnce_of_retired ending))
  have whole' : NoOrphans t := by
    intro attempt member
    refine (kept attempt.attemptId).imp_right fun kept => ?_
    obtain ⟨requestId, mine, known, -⟩ := kept attempt (Table.find?_of_mem member)
    exact ⟨requestId, mine, known⟩
  refine ⟨?_, calls⟩
  rcases ends with same | expired
  · rw [same]
    exact whole'
  · rw [expired]
    exact whole'.expireRequests now

/-- In every run in which a direct attempt that loses its permit is still remembered, and in
which no request asks once that has an attempt without a permit, every direct attempt holds
a permit or its request is remembered. Once all permits are given back and all identities
are too old, only the attempts of requests that wait again are left. -/
theorem no_orphans (fresh : p.scheduler.directAttempts.rows = []) (idle : p.calls = fun _ => none)
    {events : List Event} (collects : p.Throughout Collects events) :
    let s := (p.after events).scheduler
    NoOrphans s ∧ ∀ now, s.permits.rows = [] →
      (∀ known ∈ s.requestIdentity.rows, known.expires ≤ now) →
      (∀ attempt ∈ (s.expireRequests now).directAttempts.rows,
        ∃ requestId ∈ attempt.requestId, s.waiters.find? requestId ≠ none) ∧
      (s.waiters.rows = [] → (s.expireRequests now).directAttempts.rows = []) := by
  have whole : NoOrphans (p.after events).scheduler := by
    have calls : p.CallsKnow {} := fun id on found => by
      rw [idle] at found
      cases found
    have start : NoOrphans p.scheduler := fun attempt member => by
      rw [fresh] at member
      cases member
    clear fresh idle
    induction events generalizing p with
    | nil => exact start
    | cons event rest ih =>
      obtain ⟨whole, known⟩ := step_noOrphans calls collects.1 start
      exact ih collects.2 known whole
  refine ⟨whole, fun now free old => ⟨whole.swept free old, fun nobody => ?_⟩⟩
  refine List.eq_nil_iff_forall_not_mem.mpr fun attempt member => ?_
  obtain ⟨requestId, -, waits⟩ := whole.swept free old attempt member
  refine waits ?_
  rw [Table.find?, nobody]
  rfl

end Process

/-- A turn of the maintenance loop that reads the sample pool again and forgets what is old. -/
def sampleSweep (now : Time) : List Event :=
  [.maintain ⟨now, now⟩ .ticked, .maintain ⟨now, now⟩ (.refreshed [samplePool] [])]

/-- A request is granted and sent. -/
def sentRequest : List Event :=
  let request := sampleRequest "r"
  sampleCalls [("", .enqueue request "p" "proxy"), ("a", .reserve request "p" "proxy"),
    ("", .markSend (sampleReservation "a" "r"))]

/-- It ends, and is dropped an hour after it was asked for. -/
def collectedRequest : List Event :=
  sentRequest ++ [.direct ⟨3, 3⟩ "" (.finish (sampleReservation "a" "r") .completedResponse)]

theorem no_orphans_sample :
    NoOrphans (sampleProcess.after collectedRequest).scheduler ∧
      ((sampleProcess.after collectedRequest).scheduler.directAttempts.rows.map Permit.attemptId =
        ["a"]) ∧
      ((sampleProcess.after collectedRequest).scheduler.expireRequests
        3600000000).directAttempts.rows = [] := by
  obtain ⟨whole, swept⟩ :=
    @Process.no_orphans sampleProcess rfl rfl collectedRequest (by decide +kernel)
  refine ⟨whole, by decide +kernel, (swept 3600000000 ?_ ?_).2 ?_⟩
  · decide +kernel
  · decide +kernel
  · decide +kernel

/-- It is forgotten an hour after it was asked for, while it computes, and ends later. -/
def longRequest : List Event :=
  sentRequest ++ sampleSweep 3600000000 ++
    [.direct ⟨3600000001, 3600000001⟩ "" (.finish (sampleReservation "a" "r") .completedResponse)]

/-- The attempt has no permit, its request is not remembered, and it is never dropped. -/
theorem no_orphans_fails :
    sampleProcess.scheduler.directAttempts.rows = [] ∧ sampleProcess.calls = (fun _ => none) ∧
      ¬ NoOrphans (sampleProcess.after longRequest).scheduler ∧
      (sampleProcess.after longRequest).scheduler.permits.rows = [] ∧
      (sampleProcess.after longRequest).scheduler.waiters.rows = [] ∧
      ∀ now, ((sampleProcess.after longRequest).scheduler.expireRequests
        now).directAttempts.rows ≠ [] := by
  have identities : (sampleProcess.after longRequest).scheduler.requestIdentity.rows = [] := by
    decide +kernel
  have waiters : (sampleProcess.after longRequest).scheduler.waiters.rows = [] := by
    decide +kernel
  refine ⟨rfl, rfl, by decide +kernel, by decide +kernel, waiters, fun now => ?_⟩
  have stays : (sampleProcess.after longRequest).scheduler.expireRequests now =
      (sampleProcess.after longRequest).scheduler := by
    simp only [MemoryScheduler.expireRequests, identities, List.filter_nil, List.foldl_nil,
      waiters]
  rw [stays]
  decide +kernel

end IntramindRuntime.Scheduling
