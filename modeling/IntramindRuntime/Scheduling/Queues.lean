import IntramindRuntime.Scheduling.Moves

/-!
# Who is served first

A waiter that leaves a queue leaves its entry behind; the entry is dropped when it comes
to the head. An entry is taken for the waiter with its identity and its time, and the
class in it is not compared. As long as nobody joins a queue in which an entry of the same
identity and time but of another class is left, a pool serves its waiters by class, then
by time, then by identity.

## Main definitions

* `Waiter.entry` — the entry that is pushed for a waiter
* `Queued` — what holds of the queues and of their counters in every run
* `Owned` — an entry that stands for a waiter is its own
* `MemoryScheduler.HeadsQueue` — no other waiter comes first
* `Process.Sorts`, `Process.InOrder` — the condition on a turn, and what it is granted

## Main results

* `Process.served_in_order` — in a run that meets the condition, waiters are served in order
* `served_in_order_fails` — an entry of another class lets a waiter pass
-/

namespace IntramindRuntime.Scheduling

open Library Relation

/-! ### The order of entries -/

/-- The entry that is pushed for a waiter. -/
def Waiter.entry (waiter : Waiter) : Entry where
  rank := rank waiter.workloadClass
  queuedAt := waiter.queuedAt
  identity := waiter.identity

section Order

theorem Entry.le_refl (e : Entry) : e.le e := Or.inr ⟨rfl, Or.inr ⟨rfl, String.le_refl _⟩⟩

instance : Std.Total Entry.le where
  total e e' := by
    unfold Entry.le
    rcases lt_trichotomy e.rank e'.rank with rank | rank | rank
    · exact Or.inl (Or.inl rank)
    · rcases lt_trichotomy e.queuedAt e'.queuedAt with time | time | time
      · exact Or.inl (Or.inr ⟨rank, Or.inl time⟩)
      · exact (String.le_total e.identity e'.identity).imp
          (fun names => Or.inr ⟨rank, Or.inr ⟨time, names⟩⟩)
          fun names => Or.inr ⟨rank.symm, Or.inr ⟨time.symm, names⟩⟩
      · exact Or.inr (Or.inr ⟨rank.symm, Or.inl time⟩)
    · exact Or.inr (Or.inl rank)

instance : IsTrans Entry Entry.le where
  trans e₁ e₂ e₃ first second := by
    unfold Entry.le at first second ⊢
    rcases first with rank | ⟨rank, first⟩
    · rcases second with rank' | ⟨rank', -⟩
      · exact Or.inl (rank.trans rank')
      · exact Or.inl (rank' ▸ rank)
    · rcases second with rank' | ⟨rank', second⟩
      · exact Or.inl (rank ▸ rank')
      · refine Or.inr ⟨rank.trans rank', ?_⟩
        rcases first with time | ⟨time, names⟩
        · rcases second with time' | ⟨time', -⟩
          · exact Or.inl (time.trans time')
          · exact Or.inl (time' ▸ time)
        · rcases second with time' | ⟨time', names'⟩
          · exact Or.inl (time ▸ time')
          · exact Or.inr ⟨time.trans time', String.le_trans names names'⟩

end Order

/-! ### Counting waiters -/

/-- How many direct waiters satisfy a condition. -/
def MemoryScheduler.directWaiters (s : MemoryScheduler) (keeps : Waiter → Bool) : ℕ :=
  (s.waiters.rows.filter fun waiter => waiter.kind = .direct && keeps waiter).length

variable {s s' : MemoryScheduler}

/-- What a waiter adds to a counter. -/
private def share (keeps : Waiter → Bool) (waiter : Waiter) : ℤ :=
  if waiter.kind = .direct && keeps waiter then 1 else 0

private theorem directWaiters_eq (keeps : Waiter → Bool) :
    (s.directWaiters keeps : ℤ) = s.waiters.total (share keeps) :=
  Table.length_filter_eq_total _

/-- A waiter that leaves is counted no more. -/
theorem directWaiters_removeWaiter {identity : String} {waiter : Waiter}
    (found : s.waiters.find? identity = some waiter) (keeps : Waiter → Bool) :
    ((s.removeWaiter identity).directWaiters keeps : ℤ) =
      s.directWaiters keeps - if waiter.kind = .direct ∧ keeps waiter then 1 else 0 := by
  have erased : (s.removeWaiter identity).waiters = s.waiters.erase identity := by
    rw [MemoryScheduler.removeWaiter, found]
  rw [directWaiters_eq, directWaiters_eq, erased, Table.total_erase_of_found _ found]
  simp [share]

/-- A waiter that joins is counted, unless it takes the place of a direct waiter. -/
theorem directWaiters_addWaiter {waiter : Waiter}
    (apart : ∀ old, s.waiters.find? waiter.identity = some old → old.kind ≠ .direct)
    (keeps : Waiter → Bool) :
    ((s.addWaiter waiter).directWaiters keeps : ℤ) =
      s.directWaiters keeps + if waiter.kind = .direct ∧ keeps waiter then 1 else 0 := by
  have put : (s.addWaiter waiter).waiters = s.waiters.put waiter := rfl
  rw [directWaiters_eq, directWaiters_eq, put]
  cases found : s.waiters.find? waiter.identity with
  | none =>
    rw [Table.total_put_of_new _ found]
    simp [share]
  | some old =>
    have uncounted : share keeps old = 0 := by simp [share, apart old found]
    rw [Table.total_put_of_found _ found, uncounted]
    simp [share]

/-! ### The queues in every run -/

@[simp] theorem removeWaiter_settings (identity : String) :
    (s.removeWaiter identity).settings = s.settings := by
  unfold MemoryScheduler.removeWaiter
  split <;> rfl

/-- The queues are sorted and cover the waiters, and the counters count the direct waiters,
up to their limits. A request that waits is remembered. -/
structure Queued (s : MemoryScheduler) : Prop where
  sorted : ∀ poolId, (s.queues poolId).Pairwise Entry.le
  covers : ∀ identity waiter, s.waiters.find? identity = some waiter →
    waiter.entry ∈ s.queues waiter.poolId
  pools : ∀ poolId, s.queueCounts poolId = s.directWaiters fun waiter => waiter.poolId = poolId
  tenants : ∀ poolId tenantId, s.tenantCounts (poolId, tenantId) =
    s.directWaiters fun waiter => waiter.poolId = poolId ∧ waiter.tenantId = tenantId
  remembered : ∀ identity waiter, s.waiters.find? identity = some waiter →
    waiter.kind = .direct → s.requestIdentity.find? identity ≠ none
  endpointLimit : ∀ poolId, s.queueCounts poolId ≤ max 0 s.settings.endpointLimit
  tenantLimit : ∀ poolId tenantId,
    s.tenantCounts (poolId, tenantId) ≤ max 0 s.settings.tenantLimit

namespace Queued

/-- The invariant looks at the queues, the waiters and their counters, the limits, and at
which identities are remembered. -/
theorem congr (queued : Queued s) (waiters : s'.waiters = s.waiters)
    (queues : s'.queues = s.queues) (queueCounts : s'.queueCounts = s.queueCounts)
    (tenantCounts : s'.tenantCounts = s.tenantCounts) (settings : s'.settings = s.settings)
    (identities : ∀ identity waiter, s.waiters.find? identity = some waiter →
      waiter.kind = .direct → s.requestIdentity.find? identity ≠ none →
      s'.requestIdentity.find? identity ≠ none) : Queued s' := by
  constructor
  · rw [queues]
    exact queued.sorted
  · rw [queues, waiters]
    exact queued.covers
  · rw [queueCounts]
    unfold MemoryScheduler.directWaiters
    rw [waiters]
    exact queued.pools
  · rw [tenantCounts]
    unfold MemoryScheduler.directWaiters
    rw [waiters]
    exact queued.tenants
  · rw [waiters]
    exact fun identity waiter found direct =>
      identities identity waiter found direct (queued.remembered identity waiter found direct)
  · rw [queueCounts, settings]
    exact queued.endpointLimit
  · rw [tenantCounts, settings]
    exact queued.tenantLimit

theorem prune (queued : Queued s) {queues : String → List Entry} (prunes : s.Prunes queues) :
    Queued { s with queues } := by
  refine { queued with sorted := fun poolId => ?_, covers := fun identity waiter found => ?_ }
  · exact (queued.sorted poolId).sublist (prunes.sublist poolId)
  · refine prunes.live _ _ (queued.covers identity waiter found) ⟨waiter, ?_, rfl, rfl⟩
    rw [← Table.key_of_find? found] at found
    exact found

theorem removeWaiter (queued : Queued s) (identity : String) :
    Queued (s.removeWaiter identity) := by
  cases found : s.waiters.find? identity with
  | none =>
    have same : s.removeWaiter identity = s := by rw [MemoryScheduler.removeWaiter, found]
    rwa [same]
  | some waiter =>
    have left {other : String} {waiter' : Waiter}
        (waits : (s.removeWaiter identity).waiters.find? other = some waiter') :
        s.waiters.find? other = some waiter' := by
      rw [find?_removeWaiter] at waits
      split at waits
      · cases waits
      · exact waits
    have counts : (s.removeWaiter identity).queueCounts = if waiter.kind = .direct then
        Function.update s.queueCounts waiter.poolId (s.queueCounts waiter.poolId - 1)
        else s.queueCounts := by rw [MemoryScheduler.removeWaiter, found]
    have tenants : (s.removeWaiter identity).tenantCounts = if waiter.kind = .direct then
        Function.update s.tenantCounts (waiter.poolId, waiter.tenantId)
          (s.tenantCounts (waiter.poolId, waiter.tenantId) - 1)
        else s.tenantCounts := by rw [MemoryScheduler.removeWaiter, found]
    have settings : (s.removeWaiter identity).settings = s.settings :=
      removeWaiter_settings identity
    refine ⟨fun poolId => ?_, fun other waiter' waits => ?_, fun poolId => ?_,
      fun poolId tenantId => ?_, fun other waiter' waits => ?_, fun poolId => ?_,
      fun poolId tenantId => ?_⟩
    · rw [removeWaiter_queues]
      exact queued.sorted poolId
    · rw [removeWaiter_queues]
      exact queued.covers other waiter' (left waits)
    · have before := queued.pools poolId
      rw [counts, directWaiters_removeWaiter found]
      by_cases direct : waiter.kind = .direct
      · rcases eq_or_ne poolId waiter.poolId with rfl | apart
        · simp [direct, before]
        · simp [direct, before, apart, apart.symm]
      · simp [direct, before]
    · have before := queued.tenants poolId tenantId
      rw [tenants, directWaiters_removeWaiter found]
      by_cases direct : waiter.kind = .direct
      · by_cases same : (poolId, tenantId) = (waiter.poolId, waiter.tenantId)
        · obtain ⟨rfl, rfl⟩ := Prod.mk.inj same
          simp [direct, before]
        · have apart : ¬ (waiter.poolId = poolId ∧ waiter.tenantId = tenantId) := by
            rintro ⟨rfl, rfl⟩
            exact same rfl
          simp [direct, before, Function.update_of_ne same, apart]
      · simp [direct, before]
    · rw [removeWaiter_requestIdentity]
      exact queued.remembered other waiter' (left waits)
    · have bound := queued.endpointLimit poolId
      rw [counts, settings]
      split
      · rcases eq_or_ne poolId waiter.poolId with rfl | apart
        · rw [Function.update_self]
          exact (sub_le_self _ zero_le_one).trans bound
        · rwa [Function.update_of_ne apart]
      · exact bound
    · have bound := queued.tenantLimit poolId tenantId
      rw [tenants, settings]
      split
      · by_cases same : (poolId, tenantId) = (waiter.poolId, waiter.tenantId)
        · rw [same, Function.update_self]
          rw [same] at bound
          exact (sub_le_self _ zero_le_one).trans bound
        · rwa [Function.update_of_ne same]
      · exact bound

/-- A waiter joins: a direct one has been remembered, and there was room for it. -/
theorem addWaiter (queued : Queued s) {waiter : Waiter}
    (apart : ∀ old, s.waiters.find? waiter.identity = some old → old.kind ≠ .direct)
    (remembered : waiter.kind = .direct → s.requestIdentity.find? waiter.identity ≠ none)
    (room : waiter.kind = .direct → s.queueCounts waiter.poolId < s.settings.endpointLimit ∧
      s.tenantCounts (waiter.poolId, waiter.tenantId) < s.settings.tenantLimit) :
    Queued (s.addWaiter waiter) := by
  have waits (identity : String) : (s.addWaiter waiter).waiters.find? identity =
      if waiter.identity = identity then some waiter else s.waiters.find? identity :=
    Table.find?_put
  have queues : (s.addWaiter waiter).queues = Function.update s.queues waiter.poolId
      ((s.queues waiter.poolId).orderedInsert Entry.le waiter.entry) := rfl
  have counts : (s.addWaiter waiter).queueCounts = if waiter.kind = .direct then
      Function.update s.queueCounts waiter.poolId (s.queueCounts waiter.poolId + 1)
      else s.queueCounts := rfl
  have tenants : (s.addWaiter waiter).tenantCounts = if waiter.kind = .direct then
      Function.update s.tenantCounts (waiter.poolId, waiter.tenantId)
        (s.tenantCounts (waiter.poolId, waiter.tenantId) + 1)
      else s.tenantCounts := rfl
  have settings : (s.addWaiter waiter).settings = s.settings := rfl
  have joined (poolId : String) (entry : Entry) (member : entry ∈ s.queues poolId) :
      entry ∈ (s.addWaiter waiter).queues poolId := by
    rw [queues]
    rcases eq_or_ne poolId waiter.poolId with rfl | other
    · rw [Function.update_self]
      exact (List.mem_orderedInsert Entry.le).mpr (Or.inr member)
    · rwa [Function.update_of_ne other]
  refine ⟨fun poolId => ?_, fun identity waiter' found => ?_, fun poolId => ?_,
    fun poolId tenantId => ?_, fun identity waiter' found direct => ?_, fun poolId => ?_,
    fun poolId tenantId => ?_⟩
  · rw [queues]
    rcases eq_or_ne poolId waiter.poolId with rfl | other
    · rw [Function.update_self]
      exact (queued.sorted waiter.poolId).orderedInsert _ _
    · rw [Function.update_of_ne other]
      exact queued.sorted poolId
  · rw [waits] at found
    split at found
    · obtain rfl := Option.some.inj found
      rw [queues, Function.update_self]
      exact (List.mem_orderedInsert Entry.le).mpr (Or.inl rfl)
    · exact joined _ _ (queued.covers identity waiter' found)
  · have before := queued.pools poolId
    rw [counts, directWaiters_addWaiter apart]
    by_cases direct : waiter.kind = .direct
    · rcases eq_or_ne poolId waiter.poolId with rfl | other
      · simp [direct, before]
      · simp [direct, before, other, other.symm]
    · simp [direct, before]
  · have before := queued.tenants poolId tenantId
    rw [tenants, directWaiters_addWaiter apart]
    by_cases direct : waiter.kind = .direct
    · by_cases same : (poolId, tenantId) = (waiter.poolId, waiter.tenantId)
      · obtain ⟨rfl, rfl⟩ := Prod.mk.inj same
        simp [direct, before]
      · have other : ¬ (waiter.poolId = poolId ∧ waiter.tenantId = tenantId) := by
          rintro ⟨rfl, rfl⟩
          exact same rfl
        simp [direct, before, Function.update_of_ne same, other]
    · simp [direct, before]
  · rw [waits] at found
    split at found
    · rename_i named
      obtain rfl := Option.some.inj found
      exact named ▸ remembered direct
    · exact queued.remembered identity waiter' found direct
  · have bound := queued.endpointLimit poolId
    rw [counts, settings]
    split
    · rename_i direct
      rcases eq_or_ne poolId waiter.poolId with rfl | other
      · rw [Function.update_self]
        exact (Int.add_one_le_of_lt (room direct).1).trans (le_max_right _ _)
      · rwa [Function.update_of_ne other]
    · exact bound
  · have bound := queued.tenantLimit poolId tenantId
    rw [tenants, settings]
    split
    · rename_i direct
      by_cases same : (poolId, tenantId) = (waiter.poolId, waiter.tenantId)
      · rw [same, Function.update_self]
        exact (Int.add_one_le_of_lt (room direct).2).trans (le_max_right _ _)
      · rwa [Function.update_of_ne same]
    · exact bound

theorem remember (queued : Queued s) (identity : Identity) : Queued (s.remember identity) := by
  refine queued.congr rfl rfl rfl rfl rfl fun other waiter _ _ known => ?_
  have put : (s.remember identity).requestIdentity.find? other =
      if identity.request.requestId = other then some identity
      else s.requestIdentity.find? other := Table.find?_put
  rw [put]
  split
  · exact Option.some_ne_none _
  · exact known

/-- An identity is dropped that does not wait. -/
theorem dropIdentity (queued : Queued s) {identity : String}
    (gone : s.waiters.find? identity = none) :
    Queued { s with requestIdentity := s.requestIdentity.erase identity } := by
  refine queued.congr rfl rfl rfl rfl rfl fun other waiter found _ known => ?_
  have erased : (s.requestIdentity.erase identity).find? other =
      if identity = other then none else s.requestIdentity.find? other := Table.find?_erase
  rw [erased]
  split
  · rename_i same
    rw [← same, gone] at found
    cases found
  · exact known

/-- The request of a caller joins the queue. -/
theorem admitted (queued : Queued s) {clock : Clock} {request : DirectRequest}
    {poolId ownerId : String} (guard : s.MayAdmit request ownerId)
    (room : s.HasRoom request poolId) : Queued (s.admitted clock request poolId ownerId) := by
  refine (queued.remember _).addWaiter (fun old waits direct => ?_) (fun _ => ?_) fun _ => room
  · -- a direct waiter of this identity would be remembered, and known to wait
    have waits : s.waiters.find? request.requestId = some old := waits
    have known := queued.remembered _ old waits direct
    unfold MemoryScheduler.MayAdmit at guard
    split at guard
    · rename_i unknown
      exact known unknown
    · rw [guard.2.2.1] at waits
      cases waits
  · exact (congrArg (· ≠ none) Table.find?_put_self).mpr (Option.some_ne_none _)

end Queued

/-! ### Turns keep the queues -/

/-- A move by which nobody joins keeps the queues. -/
theorem Move.queued {scope : Scope} (move : Move scope s s') (closed : scope.queueing = false)
    (keeping : scope.forgetting = false) (queued : Queued s) : Queued s' := by
  cases move with
  | quiet same =>
    refine queued.congr same.waiters same.queues same.queueCounts same.tenantCounts same.settings
      fun identity waiter _ _ known => ?_
    rwa [same.requestIdentity]
  | withdraw identity => exact queued.removeWaiter identity
  | prune queues prunes => exact queued.prune prunes
  | forget identity old =>
    rw [keeping] at old
    cases old
  | disown identity gone => exact queued.dropIdentity gone
  | grant reservation new waits found room =>
    exact (queued.removeWaiter _).congr rfl rfl rfl rfl rfl fun _ _ _ _ known => known
  | grantDurable call allowed asked fits named room =>
    exact (queued.removeWaiter _).congr rfl rfl rfl rfl rfl fun _ _ _ _ known => known
  | wait waiter allowed asked queueing =>
    rw [closed] at queueing
    cases queueing
  | progress | conclude | observe | drop | adopt | regain | weigh =>
    exact queued.congr rfl rfl rfl rfl rfl fun _ _ _ _ known => known

theorem Path.queued {scope : Scope} (path : Path scope s s') (closed : scope.queueing = false)
    (keeping : scope.forgetting = false) (queued : Queued s) : Queued s' := by
  induction path with
  | refl => exact queued
  | tail _ move ih => exact move.queued closed keeping ih

/-- The identities that `_expire_requests` forgets do not wait. -/
theorem Queued.expireRequests (queued : Queued s) (now : Time) : Queued (s.expireRequests now) := by
  unfold MemoryScheduler.expireRequests
  dsimp only
  -- forgetting leaves the waiters alone, so those found idle stay idle
  have forgotten (expired : List Identity) (idle : ∀ known ∈ expired,
      s.waiters.find? known.request.requestId = none) (t : MemoryScheduler) (start : Queued t)
      (waiters : t.waiters = s.waiters) :
      Queued (expired.foldl (fun s known => s.forget known.request.requestId) t) := by
    induction expired generalizing t with
    | nil => exact start
    | cons known rest ih =>
      refine ih (fun other member => idle other (List.mem_cons_of_mem _ member)) _ ?_ waiters
      have gone := idle known List.mem_cons_self
      rw [← waiters] at gone
      exact (start.dropIdentity gone).congr rfl rfl rfl rfl rfl fun _ _ _ _ known => known
  have withdrawn (late : List Waiter) (t : MemoryScheduler) (start : Queued t) :
      Queued (late.foldl (fun s waiter => s.removeWaiter waiter.identity) t) := by
    induction late generalizing t with
    | nil => exact start
    | cons waiter rest ih => exact ih _ (start.removeWaiter _)
  refine withdrawn _ _ (forgotten _ (fun known member => ?_) s queued rfl)
  exact (of_decide_eq_true (List.mem_filter.mp member).2).2

theorem Sweeps.queued {scope : Scope} {now : Time} (sweeps : Sweeps scope now s s')
    (closed : scope.queueing = false) (keeping : scope.forgetting = false) (queued : Queued s) :
    Queued s' := by
  obtain ⟨t, path, rfl | rfl⟩ := sweeps
  · exact path.queued closed keeping queued
  · exact (path.queued closed keeping queued).expireRequests now

/-- What the scheduler was constructed with never changes. -/
theorem Path.settings {scope : Scope} (path : Path scope s s') : s'.settings = s.settings := by
  induction path with
  | refl => rfl
  | tail _ move ih =>
    refine Eq.trans ?_ ih
    cases move with
    | quiet same => exact same.settings
    | withdraw identity => exact removeWaiter_settings identity
    | grant reservation => exact removeWaiter_settings _
    | grantDurable call => exact removeWaiter_settings _
    | prune | forget | disown | progress | conclude | observe | drop | adopt | regain | weigh | wait =>
      rfl

theorem Sweeps.settings {scope : Scope} {now : Time} (sweeps : Sweeps scope now s s') :
    s'.settings = s.settings := by
  obtain ⟨t, path, rfl | rfl⟩ := sweeps
  · exact path.settings
  · have forgets : Path {} t (t.expireRequests now) := expireRequests_path rfl now
    exact forgets.settings.trans path.settings

/-! ### Entries and their waiters -/

/-- An entry that stands for a waiter is the one that was pushed for it. -/
def Owned (s : MemoryScheduler) : Prop :=
  ∀ poolId, ∀ entry ∈ s.queues poolId, ∀ waiter, s.waiters.find? entry.identity = some waiter →
    waiter.poolId = poolId → waiter.queuedAt = entry.queuedAt → entry = waiter.entry

/-- No entry and no waiter is new. -/
structure Fewer (s s' : MemoryScheduler) : Prop where
  entries : ∀ poolId, ∀ entry ∈ s'.queues poolId, entry ∈ s.queues poolId
  waiters : ∀ identity waiter, s'.waiters.find? identity = some waiter →
    s.waiters.find? identity = some waiter

namespace Fewer

theorem refl (s : MemoryScheduler) : Fewer s s := ⟨fun _ _ member => member, fun _ _ found => found⟩

theorem trans {s₁ : MemoryScheduler} (first : Fewer s s₁) (second : Fewer s₁ s') : Fewer s s' :=
  ⟨fun poolId entry member => first.entries poolId entry (second.entries poolId entry member),
    fun identity waiter found => first.waiters identity waiter (second.waiters identity waiter found)⟩

theorem removeWaiter (identity : String) : Fewer s (s.removeWaiter identity) := by
  refine ⟨fun poolId entry member => ?_, fun other waiter found => ?_⟩
  · rwa [removeWaiter_queues] at member
  · rw [find?_removeWaiter] at found
    split at found
    · cases found
    · exact found

theorem of_eq (queues : s'.queues = s.queues) (waiters : s'.waiters = s.waiters) : Fewer s s' := by
  refine ⟨fun poolId entry member => ?_, fun identity waiter found => ?_⟩
  · rwa [queues] at member
  · rwa [waiters] at found

end Fewer

theorem Move.fewer {scope : Scope} (move : Move scope s s') (closed : scope.queueing = false) :
    Fewer s s' := by
  cases move with
  | quiet same => exact .of_eq same.queues same.waiters
  | withdraw identity => exact .removeWaiter identity
  | prune queues prunes =>
    exact ⟨fun poolId entry member => (prunes.sublist poolId).subset member, fun _ _ found => found⟩
  | grant reservation => exact (Fewer.removeWaiter _).trans (.of_eq rfl rfl)
  | grantDurable call => exact (Fewer.removeWaiter _).trans (.of_eq rfl rfl)
  | wait waiter allowed asked queueing =>
    rw [closed] at queueing
    cases queueing
  | forget | disown | progress | conclude | observe | drop | adopt | regain | weigh =>
    exact .of_eq rfl rfl

theorem Path.fewer {scope : Scope} (path : Path scope s s') (closed : scope.queueing = false) :
    Fewer s s' := by
  induction path with
  | refl => exact .refl s
  | tail _ move ih => exact ih.trans (move.fewer closed)

theorem Sweeps.fewer {scope : Scope} {now : Time} (sweeps : Sweeps scope now s s')
    (closed : scope.queueing = false) : Fewer s s' := by
  obtain ⟨t, path, rfl | rfl⟩ := sweeps
  · exact path.fewer closed
  · have forgets : Path { queueing := false } t (t.expireRequests now) := expireRequests_path rfl now
    exact (path.fewer closed).trans (forgets.fewer rfl)

theorem Owned.of_fewer (owned : Owned s) (fewer : Fewer s s') : Owned s' :=
  fun poolId entry member waiter found =>
    owned poolId entry (fewer.entries poolId entry member) waiter
      (fewer.waiters entry.identity waiter found)

/-- Entries with the identity and the time of a waiter have its class. -/
def MemoryScheduler.Apart (s : MemoryScheduler) (waiter : Waiter) : Prop :=
  ∀ entry ∈ s.queues waiter.poolId, entry.identity = waiter.identity →
    entry.queuedAt = waiter.queuedAt → entry.rank = rank waiter.workloadClass

instance (waiter : Waiter) : Decidable (s.Apart waiter) := by
  unfold MemoryScheduler.Apart
  infer_instance

theorem Owned.addWaiter (owned : Owned s) {waiter : Waiter} (apart : s.Apart waiter) :
    Owned (s.addWaiter waiter) := by
  intro poolId entry member waiter' found here time
  have waits : (s.addWaiter waiter).waiters.find? entry.identity =
      if waiter.identity = entry.identity then some waiter
      else s.waiters.find? entry.identity := Table.find?_put
  have old : entry ∈ s.queues poolId ∨ (poolId = waiter.poolId ∧ entry = waiter.entry) := by
    have queues : (s.addWaiter waiter).queues = Function.update s.queues waiter.poolId
        ((s.queues waiter.poolId).orderedInsert Entry.le waiter.entry) := rfl
    rw [queues] at member
    rcases eq_or_ne poolId waiter.poolId with rfl | other
    · rw [Function.update_self] at member
      rcases (List.mem_orderedInsert Entry.le).mp member with new | old
      · exact Or.inr ⟨rfl, new⟩
      · exact Or.inl old
    · rw [Function.update_of_ne other] at member
      exact Or.inl member
  rw [waits] at found
  split at found
  · rename_i named
    obtain rfl := Option.some.inj found
    rcases old with old | ⟨-, same⟩
    · -- the entry of an earlier waiter of the same identity and time
      have ranked := apart entry (here ▸ old) named.symm time.symm
      cases entry
      simp only [Waiter.entry, Entry.mk.injEq]
      exact ⟨ranked, time.symm, named.symm⟩
    · exact same
  · rename_i other
    rcases old with old | ⟨-, rfl⟩
    · exact owned poolId entry old waiter' found here time
    · exact absurd rfl other

/-! ### The head of a queue -/

/-- Nobody in the queue of a pool comes before the waiter with an identity. -/
def MemoryScheduler.HeadsQueue (s : MemoryScheduler) (now : Time) (identity poolId : String) :
    Prop :=
  ∃ waiter, s.waiters.find? identity = some waiter ∧ waiter.poolId = poolId ∧
    ∀ other ∈ s.waiters.rows, other.poolId = poolId → now < other.deadline →
      waiter.entry.le other.entry

/-- The waiter that is found first comes before all others that are in time. -/
theorem scan_heads {now : Time} {poolId : String} {entries : List Entry} {waiter : Waiter}
    (sorted : entries.Pairwise Entry.le)
    (owned : ∀ entry ∈ entries, ∀ waiter, s.waiters.find? entry.identity = some waiter →
      waiter.poolId = poolId → waiter.queuedAt = entry.queuedAt → entry = waiter.entry)
    (covers : ∀ other, s.waiters.find? other.identity = some other → other.poolId = poolId →
      now < other.deadline → other.entry ∈ entries)
    (head : (MemoryScheduler.scan now poolId entries s).1 = some waiter) :
    waiter.poolId = poolId ∧ ∀ other, s.waiters.find? other.identity = some other →
      other.poolId = poolId → now < other.deadline → waiter.entry.le other.entry := by
  fun_induction MemoryScheduler.scan now poolId entries s with
  | case1 s => cases head
  | case2 entry rest s late found here passed ih =>
    have remains (other : Waiter) (waits : s.waiters.find? other.identity = some other)
        (early : now < other.deadline) :
        (s.removeWaiter entry.identity).waiters.find? other.identity = some other := by
      rw [find?_removeWaiter, if_neg, waits]
      intro same
      rw [← same, found] at waits
      obtain rfl := Option.some.inj waits
      exact absurd early (not_lt.mpr passed)
    have left {identity : String} {waiter' : Waiter}
        (waits : (s.removeWaiter entry.identity).waiters.find? identity = some waiter') :
        s.waiters.find? identity = some waiter' :=
      (Fewer.removeWaiter entry.identity).waiters identity waiter' waits
    obtain ⟨placed, first⟩ := ih sorted.of_cons
      (fun other member waiter' waits =>
        owned other (List.mem_cons_of_mem _ member) waiter' (left waits))
      (fun other waits placed early => by
        refine (List.mem_cons.mp (covers other (left waits) placed early)).resolve_left ?_
        rintro rfl
        obtain rfl := Option.some.inj (found.symm.trans (left waits))
        exact absurd early (not_lt.mpr passed)) head
    exact ⟨placed, fun other waits there early =>
      first other (remains other waits early) there early⟩
  | case3 entry rest s first found here early =>
    obtain rfl := Option.some.inj head
    have own := owned entry List.mem_cons_self first found here.1 here.2
    refine ⟨here.1, fun other waits placed early => ?_⟩
    rw [← own]
    rcases List.mem_cons.mp (covers other waits placed early) with same | later
    · rw [same]
      exact Entry.le_refl entry
    · exact List.rel_of_pairwise_cons sorted later
  | case4 entry rest s waiter' found elsewhere ih =>
    refine ih sorted.of_cons (fun other member => owned other (List.mem_cons_of_mem _ member))
      (fun other waits placed early => ?_) head
    refine (List.mem_cons.mp (covers other waits placed early)).resolve_left ?_
    rintro rfl
    rw [show other.entry.identity = other.identity from rfl, waits] at found
    obtain rfl := Option.some.inj found
    exact elsewhere ⟨placed, rfl⟩
  | case5 entry rest s absent ih =>
    refine ih sorted.of_cons (fun other member => owned other (List.mem_cons_of_mem _ member))
      (fun other waits placed early => ?_) head
    refine (List.mem_cons.mp (covers other waits placed early)).resolve_left ?_
    rintro rfl
    rw [show other.entry.identity = other.identity from rfl, waits] at absent
    cases absent

theorem first_heads {now : Time} {poolId : String} {waiter : Waiter} (queued : Queued s)
    (owned : Owned s) (head : (s.first now poolId).1 = some waiter) :
    s.HeadsQueue now waiter.identity poolId := by
  obtain ⟨placed, first⟩ := scan_heads (queued.sorted poolId) (owned poolId)
    (fun other found here _ => here ▸ queued.covers other.identity other found) head
  -- reading a queue lets nobody join it
  have path : Path { queueing := false } s (s.first now poolId).2 := first_path now poolId s
  have waits : s.waiters.find? waiter.identity = some waiter :=
    (path.fewer rfl).waiters waiter.identity waiter (scan_found head)
  exact ⟨waiter, waits, placed, fun other member here early =>
    first other (Table.find?_of_mem member) here early⟩

/-! ### Calls that are granted -/

/-- A pool is ready, and the waiter with an identity is found first in its queue. -/
structure MemoryScheduler.Serves (s : MemoryScheduler) (now : Time) (identity poolId : String) :
    Prop where
  ready : s.readyFor now poolId = true
  head : ∃ waiter, waiter.identity = identity ∧ (s.first now poolId).1 = some waiter

theorem MemoryScheduler.Serves.heads {now : Time} {identity poolId : String}
    (serves : s.Serves now identity poolId) (queued : Queued s) (owned : Owned s) :
    s.HeadsQueue now identity poolId := by
  obtain ⟨waiter, rfl, head⟩ := serves.head
  exact first_heads queued owned head

/-- Who is found first depends on the waiters alone. -/
theorem scan_congr {now : Time} {poolId : String} {entries : List Entry}
    (same : s'.waiters = s.waiters) :
    (MemoryScheduler.scan now poolId entries s').1 =
      (MemoryScheduler.scan now poolId entries s).1 := by
  induction entries generalizing s s' with
  | nil => rfl
  | cons entry rest ih =>
    have removed : (s'.removeWaiter entry.identity).waiters =
        (s.removeWaiter entry.identity).waiters := by
      unfold MemoryScheduler.removeWaiter
      rw [same]
      split
      · exact same
      · rfl
    unfold MemoryScheduler.scan
    rw [same]
    split
    · split
      · split
        · exact ih removed
        · rfl
      · exact ih same
    · exact ih same

theorem MemoryScheduler.Serves.congr {now : Time} {identity poolId : String}
    (serves : s'.Serves now identity poolId) (waiters : s'.waiters = s.waiters)
    (queues : s'.queues = s.queues) (ready : s'.readyByPool = s.readyByPool) :
    s.Serves now identity poolId := by
  obtain ⟨open', waiter, named, head⟩ := serves
  refine ⟨?_, waiter, named, ?_⟩
  · unfold MemoryScheduler.readyFor at open' ⊢
    rwa [← ready]
  · unfold MemoryScheduler.first at head ⊢
    rw [← queues, ← scan_congr waiters]
    exact head

theorem reserve_serves (clock : Clock) (uuid : String) (request : DirectRequest)
    (poolId ownerId : String) (previous : Option String) :
    (reserve clock uuid request poolId ownerId previous).Ensures s fun outcome _ =>
      ∀ reservation, outcome = .ok (some reservation) →
        s.Serves clock.monotonic request.requestId poolId := by
  have failed (error : SchedulerError) (reservation : DirectReservation)
      (granted : (.error error : Except SchedulerError (Option DirectReservation)) =
        .ok (some reservation)) : s.Serves clock.monotonic request.requestId poolId := by
    cases granted
  have refused (reservation : DirectReservation)
      (granted : (.ok none : Except SchedulerError (Option DirectReservation)) =
        .ok (some reservation)) : s.Serves clock.monotonic request.requestId poolId := by
    cases granted
  unfold reserve
  refine Turn.ensures_bind.mpr (Turn.ensures_modify.mpr ?_)
  refine (pool_looks poolId).bind_ensures failed fun pool _ => ?_
  refine Turn.ensures_bind.mpr (Turn.ensures_get.mpr ?_)
  dsimp only
  split
  · exact refused
  · rename_i waiter waits
    split
    · exact refused
    · split
      · exact refused
      · rename_i open'
        refine (validate_looks request pool).bind_ensures failed fun _ _ => ?_
        split
        · exact failed _
        · refine (nextGeneration_looks request poolId ownerId pool previous).bind_ensures failed
            fun generation _ => ?_
          split
          · exact refused
          · refine first_ensures (Turn.ensures_bind.mpr (Turn.ensures_get.mpr ?_))
            dsimp only
            split
            · rename_i guard
              intro reservation _
              have named : waiter.identity = request.requestId := Table.key_of_find? waits
              have serves : (s.expireDirty clock.monotonic).Serves clock.monotonic
                  request.requestId poolId :=
                ⟨Bool.eq_true_of_not_eq_false fun early => open' (Or.inr (Or.inr early)),
                  waiter, named, guard.1⟩
              exact serves.congr rfl rfl rfl
            · exact refused

theorem dispatch_serves (clock : Clock) {wait : DurableWait}
    (named : wait.waiter.identity = wait.call.attemptId) (pool : Pool) :
    (dispatch clock wait pool).Ensures s fun outcome _ => outcome = .ok .done →
      s.Serves clock.monotonic wait.call.attemptId wait.call.poolId := by
  unfold dispatch
  refine Turn.ensures_bind.mpr (Turn.ensures_get.mpr ?_)
  dsimp only
  split
  · rintro ⟨⟩
  · split
    · rename_i open'
      refine first_ensures (Turn.ensures_bind.mpr (Turn.ensures_get.mpr ?_))
      dsimp only
      split
      · rename_i guard
        intro _
        exact ⟨open'.2.1, wait.waiter, named, guard.1⟩
      · rintro ⟨⟩
    · rintro ⟨⟩

theorem durableLoop_serves (clock : Clock) {wait : DurableWait}
    (named : wait.waiter.identity = wait.call.attemptId)
    (fresh : s.permits.find? wait.call.attemptId = none) :
    (durableLoop clock wait).Ensures s fun outcome _ => outcome = .ok .done →
      s.Serves clock.monotonic wait.call.attemptId wait.call.poolId := by
  have failed (error : SchedulerError)
      (ended : (.error error : Except SchedulerError Progress) = .ok .done) :
      s.Serves clock.monotonic wait.call.attemptId wait.call.poolId := by cases ended
  unfold durableLoop
  refine Turn.ensures_bind.mpr (Turn.ensures_modify.mpr ?_)
  refine (pool_looks wait.call.poolId).bind_ensures failed fun pool _ => ?_
  refine (checkPool_looks wait.call wait.operation pool).bind_ensures failed fun _ _ => ?_
  refine Turn.ensures_bind.mpr (Turn.ensures_get.mpr ?_)
  dsimp only
  split
  · rename_i held
    exact absurd fresh held
  · split
    · rintro ⟨⟩
    · refine (dispatch_serves clock named pool).mono fun outcome _ serves ended => ?_
      exact (serves ended).congr rfl rfl rfl

theorem tryAdmitted_serves {clock : Clock} {uuid : String} {request : DirectRequest}
    {poolId ownerId : String} :
    (tryAdmitted clock uuid request poolId ownerId).Ensures s fun outcome _ =>
      ∀ reservation, outcome = .ok (.ok reservation) →
        ∃ s₁, Entered clock request poolId ownerId s s₁ ∧
          s₁.Serves clock.monotonic request.requestId poolId := by
  unfold tryAdmitted
  refine Turn.ensures_attempt_bind.mpr ?_
  have entered : Entered clock request poolId ownerId s
      ((enqueue clock request poolId ownerId).final s) :=
    enqueue_ensures clock request poolId ownerId
  split
  · rintro reservation ⟨⟩
  · rintro reservation ⟨⟩
  · have serves := @reserve_serves ((enqueue clock request poolId ownerId).final s) clock uuid
      request poolId ownerId none
    refine Turn.ensures_bind.mpr (serves.mono fun outcome s' serves => ?_)
    cases outcome with
    | error error => rintro reservation ⟨⟩
    | ok value =>
      cases value with
      | none => rintro reservation ⟨⟩
      | some granted =>
        intro reservation _
        exact ⟨_, entered, serves granted rfl⟩

/-- A request that asks once joins the queue, and is granted if it is first there. -/
theorem tryReserve_serves {clock : Clock} {uuid : String} {request : DirectRequest}
    {poolId ownerId : String} :
    (tryReserve clock uuid request poolId ownerId).Ensures s fun outcome _ =>
      ∀ reservation, outcome = .ok (.ok reservation) →
        ∃ s₁, Entered clock request poolId ownerId s s₁ ∧
          s₁.Serves clock.monotonic request.requestId poolId := by
  have refused (reason : String) (reservation : DirectReservation)
      (granted : (.ok (.error reason) : Except SchedulerError (Except String DirectReservation)) =
        .ok (.ok reservation)) : ∃ s₁, Entered clock request poolId ownerId s s₁ ∧
          s₁.Serves clock.monotonic request.requestId poolId := by
    cases granted
  unfold tryReserve
  refine Turn.ensures_bind.mpr (Turn.ensures_get.mpr ?_)
  dsimp only
  split
  · exact refused _
  · split
    · exact refused _
    · split
      · exact refused _
      · split
        · exact refused _
        · unfold Turn.Ensures
          rw [Turn.outcome_cleanup]
          exact tryAdmitted_serves

/-- An executor that joins may be granted at once. -/
theorem awaitPermit_serves (clock : Clock) {call : DurableCall} {actual : LedgerAttempt}
    (fresh : s.permits.find? call.attemptId = none) :
    (awaitPermit clock call actual).Ensures s fun outcome _ => outcome = .ok .done →
      ∃ s₁, Queues clock call (some actual) s s₁ ∧
        s₁.Serves clock.monotonic call.attemptId call.poolId := by
  unfold awaitPermit
  have joins := @durableWaiter_joins s clock call actual
  refine Turn.ensures_bind.mpr (joins.mono fun outcome s₁ joined => ?_)
  obtain ⟨queues, named⟩ := joined
  cases outcome with
  | error error => rintro ⟨⟩
  | ok waiter =>
    refine Turn.ensures_bind.mpr (Turn.ensures_modify.mpr ?_)
    have free : s₁.permits.find? call.attemptId = none := by
      rcases queues with rfl | ⟨_, _, _, rfl⟩ <;> exact fresh
    unfold Turn.Ensures
    rw [Turn.outcome_cleanup]
    intro ended
    have loop := @durableLoop_serves (s₁.countRef call.attemptId) clock
      ⟨call, actual.operation, waiter, clock.monotonic + second⟩ (named waiter rfl) free
    exact ⟨s₁, queues, (loop ended).congr rfl rfl rfl⟩

theorem identified_serves (clock : Clock) {call : DurableCall} {row : Option LedgerAttempt}
    (fresh : s.permits.find? call.attemptId = none) :
    (identified clock call row).Ensures s fun outcome _ => outcome = .ok .done →
      ∃ s₁, Queues clock call row s s₁ ∧
        s₁.Serves clock.monotonic call.attemptId call.poolId := by
  have failed (error : SchedulerError)
      (ended : (.error error : Except SchedulerError Progress) = .ok .done) :
      ∃ s₁, Queues clock call row s s₁ ∧
        s₁.Serves clock.monotonic call.attemptId call.poolId := by cases ended
  cases row with
  | none => exact failed _
  | some actual =>
    unfold identified
    dsimp only
    split
    · exact failed _
    · split
      · exact failed _
      · refine (pool_looks call.poolId).bind_ensures failed fun pool _ => ?_
        refine (checkPool_looks call actual.operation pool).bind_ensures failed fun _ _ => ?_
        refine Turn.ensures_bind.mpr (Turn.ensures_get.mpr ?_)
        dsimp only
        rw [fresh]
        exact awaitPermit_serves clock fresh

/-- The call of `durable` that is suspended. -/
def Suspended.durable? : Suspended → Option DurableCall
  | .identifying call => some call
  | .waiting wait | .validating wait _ => some wait.call
  | .releasing _ => none

/-- A call of `durable` that returns with a new permit was first in its queue. -/
theorem resume_serves {scope : Scope} (clock : Clock) {on : Suspended} (knows : on.Knows scope)
    {answer : Answer} {call : DurableCall} (about : on.durable? = some call)
    (fresh : s.permits.find? call.attemptId = none) :
    (resume clock on answer).Ensures s fun outcome _ => outcome = .ok .done →
      ∃ s₁, Joins clock on answer s s₁ ∧
        s₁.Serves clock.monotonic call.attemptId call.poolId := by
  unfold resume
  split
  · rename_i asked row
    obtain rfl := Option.some.inj about
    refine (identified_serves clock fresh).mono fun outcome s' serves ended => ?_
    obtain ⟨s₁, queues, serves⟩ := serves ended
    exact ⟨s₁, queues.imp_right fun joined => ⟨asked, row, rfl, rfl, joined⟩, serves⟩
  · rename_i wait
    obtain rfl := Option.some.inj about
    unfold Turn.Ensures
    rw [Turn.outcome_cleanup]
    intro ended
    exact ⟨s, Or.inl rfl, durableLoop_serves clock knows.2 fresh ended⟩
  · rename_i wait pool row
    obtain rfl := Option.some.inj about
    unfold Turn.Ensures
    rw [Turn.outcome_cleanup]
    unfold validated
    split
    · rintro ended
      have serves := @dispatch_serves s clock
        { wait with nextValidation := clock.monotonic + second } knows.1.2 pool
      exact ⟨s, Or.inl rfl, serves ended⟩
    · rintro ⟨⟩
  · cases about
  · rintro ⟨⟩

/-! ### Who joins -/

/-- The guard of `_enqueue` can be computed. -/
instance (request : DirectRequest) (ownerId : String) : Decidable (s.MayAdmit request ownerId) :=
  match found : s.requestIdentity.find? request.requestId with
  | none => isTrue (by rw [MemoryScheduler.MayAdmit, found]; trivial)
  | some known =>
    decidable_of_iff (known.request = request ∧ known.ownerId = ownerId ∧
        s.waiters.find? request.requestId = none ∧
        ∀ latest ∈ s.latest request.requestId, latest.state.retryable = true)
      (by rw [MemoryScheduler.MayAdmit, found]; rfl)

instance (request : DirectRequest) (poolId : String) : Decidable (s.HasRoom request poolId) :=
  inferInstanceAs (Decidable (_ ∧ _))

/-- The waiter with which a foreground request joins a queue. -/
def DirectRequest.waiter (request : DirectRequest) (clock : Clock) (poolId ownerId : String)
    (ref : ℕ) : Waiter where
  ref := ref
  identity := request.requestId
  tenantId := request.tenantId
  poolId := poolId
  ownerId := ownerId
  workloadClass := request.workloadClass
  deadline := clock.monotonic + (request.deadline - clock.utc)
  queuedAt := clock.monotonic
  kind := .direct

/-- Waiters only leave: no executor starts to wait, and no identity is forgotten. -/
def Scope.leaving : Scope := { queueing := false, forgetting := false }

namespace Process

variable {p : Process}

/-- The waiter with which the caller of a turn may join a queue. -/
def joining (p : Process) : Event → Option Waiter
  | .direct clock _ call =>
    match call.enters with
    | some (request, poolId, ownerId) =>
      if p.scheduler.MayAdmit request ownerId ∧ p.scheduler.HasRoom request poolId then
        some (request.waiter clock poolId ownerId p.scheduler.nextRef)
      else none
    | none => none
  | .resume clock id (.attempt (some actual)) =>
    match p.calls id with
    | some (.identifying call) =>
      if p.scheduler.waiters.find? call.attemptId = none then
        some (call.waiter clock actual.operationCreatedAt p.scheduler.nextRef)
      else none
    | _ => none
  | _ => none

/-- A caller that may join a queue finds no entry of its identity and its time there but of
another class. -/
def Sorts (p : Process) (event : Event) : Prop :=
  ∀ waiter ∈ p.joining event, p.scheduler.Apart waiter

instance (p : Process) (event : Event) : Decidable (p.Sorts event) := by
  unfold Sorts
  infer_instance

/-- Who is granted in a turn: the identity of a waiter, its pool, and when. -/
inductive Grants (p : Process) : Event → Time → String → String → Prop
  | reserve {clock : Clock} {uuid : String} {request : DirectRequest} {poolId ownerId : String}
    {reservation : DirectReservation}
    (granted : (Scheduling.reserve clock uuid request poolId ownerId none).outcome p.scheduler =
      .ok (some reservation)) :
    p.Grants (.direct clock uuid (.reserve request poolId ownerId)) clock.monotonic
      request.requestId poolId
  | retryConfirmed {clock : Clock} {uuid : String} {request : DirectRequest}
    {poolId ownerId previous : String} {reservation : DirectReservation}
    (granted : (Scheduling.retryConfirmed clock uuid request poolId ownerId previous).outcome
      p.scheduler = .ok (some reservation)) :
    p.Grants (.direct clock uuid (.retryConfirmed request poolId ownerId previous))
      clock.monotonic request.requestId poolId
  | tryReserve {clock : Clock} {uuid : String} {request : DirectRequest} {poolId ownerId : String}
    {reservation : DirectReservation}
    (granted : (Scheduling.tryReserve clock uuid request poolId ownerId).outcome p.scheduler =
      .ok (.ok reservation)) :
    p.Grants (.direct clock uuid (.tryReserve request poolId ownerId)) clock.monotonic
      request.requestId poolId
  | durable {clock : Clock} {id : ℕ} {answer : Answer} {on : Suspended} {call : DurableCall}
    (found : p.calls id = some on) (about : on.durable? = some call)
    (fresh : p.scheduler.permits.find? call.attemptId = none)
    (granted : (Scheduling.resume clock on answer).outcome p.scheduler = .ok .done) :
    p.Grants (.resume clock id answer) clock.monotonic call.attemptId call.poolId

/-- Who is granted in a turn comes first in its queue, once its caller has joined. -/
def InOrder (p : Process) (event : Event) : Prop :=
  ∀ now identity poolId, p.Grants event now identity poolId →
    ∃ s, p.Enters event s ∧ s.HeadsQueue now identity poolId

/-- What comes from outside is in scope. -/
theorem inScope_leaving (event : Event) : p.InScope .leaving event := by
  cases event with
  | direct _ _ call => exact ⟨rfl, call.fits_of_free trivial (fun _ => trivial) fun _ => trivial⟩
  | resume clock id answer => exact fun on _ => Scope.hears_of_gone (fun _ => trivial) on answer
  | maintain clock notice =>
    exact ⟨rfl, Scope.heeds_of_gone (fun _ => trivial) (fun _ => trivial) _
      fun _ _ _ => ⟨rfl, fun _ _ => trivial⟩, Scope.readies rfl rfl notice, fun _ _ => trivial⟩
  | acquire | release | interrupt | timer => trivial

theorem enters_settings {event : Event} (enters : p.Enters event s) :
    s.settings = p.scheduler.settings := by
  rcases enters with (rfl | ⟨_, _, _, _, _, _, _, _, _, _, rfl⟩) | ⟨_, _, _, _, _, _, rfl | ⟨_, _, _,
    _, _, _, _, rfl⟩⟩ <;> rfl

theorem Enters.queued {event : Event} (enters : p.Enters event s) (queued : Queued p.scheduler) :
    Queued s := by
  rcases enters with (rfl | ⟨clock, uuid, call, request, poolId, ownerId, rfl, enters, guard, room,
    rfl⟩) | ⟨clock, id, answer, on, rfl, found, rfl | ⟨call, row, rfl, rfl, actual, rfl, absent,
    rfl⟩⟩
  · exact queued
  · exact queued.admitted guard room
  · exact queued
  · refine queued.addWaiter (fun old waits => ?_) (fun direct => ?_) fun direct => ?_
    · have waits : p.scheduler.waiters.find? call.attemptId = some old := waits
      rw [absent] at waits
      cases waits
    · cases direct
    · cases direct

theorem Enters.owned {event : Event} (enters : p.Enters event s) (sorts : p.Sorts event)
    (owned : Owned p.scheduler) : Owned s := by
  rcases enters with (rfl | ⟨clock, uuid, call, request, poolId, ownerId, rfl, enters, guard, room,
    rfl⟩) | ⟨clock, id, answer, on, rfl, found, rfl | ⟨call, row, rfl, rfl, actual, rfl, absent,
    rfl⟩⟩
  · exact owned
  · have joins : p.joining (.direct clock uuid call) =
        some (request.waiter clock poolId ownerId p.scheduler.nextRef) := by
      simp only [joining, enters, guard, room, and_self, if_true]
    exact owned.addWaiter (sorts _ joins)
  · exact owned
  · have joins : p.joining (.resume clock id (.attempt (some actual))) =
        some (call.waiter clock actual.operationCreatedAt p.scheduler.nextRef) := by
      simp only [joining, found, absent, if_true]
    exact owned.addWaiter (sorts _ joins)

theorem enters_of_entered {clock : Clock} {uuid : String} {request : DirectRequest}
    {poolId ownerId : String} (entered : Entered clock request poolId ownerId p.scheduler s) :
    p.Enters (.direct clock uuid (.tryReserve request poolId ownerId)) s :=
  Or.inl (entered.imp_right fun joined =>
    ⟨clock, uuid, _, request, poolId, ownerId, rfl, rfl, joined⟩)

/-- A turn keeps the queues, whoever joins. -/
theorem step_queued (queued : Queued p.scheduler) (calls : p.CallsKnow .leaving) (event : Event) :
    Queued (p.step event).scheduler ∧ (p.step event).CallsKnow .leaving ∧
      (p.step event).scheduler.settings = p.scheduler.settings := by
  obtain ⟨s, enters, ⟨now, sweeps⟩, calls⟩ :=
    step_sweeps rfl (fun _ _ _ => trivial) calls (inScope_leaving event)
  exact ⟨sweeps.queued rfl rfl (enters.queued queued), calls,
    sweeps.settings.trans (enters_settings enters)⟩

theorem after_queued (queued : Queued p.scheduler) (calls : p.CallsKnow .leaving)
    (events : List Event) : Queued (p.after events).scheduler := by
  induction events generalizing p with
  | nil => exact queued
  | cons event rest ih =>
    obtain ⟨queued, calls, -⟩ := step_queued queued calls event
    exact ih queued calls

/-- The queues are in order, and so are the calls that wait in them. -/
structure Ordered (p : Process) : Prop where
  queued : Queued p.scheduler
  owned : Owned p.scheduler
  calls : p.CallsKnow .leaving

theorem Ordered.step (ordered : p.Ordered) {event : Event} (sorts : p.Sorts event) :
    (p.step event).Ordered ∧ (p.step event).scheduler.settings = p.scheduler.settings := by
  obtain ⟨queued, calls, settings⟩ := step_queued ordered.queued ordered.calls event
  obtain ⟨s, enters, ⟨now, sweeps⟩, -⟩ :=
    step_sweeps rfl (fun _ _ _ => trivial) ordered.calls (inScope_leaving event)
  exact ⟨⟨queued, (enters.owned sorts ordered.owned).of_fewer (sweeps.fewer rfl), calls⟩, settings⟩

theorem Ordered.after (ordered : p.Ordered) {events : List Event}
    (sorts : p.Throughout Sorts events) :
    (p.after events).Ordered ∧ (p.after events).scheduler.settings = p.scheduler.settings := by
  induction events generalizing p with
  | nil => exact ⟨ordered, rfl⟩
  | cons event rest ih =>
    obtain ⟨next, settings⟩ := ordered.step sorts.1
    obtain ⟨last, same⟩ := ih next sorts.2
    exact ⟨last, same.trans settings⟩

/-- Who is granted was found first in the queue of a ready pool, once the caller has joined. -/
theorem Grants.serves {event : Event} {now : Time} {identity poolId : String} {scope : Scope}
    (grants : p.Grants event now identity poolId) (calls : p.CallsKnow scope) :
    ∃ s, p.Enters event s ∧ s.Serves now identity poolId := by
  have nobody : p.Enters event p.scheduler := Or.inl (Or.inl rfl)
  cases grants with
  | @reserve clock uuid request _ ownerId reservation granted =>
    exact ⟨_, nobody, reserve_serves clock uuid request poolId ownerId none reservation granted⟩
  | @retryConfirmed clock uuid request _ ownerId previous reservation granted =>
    exact ⟨_, nobody,
      reserve_serves clock uuid request poolId ownerId (some previous) reservation granted⟩
  | @tryReserve clock uuid request _ ownerId reservation granted =>
    obtain ⟨s, entered, serves⟩ := tryReserve_serves reservation granted
    exact ⟨s, enters_of_entered entered, serves⟩
  | @durable clock id answer on call found about fresh granted =>
    obtain ⟨s, joins, serves⟩ := resume_serves clock (calls id on found) about fresh granted
    exact ⟨s, Or.inr ⟨clock, id, answer, on, rfl, found, joins⟩, serves⟩

/-- In a process whose queues are in order, a turn grants who comes first. -/
theorem Ordered.inOrder (ordered : p.Ordered) {event : Event} (sorts : p.Sorts event) :
    p.InOrder event := by
  intro now identity poolId grants
  obtain ⟨s, enters, serves⟩ := grants.serves ordered.calls
  exact ⟨s, enters,
    serves.heads (enters.queued ordered.queued) (enters.owned sorts ordered.owned)⟩

/-- Nobody waits, and no call is suspended. -/
structure NobodyWaits (p : Process) : Prop where
  waiters : p.scheduler.waiters = .empty
  queues : p.scheduler.queues = fun _ => []
  queueCounts : p.scheduler.queueCounts = fun _ => 0
  tenantCounts : p.scheduler.tenantCounts = fun _ => 0
  calls : p.calls = fun _ => none

theorem NobodyWaits.ordered (nobody : p.NobodyWaits) : p.Ordered := by
  have absent (identity : String) (waiter : Waiter)
      (found : p.scheduler.waiters.find? identity = some waiter) : False := by
    rw [nobody.waiters] at found
    cases found
  have nothing (poolId : String) (entry : Entry) (member : entry ∈ p.scheduler.queues poolId) :
      False := by
    rw [nobody.queues] at member
    cases member
  have none_counted (keeps : Waiter → Bool) : p.scheduler.directWaiters keeps = 0 := by
    rw [MemoryScheduler.directWaiters, nobody.waiters]
    rfl
  refine ⟨⟨fun poolId => ?_, fun identity waiter found => (absent identity waiter found).elim,
    fun poolId => ?_, fun poolId tenantId => ?_,
    fun identity waiter found => (absent identity waiter found).elim, fun poolId => ?_,
    fun poolId tenantId => ?_⟩, fun poolId entry member => (nothing poolId entry member).elim,
    fun id on found => ?_⟩
  · rw [nobody.queues]
    exact List.Pairwise.nil
  · rw [nobody.queueCounts, none_counted]
    rfl
  · rw [nobody.tenantCounts, none_counted]
    rfl
  · rw [nobody.queueCounts]
    exact le_max_left 0 _
  · rw [nobody.tenantCounts]
    exact le_max_left 0 _
  · rw [nobody.calls] at found
    cases found

/-- As long as nobody joins a queue in which an entry of its identity and its time but of
another class is left, every grant goes to the waiter that comes first, every waiter has its
entry, and the counters count the direct waiters and respect their limits. -/
theorem served_in_order (nobody : p.NobodyWaits)
    (endpointLimit : 0 ≤ p.scheduler.settings.endpointLimit)
    (tenantLimit : 0 ≤ p.scheduler.settings.tenantLimit) {events : List Event}
    (sorts : p.Throughout Sorts events) :
    let s := (p.after events).scheduler
    (∀ identity waiter, s.waiters.find? identity = some waiter →
      waiter.entry ∈ s.queues waiter.poolId) ∧
    (∀ poolId, s.queueCounts poolId = s.directWaiters (fun waiter => waiter.poolId = poolId) ∧
      0 ≤ s.queueCounts poolId ∧ s.queueCounts poolId ≤ p.scheduler.settings.endpointLimit) ∧
    (∀ poolId tenantId,
      s.tenantCounts (poolId, tenantId) =
        s.directWaiters (fun waiter => waiter.poolId = poolId ∧ waiter.tenantId = tenantId) ∧
      0 ≤ s.tenantCounts (poolId, tenantId) ∧
      s.tenantCounts (poolId, tenantId) ≤ p.scheduler.settings.tenantLimit) ∧
    ∀ event, (p.after events).Sorts event → (p.after events).InOrder event := by
  obtain ⟨ordered, settings⟩ := nobody.ordered.after sorts
  have queued := ordered.queued
  refine ⟨queued.covers, fun poolId => ⟨queued.pools poolId, ?_, ?_⟩,
    fun poolId tenantId => ⟨queued.tenants poolId tenantId, ?_, ?_⟩,
    fun event sorts => ordered.inOrder sorts⟩
  · rw [queued.pools]
    exact Int.natCast_nonneg _
  · have bound := queued.endpointLimit poolId
    rwa [settings, max_eq_right endpointLimit] at bound
  · rw [queued.tenants]
    exact Int.natCast_nonneg _
  · have bound := queued.tenantLimit poolId tenantId
    rwa [settings, max_eq_right tenantLimit] at bound

end Process

/-- The sample pool and another one like it. -/
def twoPools : Process where
  scheduler := { sampleScheduler with
    pools := (Table.empty.put samplePool).put
      { samplePool with spec := { samplePool.spec with poolId := "q" } }
    readyByPool := fun _ => some 0 }

theorem twoPools_nobodyWaits : twoPools.NobodyWaits := ⟨rfl, rfl, rfl, rfl, rfl⟩

/-- A request of the last class but one waits, and then one of the first class. -/
def inTurn : List Event :=
  [.direct ⟨0, 0⟩ "" (.enqueue { sampleRequest "x" with workloadClass := .background } "p" "proxy"),
    .direct ⟨1, 1⟩ "" (.enqueue (sampleRequest "y") "p" "proxy")]

theorem served_in_order_sample :
    (twoPools.after inTurn).scheduler.queueCounts "p" = 2 ∧
      (twoPools.after inTurn).InOrder
        (.direct ⟨2, 2⟩ "a" (.reserve (sampleRequest "y") "p" "proxy")) := by
  obtain ⟨-, -, -, inOrder⟩ :=
    @Process.served_in_order twoPools twoPools_nobodyWaits (by decide) (by decide) inTurn
      (by decide +kernel)
  exact ⟨by decide +kernel, inOrder _ (by decide +kernel)⟩

/-- A request waits for the sample pool and once asks for the other one; that leaves its entry
in the first queue. Within the same reading of the clock it comes back in another class. -/
def passedBy : List Event :=
  let request := sampleRequest "x"
  [.direct ⟨0, 0⟩ "" (.enqueue request "p" "proxy"),
    .direct ⟨0, 0⟩ "" (.tryReserve request "q" "proxy"),
    .direct ⟨0, 0⟩ "" (.enqueue { request with workloadClass := .background } "p" "proxy"),
    .direct ⟨1, 1⟩ "" (.enqueue (sampleRequest "y") "p" "proxy")]

/-- The background request is granted before a request of the first class. -/
theorem served_in_order_fails :
    twoPools.NobodyWaits ∧ 0 ≤ twoPools.scheduler.settings.endpointLimit ∧
      0 ≤ twoPools.scheduler.settings.tenantLimit ∧
      ¬ (twoPools.after passedBy).InOrder (.direct ⟨2, 2⟩ "a"
        (.reserve { sampleRequest "x" with workloadClass := .background } "p" "proxy")) := by
  refine ⟨twoPools_nobodyWaits, by decide, by decide, fun inOrder => ?_⟩
  have granted : (Scheduling.reserve ⟨2, 2⟩ "a"
      { sampleRequest "x" with workloadClass := .background } "p" "proxy" none).outcome
      (twoPools.after passedBy).scheduler = .ok (some
        ⟨"a", { sampleRequest "x" with workloadClass := .background }, "p", "e", "proxy", 0⟩) := by
    decide +kernel
  obtain ⟨s, enters, waiter, found, -, heads⟩ := inOrder _ _ _ (.reserve granted)
  -- a call of `reserve` lets nobody join
  have same : s = (twoPools.after passedBy).scheduler := by
    rcases enters with (same | ⟨_, _, _, _, _, _, ⟨⟩, enters, _⟩) | ⟨_, _, _, _, ⟨⟩, _⟩
    · exact same
    · cases enters
  subst same
  have background : ∀ waiter ∈ (twoPools.after passedBy).scheduler.waiters.find? "x",
      waiter.entry = ⟨2, 0, "x"⟩ := by decide +kernel
  have other : ∃ other ∈ (twoPools.after passedBy).scheduler.waiters.rows,
      other.poolId = "p" ∧ 2 < other.deadline ∧ other.entry = ⟨0, 1, "y"⟩ := by decide +kernel
  obtain ⟨other, member, here, early, entry⟩ := other
  have before := heads other member here early
  rw [background waiter found, entry] at before
  exact absurd before (by decide)

end IntramindRuntime.Scheduling
