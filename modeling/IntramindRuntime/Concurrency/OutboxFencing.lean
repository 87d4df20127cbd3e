import IntramindRuntime.Concurrency.Interleaving

/-!
# Outbox delivery is fenced

Publishers claim events, deliver them, and acknowledge or defer them, each call a transaction
of one statement that may run beside any other. A claim is named by its owner and by the
number that the delivery counter of the event reached with it. Publishers reuse their owner
after a restart, so it is the number that tells claims apart: a claim is current while the
counter still has its number.

## Main definitions

* `Posted` — what the commit of a transaction does to the row of an event
* `Posts` — what a transaction guarantees about the outbox when it commits
* `Claims`, `Current` — a claim that has been committed, and one that may still acknowledge
* `Fenced` — what fencing promises

## Main results

* `call_posts` — every method of the store keeps the outbox so, under interference
* `claims_once` — the numbers of the claims of an event are those that its counter has reached
* `exists_claim` — what can be claimed and is free is claimed at last, within any limit
* `outbox_fenced` — deliveries are fenced in every run
-/

namespace IntramindRuntime.Ledger

open Library

variable {sha256 : String → String} {authority : Authority} {asked : Asked} {value : Reply}
  {id : EventId} {σ : InFlight} {row row' : OutboxRow} {before after : Option OutboxRow}

/-! ### What a commit does to an event -/

/-- The event of an acknowledgement or of a deferral, and the claim it is made for. -/
def Call.acknowledges : Call → Option (EventId × String × ℕ)
  | .delivered eventId ownerId delivery => some (eventId, ownerId, delivery)
  | .deferEvent eventId ownerId delivery _ => some (eventId, ownerId, delivery)
  | _ => none

/-- The rows that a reply hands to a publisher. -/
def Call.claimed : Call → Reply → List OutboxRow
  | .claimEvents .., .events rows => rows
  | _, _ => []

theorem Call.claimed_of_quiet {call : Call} (quiet : call.mails = false) (value : Reply) :
    call.claimed value = [] := by
  cases call with
  | claimEvents => cases quiet
  | _ => rfl

theorem Call.claimed_of_acknowledges {call : Call} {claim : EventId × String × ℕ}
    (acknowledges : call.acknowledges = some claim) (value : Reply) : call.claimed value = [] := by
  cases call with
  | claimEvents => cases acknowledges
  | _ => rfl

theorem Call.acknowledges_of_quiet {call : Call} (quiet : call.mails = false) :
    call.acknowledges = none := by
  cases call with
  | delivered | deferEvent => cases quiet
  | _ => rfl

/-- What the commit of a transaction does to the row of an event. -/
inductive Posted (asked : Asked) (value : Reply) (id : EventId) :
    Option OutboxRow → Option OutboxRow → Prop
  | stays {before : Option OutboxRow}
      (unclaimed : ∀ row ∈ asked.1.claimed value, row.eventId ≠ id) :
    Posted asked value id before before
  | added {row : OutboxRow} (fresh : row.Fresh) (quiet : asked.1.mails = false) :
    Posted asked value id none (some row)
  | claimed {ownerId : String} {limit : ℕ} {row : OutboxRow}
      (call : asked.1 = .claimEvents ownerId limit) (named : row.eventId = id)
      (claimable : row.claimable asked.2.now = true)
      (returned : ∀ row' ∈ asked.1.claimed value, row'.eventId = id →
        row' = row.claim ownerId asked.2.now)
      (listed : row.claim ownerId asked.2.now ∈ asked.1.claimed value) :
    Posted asked value id (some row) (some (row.claim ownerId asked.2.now))
  | delivered {ownerId : String} {row : OutboxRow}
      (call : asked.1 = .delivered id ownerId row.deliveries)
      (current : row.claimedBy ownerId row.deliveries asked.2.now = true)
      (flagged : value = .flag true) :
    Posted asked value id (some row) (some { row with deliveredAt := some asked.2.now })
  | deferred {ownerId : String} {delay : Time} {row : OutboxRow}
      (call : asked.1 = .deferEvent id ownerId row.deliveries delay)
      (current : row.claimedBy ownerId row.deliveries asked.2.now = true)
      (flagged : value = .flag true) :
    Posted asked value id (some row)
      (some { row with
        availableAt := asked.2.now + delay
        ownerId := none
        leaseExpiresAt := none })

theorem OutboxRow.claimedBy_iff {ownerId : String} {delivery : ℕ} {now : Time} :
    row.claimedBy ownerId delivery now = true ↔ row.ownerId = some ownerId ∧
      row.deliveries = delivery ∧ row.deliveredAt = none ∧
      ∃ expires ∈ row.leaseExpiresAt, now < expires := by
  simp only [claimedBy, Bool.and_eq_true, decide_eq_true_eq, Option.any_eq_true, Option.mem_def,
    and_assoc]

theorem OutboxRow.claimable_iff {now : Time} :
    row.claimable now = true ↔ row.deliveredAt = none ∧ row.availableAt ≤ now ∧
      ∀ expires ∈ row.leaseExpiresAt, expires < now := by
  simp only [claimable, Bool.and_eq_true, decide_eq_true_eq, Option.all_eq_true, Option.mem_def,
    and_assoc]

namespace Posted

theorem of_quiet (quiet : asked.1.mails = false)
    (kept : ∀ old, before = some old → after = some old)
    (fresh : ∀ row, before = none → after = some row → row.Fresh) :
    Posted asked value id before after := by
  have nobody : ∀ row ∈ asked.1.claimed value, row.eventId ≠ id := by
    rw [Call.claimed_of_quiet quiet]
    exact fun _ listed => absurd listed List.not_mem_nil
  cases before with
  | some old =>
    rw [kept old rfl]
    exact .stays nobody
  | none =>
    cases after with
    | none => exact .stays nobody
    | some row => exact .added (fresh row rfl rfl) quiet

/-- A row that is as before was not claimed. -/
theorem unclaimed (posted : Posted asked value id before after) (same : after = before) :
    ∀ row ∈ asked.1.claimed value, row.eventId ≠ id := by
  cases posted with
  | stays unclaimed => exact unclaimed
  | added => cases same
  | claimed =>
    have counter := congrArg OutboxRow.deliveries (Option.some.inj same)
    exact absurd counter (Nat.succ_ne_self _)
  | delivered call current =>
    have undelivered := (OutboxRow.claimedBy_iff.mp current).2.2.1
    rw [← Option.some.inj same] at undelivered
    cases undelivered
  | deferred call current =>
    have owned := (OutboxRow.claimedBy_iff.mp current).1
    rw [← Option.some.inj same] at owned
    cases owned

/-- An event that did not exist is new, and was not claimed. -/
theorem of_none (posted : Posted asked value id none after) :
    (∀ row ∈ asked.1.claimed value, row.eventId ≠ id) ∧ ∀ row, after = some row → row.Fresh := by
  cases posted with
  | stays unclaimed =>
    refine ⟨unclaimed, fun row impossible => ?_⟩
    cases impossible
  | added fresh quiet =>
    refine ⟨?_, fun row same => Option.some.inj same ▸ fresh⟩
    rw [Call.claimed_of_quiet quiet]
    exact fun _ listed => absurd listed List.not_mem_nil

/-- Events stay. -/
theorem of_some (posted : Posted asked value id (some row) after) : ∃ row', after = some row' := by
  cases posted <;> exact ⟨_, rfl⟩

/-- The counter never falls, and grows by one with a claim only. -/
theorem deliveries (posted : Posted asked value id (some row) (some row')) :
    row'.deliveries = row.deliveries ∧ (∀ claim ∈ asked.1.claimed value, claim.eventId ≠ id) ∨
      row'.deliveries = row.deliveries + 1 ∧ row' ∈ asked.1.claimed value ∧
        ∀ claim ∈ asked.1.claimed value, claim.eventId = id → claim = row' := by
  cases posted with
  | stays unclaimed => exact Or.inl ⟨rfl, unclaimed⟩
  | claimed call named claimable returned listed => exact Or.inr ⟨rfl, listed, returned⟩
  | delivered call current flagged | deferred call current flagged =>
    refine Or.inl ⟨rfl, fun claim listed => ?_⟩
    rw [call] at listed
    cases listed

/-- An event that is delivered stays as it is. -/
theorem delivered_stays {at_ : Time} (posted : Posted asked value id (some row) after)
    (delivered : row.deliveredAt = some at_) : after = some row := by
  have pending {ownerId : String}
      (current : row.claimedBy ownerId row.deliveries asked.2.now = true) : False := by
    have undelivered := (OutboxRow.claimedBy_iff.mp current).2.2.1
    rw [delivered] at undelivered
    cases undelivered
  cases posted with
  | stays => rfl
  | claimed call named claimable =>
    have undelivered := (OutboxRow.claimable_iff.mp claimable).1
    rw [delivered] at undelivered
    cases undelivered
  | delivered call current => exact (pending current).elim
  | deferred call current => exact (pending current).elim

end Posted

/-! ### What a transaction guarantees -/

/-- What a transaction guarantees about the outbox when it commits. -/
structure Posts (asked : Asked) (value : Reply) (σ : InFlight) : Prop where
  locked : ∀ w ∈ σ.writes, σ.held (RowStore.key Db w)
  rows : ∀ id, Posted asked value id (σ.committed.outbox.find? id) (σ.view.outbox.find? id)
  answered : ∀ id ownerId delivery, asked.1.acknowledges = some (id, ownerId, delivery) →
    (value = .flag false ∧ σ.writes = []) ∨
    (value = .flag true ∧ σ.held (.event id) ∧ ∃ row, σ.committed.outbox.find? id = some row ∧
      row.claimedBy ownerId delivery asked.2.now = true)

/-- Behind the back of a transaction the events that it has not written may change, and the
others do not. -/
theorem Posts.stable : Wp.Stable .locks (Posts asked value) := by
  intro σ d posts rely
  refine ⟨posts.locked, fun id => ?_, fun id ownerId delivery acknowledges => ?_⟩
  · have posted := posts.rows id
    rcases rely.cell_upon posts.locked (.event id) with ⟨unchanged, same⟩ | ⟨moved, unwritten⟩
    · rw [Cell.event.inj same]
      rw [← Cell.event.inj unchanged] at posted
      exact posted
    · rw [Cell.event.inj moved]
      exact .stays (posted.unclaimed (Cell.event.inj unwritten))
  · rcases posts.answered id ownerId delivery acknowledges with
      silent | ⟨flag, held, row, found, claimed⟩
    · exact Or.inl silent
    · exact Or.inr ⟨flag, held, row, (Cell.event.inj (rely.1 _ held)).trans found, claimed⟩

/-- Events are only added. -/
def posting : RowGrowth OutboxRow where
  follows old row := row = old
  fresh := OutboxRow.Fresh
  refl _ := rfl
  trans first second := second.trans first
  keeps fresh same := same ▸ fresh

/-- The law that every method keeps but those of publishers. -/
abbrev postingKept : RowChange Db := posting.on trackedOutbox

/-- The transaction, beside others, only adds events. -/
abbrev OnlyAdds {α : Type} (p : Transaction α) : Prop :=
  Wp.Preserves .locks (postingKept.Follows (S := Sql)) p

section Methods

variable {β : Type} {statement : Sql β}

theorem onlyAdds_stmt (allowed : ∀ busy (snapshot current : Db),
    ∀ w ∈ (Engine.exec statement busy snapshot current).writes,
      postingKept.keeps (RowStore.key Db w) (RowStore.cell (RowStore.key Db w) current)
        (RowStore.cell (RowStore.key Db w) (RowStore.apply w current))) :
    OnlyAdds (Tx.stmt statement) :=
  Wp.Preserves.stmt (RowChange.Follows.stable _) (fun _ follows => follows.started statement)
    fun snap σ busy follows _ => follows.after (allowed busy snap σ.view)

theorem onlyAdds_other (other : statement.mayWrite .outbox = false) :
    OnlyAdds (Tx.stmt statement) :=
  onlyAdds_stmt fun _ _ _ _ member =>
    RowGrowth.of_other (Sql.ne_write_of_mayWrite (fun _ => rfl) other member)

theorem onlyAdds_builds : Builds OnlyAdds := by
  refine .of_terminal (Wp.Preserves.closed (RowChange.Follows.stable _))
    (fun statement plain => ?_) fun _ _ _ _ => onlyAdds_other rfl
  cases statement with
  | outbox statement =>
    cases statement with
    | insert row =>
      refine onlyAdds_stmt fun busy snapshot current w member => ?_
      obtain ⟨rfl, absent⟩ := Access.mem_insertIgnore_writes (A := trackedOutbox.toAccess) member
      refine RowGrowth.of_write (T := trackedOutbox) (fun old found => ?_) fun _ => plain
      rw [absent] at found
      cases found
    | claim | delivered | defer_ => exact plain.elim
  | _ => exact onlyAdds_other rfl

/-- Every method but those of publishers only adds events. -/
theorem call_onlyAdds (asked : Call) {env : Env} (quiet : asked.mails = false) :
    OnlyAdds (asked.code sha256 env) := by
  have builds := onlyAdds_builds
  have attempt : ∀ {β : Type} (statement : AttemptSql β), OnlyAdds statement.run :=
    fun _ => onlyAdds_other rfl
  refine builds.call_of_moves asked (fun _ => onlyAdds_other rfl)
    (fun _ _ _ => builds.configurePool _ _ (onlyAdds_other rfl) (onlyAdds_other rfl))
    (fun _ _ _ _ => builds.resumeEngine _ _ _ fun _ => onlyAdds_other rfl)
    (fun _ => builds.submitOperation _ fun _ _ => onlyAdds_other rfl) attempt
    (fun _ => onlyAdds_other rfl) (fun _ _ => onlyAdds_other rfl) (fun _ => onlyAdds_other rfl)
    (fun _ _ _ => builds.reserveNext _ _ fun _ _ => builds.reserveCandidate fun _ _ =>
      builds.reserve (fun _ _ => attempt _) fun _ _ => onlyAdds_other rfl)
    (fun _ {_} _ _ => onlyAdds_other rfl)
    (fun _ _ _ _ _ => builds.decideResult _ _ _ _ (onlyAdds_other rfl))
    (fun _ _ _ _ _ _ => builds.finishRun _ _ _ _ _ (onlyAdds_other rfl)
      fun _ _ _ => builds.finishRoot _ _ _ _ fun _ => onlyAdds_other rfl)
    (fun _ _ _ => builds.bindCompletion _ _ _ fun _ => onlyAdds_other rfl) fun mails => ?_
  rw [quiet] at mails
  cases mails

/-- What a method that only adds events guarantees. -/
theorem posts_of_onlyAdds (quiet : asked.1.mails = false) (follows : postingKept.Follows σ) :
    Posts asked value σ := by
  refine ⟨follows.locked,
    fun id => .of_quiet quiet (fun old before => ?_) fun row before after => ?_,
    fun id ownerId delivery acknowledges => ?_⟩
  · obtain ⟨row, found, same⟩ :=
      RowGrowth.follows_of_keeps (T := trackedOutbox) follows.keeps before
    exact same ▸ found
  · exact RowGrowth.fresh_of_keeps (T := trackedOutbox) follows.keeps before after
  · rw [Call.acknowledges_of_quiet quiet] at acknowledges
    cases acknowledges

end Methods

section Publishers

variable {env : Env} {d : Db} {ownerId : String} {delivery : ℕ}

/-- The transaction of one statement, which finds nothing written yet. -/
theorem posts_of_exec {β : Type} {statement : Sql β} {reply : β → Reply}
    (posts : ∀ busy snap (σ : InFlight), σ.writes = [] → σ.view = σ.committed →
      Posts asked (reply (Engine.exec statement busy snap σ.committed).result)
        (σ.after (Engine.exec statement busy snap σ.committed))) :
    Wp .locks (.perform statement fun result => .ret (reply result) : Transaction Reply)
      (Local.initial d) (Posts asked) := by
  let silent : Db → InFlight → Prop := fun _ σ => σ.writes = []
  have stable : ∀ snap, Wp.Stable .locks (silent snap) := fun _ _ _ empty _ => empty
  refine Wp.perform stable (fun _ _ => rfl) fun snap σ busy empty _ =>
    Wp.ret fun _ rely => Posts.stable _ _ ?_ rely
  have view : σ.view = σ.committed := by rw [Local.view, empty, RowStore.applyAll_nil]
  rw [view]
  exact posts busy snap σ empty view

/-- What a statement that writes events guarantees, when it finds nothing written yet. -/
theorem Posts.of_writes {β : Type} {outcome : Outcome Write Key β} (rows : List OutboxRow)
    (empty : σ.writes = []) (view : σ.view = σ.committed)
    (writes : outcome.writes = rows.map Write.event)
    (listed : ∀ row ∈ rows, Posted asked value row.eventId
      (σ.committed.outbox.find? row.eventId) (some row))
    (unlisted : ∀ id, (∀ row ∈ rows, row.eventId ≠ id) →
      ∀ row ∈ asked.1.claimed value, row.eventId ≠ id)
    (answered : ∀ id ownerId delivery, asked.1.acknowledges = some (id, ownerId, delivery) →
      (value = .flag false ∧ rows = []) ∨
      (value = .flag true ∧ Key.event id ∈ outcome.locks ∧
        ∃ row, σ.committed.outbox.find? id = some row ∧
          row.claimedBy ownerId delivery asked.2.now = true)) :
    Posts asked value (σ.after outcome) := by
  refine ⟨fun w member => ?_, fun id => ?_, fun id ownerId delivery acknowledges => ?_⟩
  · rw [Local.after_writes, empty, List.nil_append] at member
    exact σ.held_after_of_write outcome member
  · rw [Local.view_after, view, writes, Local.after_committed]
    rcases trackedOutbox.find?_applyAll_map rows σ.committed id with
      ⟨row, member, rfl, found⟩ | ⟨absent, same⟩
    · exact (congrArg _ found).mpr (listed row member)
    · exact (congrArg _ same).mpr (.stays (unlisted id absent))
  · rcases answered id ownerId delivery acknowledges with ⟨flag, none⟩ | ⟨flag, lock, found⟩
    · refine Or.inl ⟨flag, ?_⟩
      rw [Local.after_writes, empty, writes, none, List.map_nil, List.append_nil]
    · exact Or.inr ⟨flag, σ.held_after_of_lock outcome lock, found⟩

/-- An acknowledgement or a deferral acts on the current claim, or does nothing. -/
theorem update_posts {statement : OutboxSql (Option OutboxRow)} {f : OutboxRow → OutboxRow}
    (exec : ∀ busy snap d, statement.exec busy snap d =
      outbox.update id (OutboxRow.claimedBy ownerId delivery asked.2.now) f snap d)
    (same : ∀ row, (f row).eventId = row.eventId)
    (acknowledges : asked.1.acknowledges = some (id, ownerId, delivery))
    (acts : ∀ row, row.claimedBy ownerId delivery asked.2.now = true →
      Posted asked (.flag true) id (some row) (some (f row))) :
    Wp .locks (.perform (.outbox statement) fun result => .ret (.flag result.isSome) :
      Transaction Reply) (Local.initial d) (Posts asked) := by
  have silent (value : Reply) : asked.1.claimed value = [] :=
    Call.claimed_of_acknowledges acknowledges value
  refine posts_of_exec fun busy snap σ empty view => ?_
  have here : Engine.exec (Sql.outbox statement) busy snap σ.committed =
      outbox.update id (OutboxRow.claimedBy ownerId delivery asked.2.now) f snap σ.committed :=
    exec ..
  rw [here, Access.update]
  cases target : outbox.target id (OutboxRow.claimedBy ownerId delivery asked.2.now) snap
      σ.committed with
  | none =>
    refine Posts.of_writes [] empty view rfl (fun _ member => ?_) (fun _ _ => ?_)
      fun _ _ _ _ => Or.inl ⟨rfl, rfl⟩
    · cases member
    · rw [silent]
      exact fun _ listed => absurd listed List.not_mem_nil
  | some row =>
    obtain ⟨-, found, claimed⟩ := Access.target_eq_some_iff.mp target
    have named : row.eventId = id := Table.key_of_find? found
    refine Posts.of_writes [f row] empty view rfl (fun row' member => ?_) (fun _ _ => ?_)
      fun id' ownerId' delivery' acknowledges' => Or.inr ⟨rfl, ?_, ?_⟩
    · obtain rfl := List.mem_singleton.mp member
      rw [same, named, show σ.committed.outbox.find? id = some row from found]
      exact acts row claimed
    · rw [silent]
      exact fun _ listed => absurd listed List.not_mem_nil
    · cases acknowledges.symm.trans acknowledges'
      rw [Access.locks_of_target target]
      exact List.mem_singleton_self _
    · cases acknowledges.symm.trans acknowledges'
      exact ⟨row, found, claimed⟩

/-- The rows that a claim hands out. -/
theorem mem_claim {busy : Key → Bool} {snap current : Db} {now : Time} {limit : ℕ}
    (listed : row' ∈ ((OutboxSql.claim ownerId now limit).exec busy snap current).result) :
    ∃ row, current.outbox.find? row.eventId = some row ∧ row.claimable now = true ∧
      busy (.event row.eventId) = false ∧ row' = row.claim ownerId now := by
  obtain ⟨row, member, rfl⟩ := List.mem_map.mp listed
  obtain ⟨seen, -, selected⟩ := List.mem_filterMap.mp (List.mem_of_mem_take member)
  obtain ⟨-, found, claimable⟩ := Access.locked_of_selectSkipLocked selected
  have named : row.eventId = seen.eventId := Table.key_of_find? found
  rw [← named] at found selected
  exact ⟨row, found, claimable, Access.free_of_selectSkipLocked selected, rfl⟩

theorem claim_posts {limit : ℕ} :
    Wp .locks (Asked.code sha256 (.claimEvents ownerId limit, env)) (Local.initial d)
      (Posts (.claimEvents ownerId limit, env)) := by
  refine posts_of_exec fun busy snap σ empty view => ?_
  refine Posts.of_writes ((OutboxSql.claim ownerId env.now limit).exec busy snap σ.committed).result
    empty view rfl (fun row' listed => ?_) (fun id absent => absent)
    fun _ _ _ acknowledges => nomatch acknowledges
  obtain ⟨row, found, claimable, -, rfl⟩ := mem_claim listed
  have here : σ.committed.outbox.find? (row.claim ownerId env.now).eventId = some row := found
  rw [here]
  refine .claimed rfl rfl claimable (fun other listed' named => ?_) listed
  -- another row of the same event is the same claim of the same row
  obtain ⟨row', found', -, -, rfl⟩ := mem_claim listed'
  have same : row'.eventId = row.eventId := named
  rw [same, found] at found'
  cases found'
  rfl

/-- Every method keeps the outbox so, under interference. -/
theorem call_posts (asked : Asked) (d : Db) :
    Wp .locks (asked.code sha256) (Local.initial d) (Posts asked) := by
  obtain ⟨call, env⟩ := asked
  by_cases quiet : call.mails = false
  · refine (call_onlyAdds call quiet _ (RowChange.Follows.initial d)).mono fun value σ follows => ?_
    exact posts_of_onlyAdds quiet follows
  cases call with
  | claimEvents ownerId limit => exact claim_posts
  | delivered eventId ownerId delivery =>
    refine update_posts (fun _ _ _ => rfl) (fun _ => rfl) rfl fun row claimed => ?_
    obtain ⟨-, rfl, -⟩ := OutboxRow.claimedBy_iff.mp claimed
    exact .delivered rfl claimed rfl
  | deferEvent eventId ownerId delivery delay =>
    have code : Asked.code sha256 (.deferEvent eventId ownerId delivery delay, env) =
        (Store.require (decide (1000000 ≤ delay) && decide (delay ≤ 300000000)) _).bind fun _ =>
          .perform (.outbox (.defer_ eventId ownerId delivery env.now delay)) fun result =>
            .ret (.flag result.isSome) := Tx.bind_assoc ..
    rw [code]
    refine wp_require fun _ => update_posts (fun _ _ _ => rfl) (fun _ => rfl) rfl
      fun row claimed => ?_
    obtain ⟨-, rfl, -⟩ := OutboxRow.claimedBy_iff.mp claimed
    exact .deferred rfl claimed rfl
  | _ => exact absurd rfl quiet

end Publishers

/-! ### Runs -/

/-- Any transactions have run beside each other, from the empty ledger. -/
abbrev Reached (sha256 : String → String) (authority : Authority) (sys : Interleaved) : Prop :=
  Interleaved.Run sha256 (fun _ _ => True) (Interleaved.empty authority) sys

/-- Transaction `t` has claimed the event, and was handed `row`. -/
def Claims (sys : Interleaved) (t : ℕ) (id : EventId) (row : OutboxRow) : Prop :=
  ∃ asked value, sys.sessions t = .committed asked value ∧ row ∈ asked.1.claimed value ∧
    row.eventId = id

/-- The claim that was handed out with `row` is the current one at `now`, and unexpired. -/
def Current (sys : Interleaved) (now : Time) (id : EventId) (row : OutboxRow) : Prop :=
  ∃ ownerId ∈ row.ownerId, ∃ now_row, sys.committed.outbox.find? id = some now_row ∧
    now_row.claimedBy ownerId row.deliveries now = true

section Runs

variable {sys sys' : Interleaved} {event : Event Asked} {t : ℕ}
  {session : Session Sql RuntimeError Reply Asked Db Write}

theorem outbox_sound : Sound (Asked.code sha256) (fun _ _ => True) (fun _ => .locks)
    (fun _ => True) Posts :=
  .of_code call_posts

theorem Reached.held (reached : Reached sha256 authority sys) :
    Held (fun _ => .locks) (fun _ => True) Posts sys :=
  outbox_sound.held (.initial trivial) reached

/-- What a step does to an event and to the claims of it. -/
theorem Reached.step (reached : Reached sha256 authority sys)
    (step : sys.step (Asked.code sha256) event = some sys') (id : EventId) :
    (sys'.committed = sys.committed ∧ ∀ u row, Claims sys' u id row ↔ Claims sys u id row) ∨
    ∃ t asked value, Posted asked value id (sys.committed.outbox.find? id)
        (sys'.committed.outbox.find? id) ∧ (∀ row, ¬ Claims sys t id row) ∧
      ∀ u row, Claims sys' u id row ↔
        Claims sys u id row ∨ (u = t ∧ row ∈ asked.1.claimed value ∧ row.eventId = id) := by
  rcases System.step_commits step with
    ⟨same, isOver⟩ | ⟨t, session, value, rfl, active, prog, after, committed, others⟩
  · refine Or.inl ⟨same, fun u row => ?_⟩
    simp only [Claims, isOver]
  · refine Or.inr ⟨t, session.call, value, ?_, ?_, fun u row => ?_⟩
    · rw [after]
      exact (reached.held.post_of_ret active prog).rows id
    · rintro row ⟨asked, value, isOver, -⟩
      rw [active] at isOver
      cases isOver
    · by_cases same : u = t
      · subst same
        constructor
        · rintro ⟨asked, value, isOver, listed⟩
          rw [committed] at isOver
          cases isOver
          exact Or.inr ⟨rfl, listed⟩
        · rintro (⟨asked, value, isOver, -⟩ | ⟨-, listed⟩)
          · rw [active] at isOver
            cases isOver
          · exact ⟨_, _, committed, listed⟩
      · simp only [Claims, others u same, same, false_and, or_false]

/-- The claims of an event have the numbers that its counter has reached, each once. -/
structure Counted (sys : Interleaved) (id : EventId) : Prop where
  known : ∀ t row, Claims sys t id row → ∃ now_row, sys.committed.outbox.find? id = some now_row ∧
    0 < row.deliveries ∧ row.deliveries ≤ now_row.deliveries
  once : ∀ now_row, sys.committed.outbox.find? id = some now_row → ∀ n, 0 < n →
    n ≤ now_row.deliveries → ∃! claim : ℕ × OutboxRow,
      Claims sys claim.1 id claim.2 ∧ claim.2.deliveries = n

theorem Counted.step (counted : Counted sys id) (found : sys.committed.outbox.find? id = some row)
    (after : sys'.committed.outbox.find? id = some row')
    (posted : Posted asked value id (some row) (some row'))
    (claims : ∀ u claim, Claims sys' u id claim ↔
      Claims sys u id claim ∨ (u = t ∧ claim ∈ asked.1.claimed value ∧ claim.eventId = id)) :
    Counted sys' id := by
  have reach {u : ℕ} {claim : OutboxRow} (old : Claims sys u id claim) :
      0 < claim.deliveries ∧ claim.deliveries ≤ row.deliveries := by
    obtain ⟨now_row, here, bounds⟩ := counted.known u claim old
    rw [found] at here
    cases here
    exact bounds
  rcases posted.deliveries with ⟨same, unclaimed⟩ | ⟨grown, listed, only⟩
  · have claims (u : ℕ) (claim : OutboxRow) : Claims sys' u id claim ↔ Claims sys u id claim :=
      (claims u claim).trans (or_iff_left fun new => unclaimed claim new.2.1 new.2.2)
    refine ⟨fun u claim here => ⟨row', after, ?_⟩, fun now_row here n positive le => ?_⟩
    · rw [same]
      exact reach ((claims u claim).mp here)
    · rw [after] at here
      cases here
      simp only [claims]
      exact counted.once row found n positive (le.trans same.le)
  · refine ⟨fun u claim here => ⟨row', after, ?_⟩, fun now_row here n positive le => ?_⟩
    · rcases (claims u claim).mp here with old | ⟨-, new, named⟩
      · have bounds := reach old
        omega
      · rw [only claim new named]
        omega
    · rw [after] at here
      cases here
      by_cases newest : n = row'.deliveries
      · -- the number of the new claim is above those of the others
        refine ⟨(t, row'), ⟨(claims t row').mpr (Or.inr ⟨rfl, listed, ?_⟩), newest.symm⟩, ?_⟩
        · exact Table.key_of_find? after
        · rintro ⟨u, claim⟩ ⟨here, number⟩
          rcases (claims u claim).mp here with old | ⟨rfl, new, named⟩
          · have bounds := reach old
            simp only at number
            omega
          · rw [only claim new named]
      · obtain ⟨claim, ⟨old, number⟩, unique⟩ := counted.once row found n positive (by omega)
        refine ⟨claim, ⟨(claims _ _).mpr (Or.inl old), number⟩, ?_⟩
        rintro ⟨u, other⟩ ⟨here, number'⟩
        rcases (claims u other).mp here with old' | ⟨-, new, named⟩
        · exact unique (u, other) ⟨old', number'⟩
        · rw [only other new named] at number'
          exact absurd number'.symm newest

theorem claims_once (reached : Reached sha256 authority sys) (id : EventId) : Counted sys id := by
  induction reached with
  | refl =>
    refine ⟨?_, fun now_row found => ?_⟩
    · rintro t row ⟨asked, value, isOver, -⟩
      cases isOver
    · cases found
  | @tail middle last event reached ok step counted =>
    rcases Reached.step reached step id with
      ⟨same, claims⟩ | ⟨t, asked, value, posted, idle, claims⟩
    · refine ⟨fun u row claim => ?_, fun now_row found n positive le => ?_⟩
      · rw [same]
        exact counted.known u row ((claims u row).mp claim)
      · rw [same] at found
        simp only [claims]
        exact counted.once now_row found n positive le
    · rcases Option.eq_none_or_eq_some (middle.committed.outbox.find? id) with
        absent | ⟨row, found⟩
      · rw [absent] at posted
        obtain ⟨unclaimed, fresh⟩ := posted.of_none
        refine ⟨fun u row claim => ?_, fun now_row found n positive le => ?_⟩
        · rcases (claims u row).mp claim with old | ⟨-, listed, named⟩
          · obtain ⟨now_row, found, -⟩ := counted.known u row old
            rw [absent] at found
            cases found
          · exact absurd named (unclaimed row listed)
        · rw [(fresh now_row found).1] at le
          exact absurd positive (Nat.not_lt.mpr le)
      · rw [found] at posted
        obtain ⟨row', after⟩ := posted.of_some
        rw [after] at posted
        exact counted.step found after posted claims

/-- A claim that is current has the number that the counter of its event has. -/
theorem Current.deliveries {now : Time} (current : Current sys now id row)
    (found : sys.committed.outbox.find? id = some row') : row.deliveries = row'.deliveries := by
  obtain ⟨ownerId, -, now_row, here, claimed⟩ := current
  rw [found] at here
  cases here
  exact (OutboxRow.claimedBy_iff.mp claimed).2.1.symm

/-- At any time at most one claim is current. -/
theorem Counted.current_unique (counted : Counted sys id) {t' : ℕ} {now now' : Time}
    (claim : Claims sys t id row) (claim' : Claims sys t' id row')
    (current : Current sys now id row) (current' : Current sys now' id row') :
    t = t' ∧ row = row' := by
  obtain ⟨now_row, found, positive, -⟩ := counted.known t row claim
  have number := current.deliveries found
  have number' := current'.deliveries found
  obtain ⟨newest, -, unique⟩ := counted.once now_row found _ (number ▸ positive) le_rfl
  have same := (unique (t, row) ⟨claim, number⟩).trans (unique (t', row') ⟨claim', number'⟩).symm
  exact ⟨congrArg Prod.fst same, congrArg Prod.snd same⟩

/-- A late acknowledgement or deferral changes nothing, and says so. -/
theorem Reached.late (reached : Reached sha256 authority sys) {ownerId : String} {delivery : ℕ}
    (active : sys.sessions t = .active session)
    (acknowledges : session.call.1.acknowledges = some (id, ownerId, delivery))
    (late : ¬ ∃ row, sys.committed.outbox.find? id = some row ∧
      row.claimedBy ownerId delivery session.call.2.now = true)
    (step : sys.step (Asked.code sha256) (.commit t) = some sys') :
    sys'.committed = sys.committed ∧ sys'.sessions t = .committed session.call (.flag false) := by
  obtain ⟨value, prog, after, committed⟩ := System.step_commit active step
  have posts := reached.held.post_of_ret active prog
  rcases posts.answered id ownerId delivery acknowledges with ⟨flag, silent⟩ | ⟨-, -, current⟩
  · rw [after, committed, flag, Local.view, silent]
    exact ⟨rfl, rfl⟩
  · exact absurd current late

/-- An event that is delivered stays as it is. -/
theorem Reached.delivered_stays (reached : Reached sha256 authority sys) {at_ : Time}
    (found : sys.committed.outbox.find? id = some row) (delivered : row.deliveredAt = some at_)
    (run : Interleaved.Run sha256 (fun _ _ => True) sys sys') :
    sys'.committed.outbox.find? id = some row := by
  induction run with
  | refl => exact found
  | tail event run ok step ih =>
    rcases Reached.step (System.Run.trans reached run) step id with
      ⟨same, -⟩ | ⟨t, asked, value, posted, -⟩
    · rw [same]
      exact ih
    · rw [ih] at posted
      exact posted.delivered_stays delivered

end Runs

/-! ### What is not delivered can be claimed again -/

/-- The events that can be claimed at a time. -/
def Db.claimable (d : Db) (now : Time) : Finset EventId :=
  ((d.outbox.rows.filter (OutboxRow.claimable now)).map OutboxRow.eventId).toFinset

theorem Db.mem_claimable_iff {d : Db} {now : Time} :
    id ∈ d.claimable now ↔ ∃ row, d.outbox.find? id = some row ∧ row.claimable now = true := by
  simp only [claimable, List.mem_toFinset, List.mem_map, List.mem_filter]
  constructor
  · rintro ⟨row, ⟨member, claimable⟩, rfl⟩
    exact ⟨row, Table.find?_of_mem member, claimable⟩
  · rintro ⟨row, found, claimable⟩
    exact ⟨row, ⟨Table.mem_of_find? found, claimable⟩, Table.key_of_find? found⟩

section Again

variable {sys : Interleaved} {ownerId : String} {limit : ℕ} {env : Env} {d : Db}
  {busy : Key → Bool} {now : Time}

/-- A claim finds what can be claimed and is free, as long as its limit allows. -/
theorem claim_finds (found : d.outbox.find? id = some row) (claimable : row.claimable now = true)
    (free : busy (.event id) = false) (positive : 0 < limit) :
    row.claim ownerId now ∈ ((OutboxSql.claim ownerId now limit).exec busy d d).result ∨
      ((OutboxSql.claim ownerId now limit).exec busy d d).result ≠ [] := by
  let waiting := (d.outbox.rows.filter (OutboxRow.claimable now)).insertionSort
    fun a b => a.createdAt ≤ b.createdAt
  let seen := waiting.filterMap fun row =>
    (outbox.selectSkipLocked row.eventId (OutboxRow.claimable now) busy d d).result
  have named : row.eventId = id := Table.key_of_find? found
  have member : row ∈ seen := by
    refine List.mem_filterMap.mpr ⟨row, (List.mem_insertionSort _).mpr ?_, ?_⟩
    · exact List.mem_filter.mpr ⟨Table.mem_of_find? found, claimable⟩
    · rw [named, Access.selectSkipLocked_of_free free, Access.selectForUpdate, Access.target_self]
      exact Access.find?_eq_some_iff.mpr ⟨found, claimable⟩
  by_cases taken : row ∈ seen.take limit
  · exact Or.inl (List.mem_map_of_mem taken)
  · refine Or.inr fun none => ?_
    rcases List.take_eq_nil_iff.mp (List.map_eq_nil_iff.mp none) with zero | nothing
    · exact positive.ne' zero
    · rw [show seen = [] from nothing] at member
      cases member

/-- What a claim hands out can not be claimed for now. -/
theorem not_claimable_claim : (row.claim ownerId now).claimable now = false := by
  rw [← Bool.not_eq_true, OutboxRow.claimable_iff]
  rintro ⟨-, -, expired⟩
  exact absurd (expired (now + 30000000) rfl)
    (Int.not_lt.mpr (Int.le_add_of_nonneg_right (by decide)))

/-- Fewer events can be claimed after a claim that hands some out. -/
theorem claimable_ssubset {rows : List OutboxRow} (some_ : rows ≠ [])
    (claims : ∀ claim ∈ rows, ∃ row, d.outbox.find? row.eventId = some row ∧
      row.claimable now = true ∧ claim = row.claim ownerId now) :
    (RowStore.applyAll (rows.map trackedOutbox.write) d).claimable now ⊂ d.claimable now := by
  refine Finset.ssubset_iff_subset_ne.mpr ⟨fun id member => ?_, fun same => ?_⟩
  · obtain ⟨row, here, claimable⟩ := Db.mem_claimable_iff.mp member
    rcases trackedOutbox.find?_applyAll_map rows d id with ⟨claim, listed, -, now⟩ | ⟨-, now⟩
    · obtain ⟨old, -, -, rfl⟩ := claims claim listed
      cases now.symm.trans here
      rw [not_claimable_claim] at claimable
      cases claimable
    · exact Db.mem_claimable_iff.mpr ⟨row, now.symm.trans here, claimable⟩
  · obtain ⟨claim, listed⟩ := List.exists_mem_of_ne_nil rows some_
    obtain ⟨old, there, claimable, rfl⟩ := claims claim listed
    have before : old.eventId ∈ d.claimable now := Db.mem_claimable_iff.mpr ⟨old, there, claimable⟩
    rw [← same] at before
    obtain ⟨row, here, claimable⟩ := Db.mem_claimable_iff.mp before
    rcases trackedOutbox.find?_applyAll_map rows d old.eventId with
      ⟨claim, listed', -, now⟩ | ⟨unlisted, -⟩
    · obtain ⟨_, -, -, rfl⟩ := claims claim listed'
      cases now.symm.trans here
      rw [not_claimable_claim] at claimable
      cases claimable
    · exact unlisted _ listed rfl

/-- The claim that a transaction of one statement makes, when nobody is in its way: the event
is handed out, or fewer events can be claimed than before. -/
theorem claim_once {t : ℕ} (idle : sys.sessions t = .idle) (positive : 0 < limit)
    (found : sys.committed.outbox.find? id = some row) (claimable : row.claimable env.now = true)
    (free : sys.owner (.event id) = none) :
    ∃ last, Interleaved.Run sha256 (fun _ _ => True) sys last ∧
      (∀ u, u ≠ t → last.sessions u = sys.sessions u) ∧
      ((Claims last t id (row.claim ownerId env.now) ∧
          last.committed.outbox.find? id = some (row.claim ownerId env.now)) ∨
        last.committed.outbox.find? id = some row ∧ last.owner (.event id) = none ∧
          last.committed.claimable env.now ⊂ sys.committed.claimable env.now) := by
  let call : Asked := (.claimEvents ownerId limit, env)
  let outcome := (OutboxSql.claim ownerId env.now limit).exec (sys.busy t) sys.committed
    sys.committed
  have program : Asked.code sha256 call =
      .perform (.outbox (.claim ownerId env.now limit)) fun rows => .ret (.events rows) := rfl
  have unblocked : ∀ k ∈ outcome.locks ++ outcome.writes.map (RowStore.key Db),
      sys.busy t k = false := by
    intro k member
    obtain ⟨w, written, rfl⟩ := List.mem_map.mp member
    obtain ⟨row', listed, rfl⟩ := List.mem_map.mp written
    have listed : row' ∈ outcome.result := listed
    obtain ⟨row, -, -, unlocked, rfl⟩ := mem_claim listed
    exact unlocked
  obtain ⟨last, run, committed, ended, others, unowned⟩ :=
    System.run_of_free idle program rfl unblocked
  have written : last.committed =
      RowStore.applyAll (outcome.result.map trackedOutbox.write) sys.committed := committed
  have handed {claim : OutboxRow} (listed : claim ∈ outcome.result) (named : claim.eventId = id) :
      claim = row.claim ownerId env.now := by
    obtain ⟨old, there, -, -, rfl⟩ := mem_claim listed
    have same : old.eventId = id := named
    rw [same, found] at there
    cases there
    rfl
  refine ⟨last, run, others, ?_⟩
  rw [written]
  rcases trackedOutbox.find?_applyAll_map outcome.result sys.committed id with
    ⟨claim, listed, named, now⟩ | ⟨unlisted, now⟩
  · obtain rfl := handed listed named
    exact Or.inl ⟨⟨call, _, ended, listed, named⟩, now⟩
  · have claims : ∀ claim ∈ outcome.result, ∃ row,
        sys.committed.outbox.find? row.eventId = some row ∧ row.claimable env.now = true ∧
          claim = row.claim ownerId env.now := fun claim listed => by
      obtain ⟨old, there, claimable, -, same⟩ := mem_claim listed
      exact ⟨old, there, claimable, same⟩
    refine Or.inr ⟨now.trans found, unowned _ free, claimable_ssubset ?_ claims⟩
    have unlocked : sys.busy t (.event id) = false := by rw [System.busy, free]
    have finds : row.claim ownerId env.now ∈ outcome.result ∨ outcome.result ≠ [] :=
      claim_finds found claimable unlocked positive
    rcases finds with listed | some_
    · have named : row.eventId = id := Table.key_of_find? found
      exact (unlisted _ listed named).elim
    · exact some_

/-- What is claimable and free can be claimed, within any limit. -/
theorem exists_claim (from_ : ℕ) (idle : ∀ t, from_ ≤ t → sys.sessions t = .idle)
    (positive : 0 < limit) (found : sys.committed.outbox.find? id = some row)
    (claimable : row.claimable env.now = true) (free : sys.owner (.event id) = none) :
    ∃ t last, Interleaved.Run sha256 (fun _ _ => True) sys last ∧ sys.sessions t = .idle ∧
      Claims last t id (row.claim ownerId env.now) ∧
      last.committed.outbox.find? id = some (row.claim ownerId env.now) := by
  induction size : (sys.committed.claimable env.now).card using Nat.strong_induction_on
    generalizing sys from_ with
  | _ size ih =>
    obtain ⟨middle, run, others, claims | ⟨found, free, fewer⟩⟩ :=
      claim_once (idle from_ le_rfl) positive found claimable free
    · exact ⟨from_, middle, run, idle from_ le_rfl, claims⟩
    · have still : ∀ t, from_ + 1 ≤ t → middle.sessions t = .idle := fun t le => by
        rw [others t (by omega)]
        exact idle t (by omega)
      obtain ⟨t, last, rest, unused, claims⟩ := ih _ (size ▸ Finset.card_lt_card fewer) _ still
        found free rfl
      refine ⟨t, last, System.Run.trans run rest, ?_, claims⟩
      by_cases same : t = from_
      · exact same ▸ idle from_ le_rfl
      · rw [← others t same]
        exact unused

end Again

/-! ### The claim as a whole -/

/-- Deliveries of an event are fenced. -/
structure Fenced (sha256 : String → String) (sys : Interleaved) (id : EventId) : Prop where
  /-- The counter grows by one with each claim: its numbers are those of the claims. -/
  counted : Counted sys id
  /-- At most one claim is current and unexpired. -/
  unique : ∀ now t t' row row', Claims sys t id row → Claims sys t' id row' →
    Current sys now id row → Current sys now id row' → t = t' ∧ row = row'
  /-- An acknowledgement or a deferral that commits for another claim, or for one that has
  expired, changes nothing and returns `False`. -/
  late : ∀ t session ownerId delivery last, sys.sessions t = .active session →
    session.call.1.acknowledges = some (id, ownerId, delivery) →
    (¬ ∃ row, sys.committed.outbox.find? id = some row ∧
      row.claimedBy ownerId delivery session.call.2.now = true) →
    sys.step (Asked.code sha256) (.commit t) = some last →
    last.committed = sys.committed ∧ last.sessions t = .committed session.call (.flag false)
  /-- Once it is set, `delivered_at` is neither set again nor cleared, and the row does not
  change any more. -/
  delivered : ∀ row at_ last, sys.committed.outbox.find? id = some row →
    row.deliveredAt = some at_ → Interleaved.Run sha256 (fun _ _ => True) sys last →
    last.committed.outbox.find? id = some row
  /-- What is not delivered can be claimed once its lease and `available_at` have passed and
  nobody else is at it, and the claim is current. -/
  again : ∀ row (env : Env) ownerId limit, sys.committed.outbox.find? id = some row →
    row.claimable env.now = true → sys.owner (.event id) = none → 0 < limit →
    ∃ t last, Interleaved.Run sha256 (fun _ _ => True) sys last ∧ sys.sessions t = .idle ∧
      Claims last t id (row.claim ownerId env.now) ∧
      Current last env.now id (row.claim ownerId env.now)

/-- **Outbox delivery is fenced**, in every run of any transactions beside each other. -/
theorem outbox_fenced {sys : Interleaved} (reached : Reached sha256 authority sys) (id : EventId) :
    Fenced sha256 sys id where
  counted := claims_once reached id
  unique _ _ _ _ _ claim claim' current current' :=
    (claims_once reached id).current_unique claim claim' current current'
  late _ _ _ _ _ active acknowledges late step := reached.late active acknowledges late step
  delivered _ _ _ found delivered run := reached.delivered_stays found delivered run
  again row env ownerId limit found claimable free positive := by
    obtain ⟨from_, idle⟩ := reached.exists_idle 0 fun _ _ => rfl
    obtain ⟨t, last, run, unused, claims, now⟩ :=
      exists_claim from_ idle positive found claimable free
    refine ⟨t, last, run, unused, claims, ownerId, rfl, _, now, OutboxRow.claimedBy_iff.mpr ?_⟩
    have undelivered := (OutboxRow.claimable_iff.mp claimable).1
    exact ⟨rfl, rfl, undelivered, _, rfl, Int.lt_add_of_pos_right _ (by decide)⟩

/-- The event of a run is claimed by a publisher, whose lease expires before it acknowledges;
the publisher has claimed it again by then. -/
theorem outbox_fenced_reclaimed :
    ∃ sys row, Reached Sample.sha256 {} sys ∧
      sys.committed.outbox.find? (.start "r") = some row ∧ row.deliveries = 2 ∧
      row.deliveredAt = none ∧ Fenced Sample.sha256 sys (.start "r") := by
  let late : Env := { Sample.env "" with now := 40000000 }
  let submit : Asked := (.submitRun Sample.root "k" "d" ⟨"h", "i", none, none⟩, Sample.env "")
  let events := Interleaved.alone 0 submit 9 ++
    Interleaved.alone 1 (.claimEvents "w" 32, Sample.env "") 1 ++
    Interleaved.alone 2 (.claimEvents "w" 32, late) 1 ++
    Interleaved.alone 3 (.delivered (.start "r") "w" 1, late) 1
  have played : (System.play (Asked.code Sample.sha256) (fun _ _ => True) (Interleaved.empty {})
      events).any fun sys => (sys.committed.outbox.find? (.start "r")).any fun row =>
        row.deliveries = 2 && row.deliveredAt = none := by
    decide +kernel
  obtain ⟨sys, run, tested⟩ := (Option.any_eq_true _ _).mp played
  obtain ⟨row, found, tested⟩ := (Option.any_eq_true _ _).mp tested
  obtain ⟨twice, undelivered⟩ := Bool.and_eq_true_iff.mp tested
  have reached : Reached Sample.sha256 {} sys := System.Run.of_play run
  exact ⟨sys, row, reached, found, of_decide_eq_true twice, of_decide_eq_true undelivered,
    outbox_fenced reached _⟩

end IntramindRuntime.Ledger
