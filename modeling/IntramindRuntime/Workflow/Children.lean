import IntramindRuntime.Workflow.TaskContext
import Mathlib.Data.List.Nodup
import Mathlib.Data.List.Range

/-!
# Mapping over children

A workflow starts a child for every item of a list, a window of them at a time. The older
loop starts a whole window and waits for all of it; the newer one refills the window as soon
as a child has ended. Here the two are state machines that are driven by the children: a
child ends, or the call is woken up.

## Main definitions

* `MapChildren` — the arguments of `map_children`, and the commands they stand for
* `Rolling`, `Rolling.step` — `_rolling_children`
* `Barrier`, `Barrier.step` — the loop with a barrier after every window

## Main results

* `Rolling.Sound.after`, `Barrier.Sound.after` — the windows, and the order of the commands
* `Rolling.Sound.goes_on`, `Barrier.Sound.goes_on` — a call that waits makes progress
* `rolling_refines_barrier` — with children that succeed, both return the same list
* `Rolling.Failure.step` — with a child that fails, the call ends all children and raises
-/

namespace IntramindRuntime.Workflow

open Library

/-! ### Calls -/

/-- The command that starts a child: the arguments of `run_child`. -/
structure ChildCommand (ι : Type) where
  taskType : String
  taskQueue : String
  key : List Char
  inputs : ι
  deriving DecidableEq

/-- The arguments of `map_children`. -/
structure MapChildren (ι : Type) where
  taskType : String
  taskQueue : String
  items : List ι
  /-- `str(item[item_key])`. -/
  identity : ι → String
  key : String
  window : Option ℤ := none

/-- How a child ends. -/
inductive ChildError
  | failed (message : String)
  | cancelled
  deriving DecidableEq, Repr

namespace MapChildren

variable {ι : Type} (call : MapChildren ι)

/-- The identities of the items. -/
def identities : List String := call.items.map call.identity

/-- The key of a child: `json.dumps([key, identity])`. -/
def childKey (item : ι) : List Char :=
  '[' :: (Json.quote call.key ++ [',', ' '] ++ Json.quote (call.identity item) ++ [']'])

/-- The command for an item. -/
def command (item : ι) : ChildCommand ι :=
  ⟨call.taskType, call.taskQueue, call.childKey item, item⟩

/-- The commands for all items, in order. -/
def commands : List (ChildCommand ι) := call.items.map call.command

/-- The number of children that may be in flight, and the checks before. -/
def limit (policy : TaskPolicy) : Except String ℕ :=
  if ∃ window ∈ call.window, window ≤ 0 then .error "child window must be a positive integer"
  else if call.identities.Nodup then
    .ok (min (call.window.elim policy.childWindow Int.toNat) policy.childWindow)
  else .error "duplicate child identity"

/-- The limit is positive. -/
theorem limit_pos {policy : TaskPolicy} {limit : ℕ} (checked : call.limit policy = .ok limit) :
    0 < limit := by
  unfold MapChildren.limit at checked
  split at checked
  · cases checked
  · rename_i valid
    split at checked
    · cases checked
      refine lt_min ?_ policy.windowed.1
      cases here : call.window with
      | none => exact policy.windowed.1
      | some window =>
        have positive : 0 < window := by
          by_contra notPositive
          exact valid ⟨window, here, not_lt.mp notPositive⟩
        exact Int.pos_iff_toNat_pos.mp positive
    · cases checked

end MapChildren

/-! ### Tasks -/

section Tasks

variable {ρ : Type}

/-- The task of a child that was started. -/
structure ChildTask (ρ : Type) where
  ordinal : ℕ
  cancelRequested : Bool := false
  outcome : Option (Except ChildError ρ) := none

/-- The child is in flight. -/
def ChildTask.running (task : ChildTask ρ) : Bool := task.outcome.isNone

/-- A child ends. -/
def ChildTask.finish (ordinal : ℕ) (outcome : Except ChildError ρ) (task : ChildTask ρ) :
    ChildTask ρ :=
  if task.ordinal = ordinal ∧ task.running then { task with outcome := some outcome } else task

/-- `task.cancel()`. -/
def ChildTask.cancel (task : ChildTask ρ) : ChildTask ρ :=
  if task.running then { task with cancelRequested := true } else task

/-- What happens next. -/
inductive ChildEvent (ρ : Type)
  /-- A child ends. -/
  | finish (ordinal : ℕ) (outcome : Except ChildError ρ)
  /-- The call is resumed, if what it waits for has happened. -/
  | wake

/-- A child that ends has succeeded, with the value of its item. -/
def ChildEvent.Succeeds (value : ℕ → ρ) : ChildEvent ρ → Prop
  | .finish ordinal outcome => outcome = .ok (value ordinal)
  | .wake => True

end Tasks

/-! ### The rolling window -/

/-- Where `_rolling_children` is. -/
inductive RollingPhase (ρ : Type)
  /-- In `workflow.wait`, until a child has ended. -/
  | waiting
  /-- In the `finally` block, until all children have ended. -/
  | draining (error : ChildError)
  | returned (results : List (Option ρ))
  | raised (error : ChildError)

/-- The variables of `_rolling_children`, and the commands so far. -/
structure Rolling (ι ρ : Type) where
  call : MapChildren ι
  limit : ℕ
  results : List (Option ρ)
  pending : List (ChildTask ρ) := []
  cursor : ℕ := 0
  commands : List (ChildCommand ι) := []
  phase : RollingPhase ρ := .waiting

namespace Rolling

variable {ι ρ : Type} (s : Rolling ι ρ)

/-- The inner loop: start children until the window is full. -/
def refill : ℕ → Rolling ι ρ → Rolling ι ρ
  | 0, s => s
  | fuel + 1, s =>
    match s.call.items[s.cursor]? with
    | some item =>
      if s.pending.length < s.limit then
        refill fuel { s with
          pending := s.pending ++ [{ ordinal := s.cursor }]
          cursor := s.cursor + 1
          commands := s.commands ++ [s.call.command item] }
      else s
    | none => s

/-- The outer loop, from its condition to the next await. -/
def loop : Rolling ι ρ :=
  if s.cursor < s.call.items.length ∨ s.pending ≠ [] then
    { refill s.limit s with phase := .waiting }
  else { s with phase := .returned s.results }

/-- The call begins. -/
def begin (call : MapChildren ι) (limit : ℕ) : Rolling ι ρ :=
  loop { call, limit, results := call.items.map fun _ => none }

/-- Walk over the pending tasks: store the results of those that have ended, up to the first
one that has failed. -/
def harvest : List (ChildTask ρ) → List (Option ρ) →
    List (Option ρ) × List (ChildTask ρ) × Option ChildError
  | [], results => (results, [], none)
  | task :: rest, results =>
    match task.outcome with
    | some (.ok value) => harvest rest (results.set task.ordinal (some value))
    | some (.error error) => (results, task :: rest, some error)
    | none =>
      let after := harvest rest results
      (after.1, task :: after.2.1, after.2.2)

/-- One turn. What cannot happen changes nothing. -/
def step : ChildEvent ρ → Rolling ι ρ
  | .finish ordinal outcome =>
    { s with pending := s.pending.map (ChildTask.finish ordinal outcome) }
  | .wake =>
    match s.phase with
    | .waiting =>
      if s.pending.any fun task => task.running = false then
        match harvest s.pending s.results with
        | (results, pending, none) => loop { s with results, pending }
        | (results, pending, some error) =>
          { s with results, pending := pending.map ChildTask.cancel, phase := .draining error }
      else s
    | .draining error =>
      if s.pending.all fun task => task.running = false then { s with phase := .raised error }
      else s
    | _ => s

/-- Any sequence of turns. -/
def after (events : List (ChildEvent ρ)) : Rolling ι ρ := events.foldl step s

/-- The children in flight. -/
def inFlight : ℕ := s.pending.countP ChildTask.running

end Rolling

/-! ### The barrier -/

/-- Where the loop with barriers is. -/
inductive BarrierPhase (ρ : Type)
  /-- In `asyncio.gather`, until a child has failed or all have ended. -/
  | waiting
  | returned (results : List ρ)
  | raised (error : ChildError)

/-- The variables of the loop with barriers, and the commands so far. -/
structure Barrier (ι ρ : Type) where
  call : MapChildren ι
  limit : ℕ
  results : List ρ := []
  start : ℕ := 0
  pending : List (ChildTask ρ) := []
  /-- The first failure since the last barrier. -/
  failure : Option ChildError := none
  commands : List (ChildCommand ι) := []
  phase : BarrierPhase ρ := .waiting

/-- The value of a child that has ended well. -/
def ChildTask.value? {ρ : Type} (task : ChildTask ρ) : Option ρ :=
  match task.outcome with
  | some (.ok value) => some value
  | _ => none

namespace Barrier

variable {ι ρ : Type} (s : Barrier ι ρ)

/-- The loop, from its head to the next await. -/
def loop : Barrier ι ρ :=
  if s.start < s.call.items.length then
    let batch := (s.call.items.drop s.start).take s.limit
    { s with
      pending := (List.range' s.start batch.length).map fun ordinal => { ordinal }
      commands := s.commands ++ batch.map s.call.command
      phase := .waiting }
  else { s with pending := [], phase := .returned s.results }

/-- The call begins. -/
def begin (call : MapChildren ι) (limit : ℕ) : Barrier ι ρ := loop { call, limit }

/-- The failure of a child that is in flight. -/
def failureOf (ordinal : ℕ) : Except ChildError ρ → Option ChildError
  | .ok _ => none
  | .error error =>
    if s.pending.any fun task => task.ordinal = ordinal ∧ task.running then some error else none

/-- One turn. What cannot happen changes nothing. -/
def step : ChildEvent ρ → Barrier ι ρ
  | .finish ordinal outcome =>
    { s with
      pending := s.pending.map (ChildTask.finish ordinal outcome)
      failure := s.failure.or (s.failureOf ordinal outcome) }
  | .wake =>
    match s.phase with
    | .waiting =>
      match s.failure with
      | some error => { s with phase := .raised error }
      | none =>
        if s.pending.all fun task => task.running = false then
          loop { s with
            results := s.results ++ s.pending.filterMap ChildTask.value?
            start := s.start + s.limit }
        else s
    | _ => s

/-- Any sequence of turns. -/
def after (events : List (ChildEvent ρ)) : Barrier ι ρ := events.foldl step s

/-- The children in flight. -/
def inFlight : ℕ := s.pending.countP ChildTask.running

end Barrier

/-! ### Facts about tasks -/

section Tasks

variable {ρ : Type} {task : ChildTask ρ} {ordinal : ℕ} {outcome : Except ChildError ρ}

@[simp] theorem ChildTask.finish_ordinal : (task.finish ordinal outcome).ordinal = task.ordinal := by
  unfold finish
  split <;> rfl

@[simp] theorem ChildTask.cancel_ordinal : task.cancel.ordinal = task.ordinal := by
  unfold cancel
  split <;> rfl

@[simp] theorem ChildTask.cancel_outcome : task.cancel.outcome = task.outcome := by
  unfold cancel
  split <;> rfl

theorem ChildTask.finish_cancelRequested :
    (task.finish ordinal outcome).cancelRequested = task.cancelRequested := by
  unfold finish
  split <;> rfl

/-- A child ends at most once. -/
theorem ChildTask.outcome_finish {o : Except ChildError ρ}
    (found : (task.finish ordinal outcome).outcome = some o) :
    task.outcome = some o ∨ (task.ordinal = ordinal ∧ o = outcome) := by
  unfold finish at found
  split at found
  · rename_i here
    exact Or.inr ⟨here.1, (Option.some.inj found).symm⟩
  · exact Or.inl found

theorem ChildTask.running_of_finish (runs : (task.finish ordinal outcome).running = true) :
    task.running = true := by
  unfold finish at runs
  split at runs
  · cases runs
  · exact runs

theorem map_finish_ordinal (pending : List (ChildTask ρ)) :
    (pending.map (ChildTask.finish ordinal outcome)).map ChildTask.ordinal =
      pending.map ChildTask.ordinal := by
  rw [List.map_map]
  exact List.map_congr_left fun _ _ => ChildTask.finish_ordinal

/-- What a pending task may still cost: its end, and its harvest. -/
def ChildTask.cost (task : ChildTask ρ) : ℕ := if task.running then 2 else 1

theorem ChildTask.cost_finish_le : (task.finish ordinal outcome).cost ≤ task.cost := by
  unfold cost
  split
  · rename_i runs
    rw [if_pos (running_of_finish runs)]
  · split <;> omega

/-- The end of a child in flight costs something. -/
theorem cost_map_finish (pending : List (ChildTask ρ)) :
    pending.map (ChildTask.finish ordinal outcome) = pending ∨
      ((pending.map (ChildTask.finish ordinal outcome)).map ChildTask.cost).sum <
        (pending.map ChildTask.cost).sum := by
  induction pending with
  | nil => exact Or.inl rfl
  | cons task rest ih =>
    simp only [List.map_cons, List.sum_cons]
    have less : (task.finish ordinal outcome).cost ≤ task.cost := ChildTask.cost_finish_le
    by_cases ends : task.ordinal = ordinal ∧ task.running = true
    · have cheaper : (task.finish ordinal outcome).cost < task.cost := by
        unfold ChildTask.finish ChildTask.cost
        rw [if_pos ends, if_pos ends.2]
        exact Nat.one_lt_two
      rcases ih with same | fewer
      · rw [same]
        omega
      · omega
    · have same : task.finish ordinal outcome = task := if_neg ends
      rw [same]
      rcases ih with rest | fewer
      · exact Or.inl (by rw [rest])
      · omega

/-- The end of a child in flight is a change. -/
theorem finish_changes {pending : List (ChildTask ρ)} (member : task ∈ pending)
    (runs : task.running = true) (outcome : Except ChildError ρ) :
    pending.map (ChildTask.finish task.ordinal outcome) ≠ pending := by
  intro same
  have mapped : pending.map (ChildTask.finish task.ordinal outcome) = pending.map id :=
    same.trans (List.map_id _).symm
  have kept : task.finish task.ordinal outcome = task := List.map_inj_left.mp mapped task member
  unfold ChildTask.finish at kept
  rw [if_pos ⟨rfl, runs⟩] at kept
  have ended := congrArg ChildTask.running kept
  rw [runs] at ended
  cases ended

/-- The outcomes so far are those of children that succeed. -/
def AllWell (value : ℕ → ρ) (pending : List (ChildTask ρ)) : Prop :=
  ∀ task ∈ pending, ∀ outcome, task.outcome = some outcome → outcome = .ok (value task.ordinal)

end Tasks

/-! ### The invariant of the rolling window -/

namespace Rolling

variable {ι ρ : Type} {s : Rolling ι ρ}

/-- What the variables of `_rolling_children` always satisfy. -/
structure Shaped (s : Rolling ι ρ) : Prop where
  commands : s.commands = s.call.commands.take s.cursor
  cursor : s.cursor ≤ s.call.items.length
  window : s.pending.length ≤ s.limit
  ordered : (s.pending.map ChildTask.ordinal).Pairwise (· < ·)
  started : ∀ task ∈ s.pending, task.ordinal < s.cursor
  stored : s.results.length = s.call.items.length
  /-- A child that is no longer pending has succeeded. -/
  settled : ∀ ordinal < s.cursor, ordinal ∉ s.pending.map ChildTask.ordinal →
    ∃ value, s.results[ordinal]? = some (some value)

/-- What is known at each point of `_rolling_children`. -/
structure Sound (s : Rolling ι ρ) : Prop extends Shaped s where
  waiting : s.phase = .waiting → s.pending ≠ []
  draining : ∀ error, s.phase = .draining error →
    ∀ task ∈ s.pending, task.running = true → task.cancelRequested = true
  returned : ∀ results, s.phase = .returned results →
    s.cursor = s.call.items.length ∧ s.pending = [] ∧ results = s.results
  raised : ∀ error, s.phase = .raised error → ∀ task ∈ s.pending, task.running = false

/-- One more child is started. -/
theorem Shaped.startChild (shaped : Shaped s) {item : ι} (next : s.call.items[s.cursor]? = some item)
    (room : s.pending.length < s.limit) :
    Shaped { s with
      pending := s.pending ++ [{ ordinal := s.cursor }]
      cursor := s.cursor + 1
      commands := s.commands ++ [s.call.command item] } where
  commands := by
    have command : s.call.commands[s.cursor]? = some (s.call.command item) := by
      rw [MapChildren.commands, List.getElem?_map, next]
      rfl
    change s.commands ++ _ = s.call.commands.take (s.cursor + 1)
    rw [List.take_add_one, command, shaped.commands]
    rfl
  cursor := (List.getElem?_eq_some_iff.mp next).1
  window := by
    rw [List.length_append]
    exact room
  ordered := by
    rw [List.map_append, List.pairwise_append]
    refine ⟨shaped.ordered, List.pairwise_singleton _ _, fun a before b last => ?_⟩
    obtain ⟨task, member, rfl⟩ := List.mem_map.mp before
    rw [List.map_singleton, List.mem_singleton] at last
    rw [last]
    exact shaped.started task member
  started task member := by
    rcases List.mem_append.mp member with before | last
    · exact (shaped.started task before).trans (Nat.lt_succ_self _)
    · rw [List.mem_singleton.mp last]
      exact Nat.lt_succ_self _
  stored := shaped.stored
  settled ordinal before absent := by
    rw [List.map_append, List.mem_append, not_or] at absent
    have other : ordinal ≠ s.cursor := fun same => absent.2 (List.mem_singleton.mpr same)
    exact shaped.settled ordinal (lt_of_le_of_ne (Nat.lt_succ_iff.mp before) other) absent.1

/-- What `refill` can do: start children, one after another. -/
theorem refill_induction {P : Rolling ι ρ → Prop} (fuel : ℕ) (s : Rolling ι ρ) (begins : P s)
    (starts : ∀ (s : Rolling ι ρ) (item : ι), P s → s.call.items[s.cursor]? = some item →
      s.pending.length < s.limit → P { s with
        pending := s.pending ++ [{ ordinal := s.cursor }]
        cursor := s.cursor + 1
        commands := s.commands ++ [s.call.command item] }) :
    P (refill fuel s) := by
  induction fuel generalizing s with
  | zero => exact begins
  | succ fuel ih =>
    unfold refill
    split
    · split
      · exact ih _ (starts s _ begins ‹_› ‹_›)
      · exact begins
    · exact begins

/-- Something is pending after `refill`, if there is anything to wait for. -/
theorem refill_pending (positive : 0 < s.limit)
    (more : s.cursor < s.call.items.length ∨ s.pending ≠ []) : (refill s.limit s).pending ≠ [] := by
  obtain ⟨fuel, limit⟩ : ∃ fuel, s.limit = fuel + 1 := Nat.exists_eq_succ_of_ne_zero positive.ne'
  rw [limit]
  unfold refill
  split
  · split
    · exact refill_induction (P := fun s => s.pending ≠ []) _ _ (by simp) (by simp)
    · rename_i full
      intro none
      rw [none] at full
      exact full positive
  · rename_i last
    rcases more with before | pending
    · rw [List.getElem?_eq_getElem before] at last
      cases last
    · exact pending

/-- The parts of a call that never change. -/
def Same (s s' : Rolling ι ρ) : Prop := s'.call = s.call ∧ s'.limit = s.limit

theorem refill_same (fuel : ℕ) : Same s (refill fuel s) :=
  refill_induction (P := Same s) fuel s ⟨rfl, rfl⟩ fun _ _ same _ _ => same

theorem loop_same : Same s s.loop := by
  unfold loop
  split
  · exact refill_same _
  · exact ⟨rfl, rfl⟩

theorem Shaped.loop (shaped : Shaped s) (positive : 0 < s.limit) : Sound s.loop := by
  unfold Rolling.loop
  split
  · rename_i more
    have filled : Shaped (refill s.limit s) :=
      refill_induction (P := Shaped) _ _ shaped fun _ _ shaped next room =>
        shaped.startChild next room
    exact { filled with
      waiting := fun _ => refill_pending positive more
      draining := fun _ here => by cases here
      returned := fun _ here => by cases here
      raised := fun _ here => by cases here }
  · rename_i done
    rw [not_or, not_lt, not_not] at done
    exact { shaped with
      waiting := fun here => by cases here
      draining := fun _ here => by cases here
      returned := fun results here => by
        cases here
        exact ⟨shaped.cursor.antisymm done.1, done.2, rfl⟩
      raised := fun _ here => by cases here }

theorem begin_sound (call : MapChildren ι) {limit : ℕ} (positive : 0 < limit) :
    Sound (begin call limit : Rolling ι ρ) :=
  Shaped.loop
    { commands := List.take_zero.symm
      cursor := Nat.zero_le _
      window := Nat.zero_le _
      ordered := .nil
      started := fun _ member => by cases member
      stored := List.length_map _
      settled := fun _ before => absurd before (Nat.not_lt_zero _) } positive

/-! ### The harvest -/

/-- What a harvest does to the pending tasks and to the results. -/
structure Harvests (pending : List (ChildTask ρ)) (results : List (Option ρ))
    (after : List (Option ρ) × List (ChildTask ρ) × Option ChildError) : Prop where
  sublist : after.2.1.Sublist pending
  stored : after.1.length = results.length
  /-- Only children that have ended are taken off. -/
  running : ∀ task ∈ pending, task.running = true → task ∈ after.2.1
  /-- Without a failure, all children that have ended are taken off. -/
  ended : after.2.2 = none → ∀ task ∈ after.2.1, task.running = true
  /-- The failure is that of the first child that has failed. -/
  failed : ∀ error, after.2.2 = some error → ∃ before task rest, pending = before ++ task :: rest ∧
    task.outcome = some (.error error) ∧ ∀ other ∈ before, ∀ e, other.outcome ≠ some (.error e)

theorem harvest_spec (pending : List (ChildTask ρ)) (results : List (Option ρ)) :
    Harvests pending results (harvest pending results) := by
  induction pending generalizing results with
  | nil => exact ⟨.slnil, rfl, fun _ member _ => member, fun _ _ member => (by cases member), nofun⟩
  | cons task rest ih =>
    unfold harvest
    split
    · rename_i value outcome
      have next := ih (results.set task.ordinal (some value))
      refine ⟨next.sublist.cons _, next.stored.trans (List.length_set ..), fun other member runs => ?_,
        next.ended, fun error failed => ?_⟩
      · rcases List.mem_cons.mp member with rfl | member
        · rw [ChildTask.running, outcome] at runs
          cases runs
        · exact next.running other member runs
      · obtain ⟨before, first, later, rfl, here, earlier⟩ := next.failed error failed
        refine ⟨task :: before, first, later, rfl, here, fun other member e => ?_⟩
        rcases List.mem_cons.mp member with rfl | member
        · rw [outcome]
          exact nofun
        · exact earlier other member e
    · rename_i error outcome
      refine ⟨.refl _, rfl, fun _ member _ => member, nofun, fun e failed => ?_⟩
      cases failed
      exact ⟨[], task, rest, rfl, outcome, nofun⟩
    · rename_i outcome
      have next := ih results
      have runs : task.running = true := by rw [ChildTask.running, outcome]; rfl
      refine ⟨next.sublist.cons_cons _, next.stored, fun other member runs => ?_,
        fun none other member => ?_, fun error failed => ?_⟩
      · rcases List.mem_cons.mp member with rfl | member
        · exact List.mem_cons_self
        · exact List.mem_cons_of_mem _ (next.running other member runs)
      · rcases List.mem_cons.mp member with rfl | member
        · exact runs
        · exact next.ended none other member
      · obtain ⟨before, first, later, rfl, here, earlier⟩ := next.failed error failed
        refine ⟨task :: before, first, later, rfl, here, fun other member e => ?_⟩
        rcases List.mem_cons.mp member with rfl | member
        · rw [outcome]
          exact nofun
        · exact earlier other member e

/-- Where nothing has failed, tasks with other ordinals are left alone. -/
theorem harvest_other {ordinal : ℕ} (pending : List (ChildTask ρ)) (results : List (Option ρ))
    (other : ordinal ∉ pending.map ChildTask.ordinal) :
    (harvest pending results).1[ordinal]? = results[ordinal]? := by
  induction pending generalizing results with
  | nil => rfl
  | cons task rest ih =>
    rw [List.map_cons, List.mem_cons, not_or] at other
    unfold harvest
    split
    · rw [ih _ other.2, List.getElem?_set_ne (Ne.symm other.1)]
    · rfl
    · exact ih _ other.2

theorem harvest_well {value : ℕ → ρ} {pending : List (ChildTask ρ)} (well : AllWell value pending)
    (results : List (Option ρ)) : (harvest pending results).2.2 = none := by
  induction pending generalizing results with
  | nil => rfl
  | cons task rest ih =>
    have later : AllWell value rest := fun other member => well other (List.mem_cons_of_mem _ member)
    unfold harvest
    split
    · exact ih later _
    · rename_i error outcome
      cases well task List.mem_cons_self _ outcome
    · exact ih later _

/-- A harvest stores the values of the tasks that it takes off. -/
theorem harvest_stores {pending : List (ChildTask ρ)} {ordinal : ℕ}
    (distinct : (pending.map ChildTask.ordinal).Nodup) (results : List (Option ρ))
    (within : ordinal < results.length) (before : ordinal ∈ pending.map ChildTask.ordinal)
    (gone : ordinal ∉ (harvest pending results).2.1.map ChildTask.ordinal) :
    ∃ task ∈ pending, ∃ value, task.ordinal = ordinal ∧ task.outcome = some (.ok value) ∧
      (harvest pending results).1[ordinal]? = some (some value) := by
  induction pending generalizing results with
  | nil => cases before
  | cons task rest ih =>
    rw [List.map_cons, List.nodup_cons] at distinct
    unfold harvest at gone ⊢
    split at gone
    · rename_i value outcome
      rcases List.mem_cons.mp before with rfl | before
      · refine ⟨task, List.mem_cons_self, value, rfl, outcome, ?_⟩
        rw [harvest_other rest _ distinct.1, List.getElem?_set_self within]
      · obtain ⟨other, member, found⟩ :=
          ih distinct.2 _ (by rwa [List.length_set]) before gone
        exact ⟨other, List.mem_cons_of_mem _ member, found⟩
    · exact absurd before gone
    · rename_i outcome
      dsimp only at gone ⊢
      rw [List.map_cons, List.mem_cons, not_or] at gone
      rcases List.mem_cons.mp before with same | before
      · exact absurd same gone.1
      · obtain ⟨other, member, found⟩ := ih distinct.2 _ within before gone.2
        exact ⟨other, List.mem_cons_of_mem _ member, found⟩

theorem harvest_cost (pending : List (ChildTask ρ)) (results : List (Option ρ)) :
    ((harvest pending results).2.1.map ChildTask.cost).sum ≤ (pending.map ChildTask.cost).sum ∧
      ((harvest pending results).2.2 = none → (∃ task ∈ pending, task.running = false) →
        ((harvest pending results).2.1.map ChildTask.cost).sum <
          (pending.map ChildTask.cost).sum) := by
  induction pending generalizing results with
  | nil => exact ⟨le_rfl, fun _ ⟨_, member, _⟩ => by cases member⟩
  | cons task rest ih =>
    have positive : 0 < task.cost := by
      unfold ChildTask.cost
      split <;> omega
    unfold harvest
    split
    · have next := ih (results.set task.ordinal (some ‹ρ›))
      simp only [List.map_cons, List.sum_cons]
      exact ⟨by omega, fun _ _ => by omega⟩
    · exact ⟨le_rfl, nofun⟩
    · rename_i outcome
      have next := ih results
      simp only [List.map_cons, List.sum_cons]
      refine ⟨by omega, fun none ⟨other, member, ended⟩ => ?_⟩
      rcases List.mem_cons.mp member with rfl | member
      · rw [ChildTask.running, outcome] at ended
        cases ended
      · have fewer := next.2 none ⟨other, member, ended⟩
        omega

/-! ### Turns of the rolling window -/

theorem step_same (event : ChildEvent ρ) : Same s (s.step event) := by
  cases event with
  | finish ordinal outcome => exact ⟨rfl, rfl⟩
  | wake =>
    simp only [Rolling.step]
    split
    · split
      · split
        · exact loop_same
        · exact ⟨rfl, rfl⟩
      · exact ⟨rfl, rfl⟩
    · split <;> exact ⟨rfl, rfl⟩
    · exact ⟨rfl, rfl⟩

theorem Shaped.harvested (shaped : Shaped s) {results : List (Option ρ)}
    {pending : List (ChildTask ρ)} (fewer : (pending.map ChildTask.ordinal).Sublist
      (s.pending.map ChildTask.ordinal)) (same : results.length = s.results.length)
    (settled : ∀ ordinal < s.cursor, ordinal ∉ pending.map ChildTask.ordinal →
      ∃ value, results[ordinal]? = some (some value)) :
    Shaped { s with results, pending } where
  commands := shaped.commands
  cursor := shaped.cursor
  window := by
    have shorter := fewer.length_le
    rw [List.length_map, List.length_map] at shorter
    exact shorter.trans shaped.window
  ordered := shaped.ordered.sublist fewer
  started task member := by
    obtain ⟨old, before, same⟩ := List.mem_map.mp (fewer.subset (List.mem_map_of_mem member))
    rw [← same]
    exact shaped.started old before
  stored := same.trans shaped.stored
  settled := settled

/-- A harvest settles the tasks that it takes off, and unsettles none. -/
theorem Shaped.harvest_settled (shaped : Shaped s) (ordinal : ℕ) (before : ordinal < s.cursor)
    (gone : ordinal ∉ (harvest s.pending s.results).2.1.map ChildTask.ordinal) :
    ∃ value, (harvest s.pending s.results).1[ordinal]? = some (some value) := by
  have within : ordinal < s.results.length :=
    before.trans_le (shaped.cursor.trans shaped.stored.ge)
  by_cases here : ordinal ∈ s.pending.map ChildTask.ordinal
  · obtain ⟨task, -, value, -, -, stored⟩ :=
      harvest_stores (shaped.ordered.imp fun less => less.ne) s.results within here gone
    exact ⟨value, stored⟩
  · rw [harvest_other s.pending s.results here]
    exact shaped.settled ordinal before here

theorem Sound.step (sound : Sound s) (positive : 0 < s.limit) (event : ChildEvent ρ) :
    Sound (s.step event) := by
  cases event with
  | finish ordinal outcome =>
    have shaped : Shaped (s.step (.finish ordinal outcome)) :=
      sound.toShaped.harvested ((map_finish_ordinal s.pending).symm ▸ .refl _) rfl
        fun i before gone => sound.settled i before (map_finish_ordinal s.pending ▸ gone)
    refine { shaped with
      waiting := fun here empty => sound.waiting here (List.map_eq_nil_iff.mp empty)
      draining := fun error here task member runs => ?_
      returned := fun results here => ?_
      raised := fun error here task member => ?_ }
    · obtain ⟨old, before, rfl⟩ := List.mem_map.mp member
      rw [ChildTask.finish_cancelRequested]
      exact sound.draining error here old before (ChildTask.running_of_finish runs)
    · obtain ⟨last, none, stored⟩ := sound.returned results here
      refine ⟨last, ?_, stored⟩
      change s.pending.map _ = []
      rw [none]
      rfl
    · obtain ⟨old, before, rfl⟩ := List.mem_map.mp member
      by_contra runs
      rw [Bool.not_eq_false] at runs
      have ended := sound.raised error here old before
      rw [ChildTask.running_of_finish runs] at ended
      cases ended
  | wake =>
    simp only [Rolling.step]
    split
    · rename_i waiting
      split
      · have harvests := harvest_spec s.pending s.results
        have settled := sound.toShaped.harvest_settled
        split
        · rename_i results pending harvested
          rw [harvested] at harvests settled
          exact (sound.toShaped.harvested (harvests.sublist.map _) harvests.stored
            settled).loop positive
        · rename_i results pending error harvested
          rw [harvested] at harvests settled
          have ordinals : (pending.map ChildTask.cancel).map ChildTask.ordinal =
              pending.map ChildTask.ordinal := by
            rw [List.map_map]
            exact List.map_congr_left fun _ _ => ChildTask.cancel_ordinal
          have shaped : Shaped { s with results, pending := pending.map ChildTask.cancel } :=
            sound.toShaped.harvested (ordinals ▸ harvests.sublist.map _) harvests.stored
              fun ordinal before gone => settled ordinal before (ordinals ▸ gone)
          refine { shaped with
            waiting := nofun
            draining := fun _ _ task member runs => ?_
            returned := nofun
            raised := nofun }
          obtain ⟨old, -, rfl⟩ := List.mem_map.mp member
          have runs : old.running = true := by
            rw [ChildTask.running, ChildTask.cancel_outcome] at runs
            exact runs
          rw [ChildTask.cancel, if_pos runs]
      · exact sound
    · split
      · rename_i ended
        exact { sound.toShaped with
          waiting := nofun
          draining := nofun
          returned := nofun
          raised := fun _ _ task member => by
            rw [List.all_eq_true] at ended
            exact of_decide_eq_true (ended task member) }
      · exact sound
    · exact sound

theorem Sound.after (sound : Sound s) (positive : 0 < s.limit) (events : List (ChildEvent ρ)) :
    Sound (s.after events) ∧ Same s (s.after events) := by
  induction events generalizing s with
  | nil => exact ⟨sound, rfl, rfl⟩
  | cons event rest ih =>
    have same : Same s (s.step event) := step_same event
    have next := ih (sound.step positive event) (same.2.symm ▸ positive)
    exact ⟨next.1, next.2.1.trans same.1, next.2.2.trans same.2⟩

/-! ### Progress of the rolling window -/

/-- What the rest of a phase may still cost. -/
def phaseCost : RollingPhase ρ → ℕ
  | .waiting => 2
  | .draining _ => 1
  | _ => 0

/-- What the rest of the call may still cost. -/
def cost (s : Rolling ι ρ) : ℕ :=
  2 * (s.call.items.length - s.cursor) + (s.pending.map ChildTask.cost).sum + phaseCost s.phase

theorem loop_cost (waiting : s.phase = .waiting) : s.loop.cost ≤ s.cost := by
  -- to start a child costs nothing
  have refilled (fuel : ℕ) : (refill fuel s).call.items = s.call.items ∧
      2 * (s.call.items.length - (refill fuel s).cursor) +
          ((refill fuel s).pending.map ChildTask.cost).sum =
        2 * (s.call.items.length - s.cursor) + (s.pending.map ChildTask.cost).sum := by
    refine refill_induction (P := fun s' => s'.call.items = s.call.items ∧
      2 * (s.call.items.length - s'.cursor) + (s'.pending.map ChildTask.cost).sum = _) fuel s
      ⟨rfl, rfl⟩ fun s' item ⟨items, same⟩ next room => ⟨items, ?_⟩
    have within : s'.cursor < s.call.items.length := items ▸ (List.getElem?_eq_some_iff.mp next).1
    rw [← same, List.map_append, List.sum_append]
    have fresh : ([({ ordinal := s'.cursor } : ChildTask ρ)].map ChildTask.cost).sum = 2 := rfl
    rw [fresh]
    dsimp only
    omega
  unfold Rolling.loop
  split
  · obtain ⟨items, same⟩ := refilled s.limit
    unfold cost
    dsimp only
    rw [items, same, waiting]
  · unfold cost
    dsimp only
    rw [waiting]
    exact Nat.add_le_add_left (Nat.zero_le _) _

/-- A call that is woken up makes progress. -/
theorem wake_cost (waiting : s.phase = .waiting) (ended : ∃ task ∈ s.pending, task.running = false) :
    (s.step .wake).cost < s.cost := by
  obtain ⟨fewer, less⟩ := harvest_cost s.pending s.results
  have some : (s.pending.any fun task => task.running = false) = true := by
    obtain ⟨task, member, done⟩ := ended
    exact List.any_eq_true.mpr ⟨task, member, decide_eq_true done⟩
  simp only [Rolling.step, waiting]
  rw [if_pos some]
  split
  · rename_i results pending harvested
    rw [harvested] at less
    refine lt_of_le_of_lt (loop_cost rfl) ?_
    have less := less rfl ended
    unfold cost
    dsimp only at less ⊢
    rw [waiting]
    omega
  · rename_i results pending error harvested
    rw [harvested] at fewer
    have same : (pending.map ChildTask.cancel).map ChildTask.cost = pending.map ChildTask.cost := by
      rw [List.map_map]
      refine List.map_congr_left fun task _ => ?_
      change ChildTask.cost _ = _
      unfold ChildTask.cost ChildTask.running
      rw [ChildTask.cancel_outcome]
    unfold cost
    dsimp only at fewer ⊢
    rw [same, waiting]
    have phases : phaseCost (.draining error : RollingPhase ρ) <
        phaseCost (.waiting : RollingPhase ρ) := Nat.one_lt_two
    omega

/-- Every turn changes nothing, or makes progress. -/
theorem step_cost (event : ChildEvent ρ) : s.step event = s ∨ (s.step event).cost < s.cost := by
  cases event with
  | finish ordinal outcome =>
    rcases @cost_map_finish ρ ordinal outcome s.pending with same | less
    · refine Or.inl ?_
      simp only [Rolling.step]
      rw [same]
    · refine Or.inr ?_
      simp only [Rolling.step]
      unfold cost
      dsimp only
      omega
  | wake =>
    cases phase : s.phase with
    | waiting =>
      by_cases ended : ∃ task ∈ s.pending, task.running = false
      · exact Or.inr (wake_cost phase ended)
      · refine Or.inl ?_
        have none : ¬ (s.pending.any fun task => task.running = false) = true := by
          intro some
          obtain ⟨task, member, done⟩ := List.any_eq_true.mp some
          exact ended ⟨task, member, of_decide_eq_true done⟩
        simp only [Rolling.step, phase]
        rw [if_neg none]
    | draining error =>
      simp only [Rolling.step, phase]
      split
      · refine Or.inr ?_
        unfold cost
        rw [phase]
        exact Nat.add_lt_add_left Nat.one_pos _
      · exact Or.inl rfl
    | returned results => exact Or.inl (by simp only [Rolling.step, phase])
    | raised error => exact Or.inl (by simp only [Rolling.step, phase])

/-- A call that has not ended can go on: a child in flight ends, or the call is woken up. -/
theorem Sound.goes_on (sound : Sound s) (outcome : ℕ → Except ChildError ρ)
    (open' : s.phase = .waiting ∨ ∃ error, s.phase = .draining error) :
    (∃ ordinal, s.step (.finish ordinal (outcome ordinal)) ≠ s) ∨ s.step .wake ≠ s := by
  by_cases runs : ∃ task ∈ s.pending, task.running = true
  · obtain ⟨task, member, runs⟩ := runs
    exact Or.inl ⟨task.ordinal, fun same =>
      finish_changes member runs _ (congrArg Rolling.pending same)⟩
  · have ended : ∀ task ∈ s.pending, task.running = false := fun task member =>
      Bool.eq_false_iff.mpr fun running => runs ⟨task, member, running⟩
    refine Or.inr fun same => ?_
    rcases open' with waiting | ⟨error, draining⟩
    · obtain ⟨task, member⟩ := List.exists_mem_of_ne_nil _ (sound.waiting waiting)
      have less := wake_cost waiting ⟨task, member, ended task member⟩
      rw [same] at less
      exact less.false
    · have all : (s.pending.all fun task => task.running = false) = true :=
        List.all_eq_true.mpr fun task member => decide_eq_true (ended task member)
      have raised : (s.step .wake).phase = .raised error := by
        simp only [Rolling.step, draining]
        rw [if_pos all]
      rw [same, draining] at raised
      cases raised

/-! ### Children that succeed -/

/-- What is known while all children succeed. -/
structure Succeeding (value : ℕ → ρ) (s : Rolling ι ρ) : Prop where
  well : AllWell value s.pending
  results : ∀ ordinal < s.cursor, ordinal ∉ s.pending.map ChildTask.ordinal →
    s.results[ordinal]? = some (some (value ordinal))
  calm : s.phase = .waiting ∨ ∃ results, s.phase = .returned results

variable {value : ℕ → ρ}

theorem Succeeding.loop (well : AllWell value s.pending)
    (results : ∀ ordinal < s.cursor, ordinal ∉ s.pending.map ChildTask.ordinal →
      s.results[ordinal]? = some (some (value ordinal))) : Succeeding value s.loop := by
  unfold Rolling.loop
  split
  · have filled : AllWell value (refill s.limit s).pending ∧
        ∀ ordinal < (refill s.limit s).cursor,
          ordinal ∉ (refill s.limit s).pending.map ChildTask.ordinal →
          (refill s.limit s).results[ordinal]? = some (some (value ordinal)) := by
      refine refill_induction (P := fun s => AllWell value s.pending ∧ ∀ ordinal < s.cursor,
        ordinal ∉ s.pending.map ChildTask.ordinal →
          s.results[ordinal]? = some (some (value ordinal))) _ _ ⟨well, results⟩
        fun s item ⟨well, results⟩ _ _ => ⟨fun task member outcome found => ?_,
          fun ordinal before absent => ?_⟩
      · rcases List.mem_append.mp member with member | last
        · exact well task member outcome found
        · rw [List.mem_singleton.mp last] at found
          cases found
      · rw [List.map_append, List.mem_append, not_or] at absent
        have other : ordinal ≠ s.cursor := fun same => absent.2 (List.mem_singleton.mpr same)
        exact results ordinal (lt_of_le_of_ne (Nat.lt_succ_iff.mp before) other) absent.1
    exact ⟨filled.1, filled.2, Or.inl rfl⟩
  · exact ⟨well, results, Or.inr ⟨_, rfl⟩⟩

theorem begin_succeeding (call : MapChildren ι) (limit : ℕ) :
    Succeeding value (begin call limit) :=
  .loop (fun _ member => by cases member) fun _ before => absurd before (Nat.not_lt_zero _)

theorem Succeeding.step (succeeding : Succeeding value s) (sound : Sound s)
    {event : ChildEvent ρ} (succeeds : event.Succeeds value) :
    Succeeding value (s.step event) := by
  cases event with
  | finish ordinal outcome =>
    refine ⟨fun task member o found => ?_, fun i before absent => ?_, succeeding.calm⟩
    · obtain ⟨old, here, rfl⟩ := List.mem_map.mp member
      rw [ChildTask.finish_ordinal]
      rcases ChildTask.outcome_finish found with earlier | ⟨rfl, rfl⟩
      · exact succeeding.well old here o earlier
      · exact succeeds
    · refine succeeding.results i before fun here => absent ?_
      change i ∈ (s.pending.map _).map _
      rw [map_finish_ordinal]
      exact here
  | wake =>
    rcases succeeding.calm with waiting | ⟨results, returned⟩
    · simp only [Rolling.step, waiting]
      split
      · have harvests := harvest_spec s.pending s.results
        have none := harvest_well succeeding.well s.results
        have stores := fun ordinal => @harvest_stores ρ s.pending ordinal
          (sound.ordered.imp fun less => less.ne) s.results
        have others := fun ordinal => @harvest_other ρ ordinal s.pending s.results
        split
        · rename_i results pending harvested
          rw [harvested] at harvests stores others
          refine .loop (fun task member => succeeding.well task (harvests.sublist.subset member))
            fun ordinal before absent => ?_
          have within : ordinal < s.results.length :=
            before.trans_le (sound.cursor.trans sound.stored.ge)
          by_cases here : ordinal ∈ s.pending.map ChildTask.ordinal
          · obtain ⟨task, member, found, rfl, outcome, stored⟩ := stores ordinal within here absent
            cases succeeding.well task member _ outcome
            exact stored
          · exact (others ordinal here).trans (succeeding.results ordinal before here)
        · rename_i harvested
          rw [harvested] at none
          cases none
      · exact succeeding
    · simp only [Rolling.step, returned]
      exact succeeding

theorem Succeeding.after (succeeding : Succeeding value s) (sound : Sound s)
    (positive : 0 < s.limit) {events : List (ChildEvent ρ)}
    (succeeds : ∀ event ∈ events, event.Succeeds value) : Succeeding value (s.after events) := by
  induction events generalizing s with
  | nil => exact succeeding
  | cons event rest ih =>
    have same : Same s (s.step event) := step_same event
    exact ih (succeeding.step sound (succeeds event List.mem_cons_self)) (sound.step positive event)
      (same.2.symm ▸ positive) fun event member => succeeds event (List.mem_cons_of_mem _ member)

/-- The values of the items, in order. -/
theorem Succeeding.results_eq (succeeding : Succeeding value s) (sound : Sound s)
    (last : s.cursor = s.call.items.length) (none : s.pending = []) :
    s.results = (List.range s.call.items.length).map fun ordinal => some (value ordinal) := by
  refine List.ext_getElem? fun ordinal => ?_
  rw [List.getElem?_map]
  rcases lt_or_ge ordinal s.call.items.length with within | beyond
  · rw [List.getElem?_range within]
    refine succeeding.results ordinal (last ▸ within) ?_
    rw [none]
    exact List.not_mem_nil
  · rw [List.getElem?_eq_none (sound.stored.trans_le beyond),
      List.getElem?_eq_none (List.length_range.trans_le beyond)]
    rfl

end Rolling

/-! ### The invariant of the barrier -/

namespace Barrier

variable {ι ρ : Type} {s : Barrier ι ρ}

/-- What is known at each point of the loop with barriers. -/
structure Sound (s : Barrier ι ρ) : Prop where
  commands : s.commands = s.call.commands.take (s.start + s.pending.length)
  ordinals : s.pending.map ChildTask.ordinal = List.range' s.start s.pending.length
  window : s.pending.length ≤ s.limit
  /-- The batch is full, or the last one. -/
  waiting : s.phase = .waiting → s.pending ≠ [] ∧
    s.start + s.pending.length = min (s.start + s.limit) s.call.items.length
  returned : ∀ results, s.phase = .returned results →
    s.pending = [] ∧ s.call.items.length ≤ s.start ∧ results = s.results

/-- The parts of a call that never change. -/
def Same (s s' : Barrier ι ρ) : Prop := s'.call = s.call ∧ s'.limit = s.limit

theorem loop_same : Same s s.loop := by
  unfold Barrier.loop
  split <;> exact ⟨rfl, rfl⟩

theorem loop_sound (positive : 0 < s.limit)
    (commands : s.commands = s.call.commands.take s.start) : Sound s.loop := by
  unfold Barrier.loop
  split
  · rename_i more
    have length : ((s.call.items.drop s.start).take s.limit).length =
        min s.limit (s.call.items.length - s.start) := by
      rw [List.length_take, List.length_drop]
    refine ⟨?_, ?_, ?_, fun _ => ⟨?_, ?_⟩, nofun⟩
    · -- the batch continues the commands where they have ended
      dsimp only
      rw [List.length_map, List.length_range', commands, List.take_add, MapChildren.commands,
        ← List.map_drop, ← List.map_take, ← List.map_take, length]
      congr 2
      rw [← List.length_drop, ← List.take_eq_take_min]
    · dsimp only
      rw [List.map_map, List.length_map, List.length_range']
      exact List.map_id _
    · dsimp only
      rw [List.length_map, List.length_range', length]
      exact min_le_left _ _
    · dsimp only
      intro none
      rw [List.map_eq_nil_iff, List.range'_eq_nil_iff, length] at none
      omega
    · dsimp only
      rw [List.length_map, List.length_range', length]
      omega
  · rename_i done
    refine ⟨commands, rfl, Nat.zero_le _, nofun, fun results here => ?_⟩
    cases here
    exact ⟨rfl, not_lt.mp done, rfl⟩

theorem begin_sound (call : MapChildren ι) {limit : ℕ} (positive : 0 < limit) :
    Sound (begin call limit : Barrier ι ρ) := loop_sound positive List.take_zero.symm

theorem step_same (event : ChildEvent ρ) : Same s (s.step event) := by
  cases event with
  | finish ordinal outcome => exact ⟨rfl, rfl⟩
  | wake =>
    simp only [Barrier.step]
    split
    · split
      · exact ⟨rfl, rfl⟩
      · split
        · exact loop_same
        · exact ⟨rfl, rfl⟩
    · exact ⟨rfl, rfl⟩

/-- At a barrier, the commands so far are those before the next batch. -/
theorem Sound.barrier (sound : Sound s) (waiting : s.phase = .waiting) :
    s.commands = s.call.commands.take (s.start + s.limit) := by
  have length : s.call.commands.length = s.call.items.length := List.length_map _
  rw [sound.commands, (sound.waiting waiting).2, ← length, ← List.take_eq_take_min]

theorem Sound.step (sound : Sound s) (positive : 0 < s.limit) (event : ChildEvent ρ) :
    Sound (s.step event) := by
  cases event with
  | finish ordinal outcome =>
    have length : (s.pending.map (ChildTask.finish ordinal outcome)).length = s.pending.length :=
      List.length_map _
    refine ⟨?_, ?_, ?_, fun here => ⟨fun none => ?_, ?_⟩, fun results here => ?_⟩
    · exact sound.commands.trans (by rw [← length]; rfl)
    · exact (map_finish_ordinal s.pending).trans (sound.ordinals.trans (by rw [← length]; rfl))
    · exact length.le.trans sound.window
    · exact (sound.waiting here).1 (List.map_eq_nil_iff.mp none)
    · exact (congrArg _ length).trans (sound.waiting here).2
    · obtain ⟨none, last, stored⟩ := sound.returned results here
      exact ⟨List.map_eq_nil_iff.mpr none, last, stored⟩
  | wake =>
    simp only [Barrier.step]
    split
    · rename_i waiting
      split
      · exact ⟨sound.commands, sound.ordinals, sound.window, nofun, nofun⟩
      · split
        · exact loop_sound positive (sound.barrier waiting)
        · exact sound
    · exact sound

theorem Sound.after (sound : Sound s) (positive : 0 < s.limit) (events : List (ChildEvent ρ)) :
    Sound (s.after events) ∧ Same s (s.after events) := by
  induction events generalizing s with
  | nil => exact ⟨sound, rfl, rfl⟩
  | cons event rest ih =>
    have same : Same s (s.step event) := step_same event
    have next := ih (sound.step positive event) (same.2.symm ▸ positive)
    exact ⟨next.1, next.2.1.trans same.1, next.2.2.trans same.2⟩

/-! ### Progress of the barrier -/

/-- What the rest of a phase may still cost. -/
def phaseCost : BarrierPhase ρ → ℕ
  | .waiting => 1
  | _ => 0

/-- What the rest of the call may still cost. -/
def cost (s : Barrier ι ρ) : ℕ :=
  2 * (s.call.items.length - (s.start + s.pending.length)) +
    (s.pending.map ChildTask.cost).sum + phaseCost s.phase

theorem loop_cost : s.loop.cost ≤ 2 * (s.call.items.length - s.start) + 1 := by
  unfold Barrier.loop
  split
  · have fresh (ordinals : List ℕ) : ((ordinals.map fun ordinal =>
        ({ ordinal } : ChildTask ρ)).map ChildTask.cost).sum = 2 * ordinals.length := by
      induction ordinals with
      | nil => rfl
      | cons ordinal rest ih =>
        rw [List.map_cons, List.map_cons, List.sum_cons, ih, List.length_cons, Nat.mul_succ]
        exact Nat.add_comm _ _
    unfold cost phaseCost
    dsimp only
    rw [fresh, List.length_map, List.length_range', List.length_take, List.length_drop]
    omega
  · unfold cost phaseCost
    dsimp only
    simp only [List.length_nil, List.map_nil, List.sum_nil]
    omega

/-- A call that is woken up makes progress. -/
theorem Sound.wake_cost (sound : Sound s) (waiting : s.phase = .waiting)
    (ready : s.failure ≠ none ∨ ∀ task ∈ s.pending, task.running = false) :
    (s.step .wake).cost < s.cost := by
  simp only [Barrier.step, waiting]
  split
  · unfold cost
    rw [waiting]
    exact Nat.add_lt_add_left Nat.one_pos _
  · rename_i calm
    have ended := ready.resolve_left (not_not_intro calm)
    rw [if_pos (List.all_eq_true.mpr fun task member => decide_eq_true (ended task member))]
    refine lt_of_le_of_lt loop_cost ?_
    obtain ⟨some, batch⟩ := sound.waiting waiting
    have length : 0 < s.pending.length := List.length_pos_iff.mpr some
    have harvested : (s.pending.map ChildTask.cost).sum = s.pending.length := by
      have ones : s.pending.map ChildTask.cost = s.pending.map fun _ => 1 :=
        List.map_congr_left fun task member => by
          unfold ChildTask.cost
          rw [if_neg (by rw [ended task member]; exact Bool.false_ne_true)]
      rw [ones, List.map_const', List.sum_replicate_nat, Nat.mul_one]
    unfold cost phaseCost
    rw [harvested, waiting]
    dsimp only
    omega

/-- Every turn changes nothing, or makes progress. -/
theorem Sound.step_cost (sound : Sound s) (event : ChildEvent ρ) :
    s.step event = s ∨ (s.step event).cost < s.cost := by
  cases event with
  | finish ordinal outcome =>
    rcases @cost_map_finish ρ ordinal outcome s.pending with same | less
    · refine Or.inl ?_
      -- no child in flight has the ordinal, so nothing has failed
      have calm : s.failureOf ordinal outcome = none := by
        unfold failureOf
        split
        · rfl
        · refine if_neg fun some => ?_
          obtain ⟨task, member, fits⟩ := List.any_eq_true.mp some
          obtain ⟨rfl, runs⟩ := of_decide_eq_true fits
          exact finish_changes member runs _ same
      simp only [Barrier.step]
      rw [same, calm, Option.or_none]
    · refine Or.inr ?_
      simp only [Barrier.step]
      unfold cost
      dsimp only
      rw [List.length_map]
      omega
  | wake =>
    cases phase : s.phase with
    | waiting =>
      by_cases ready : s.failure ≠ none ∨ ∀ task ∈ s.pending, task.running = false
      · exact Or.inr (sound.wake_cost phase ready)
      · rw [not_or, not_not] at ready
        refine Or.inl ?_
        simp only [Barrier.step, phase, ready.1]
        refine if_neg fun all => ready.2 fun task member => ?_
        exact of_decide_eq_true (List.all_eq_true.mp all task member)
    | returned results => exact Or.inl (by simp only [Barrier.step, phase])
    | raised error => exact Or.inl (by simp only [Barrier.step, phase])

/-- A call that has not ended can go on. -/
theorem Sound.goes_on (sound : Sound s) (value : ℕ → ρ) (waiting : s.phase = .waiting) :
    ∃ event : ChildEvent ρ, event.Succeeds value ∧ s.step event ≠ s := by
  by_cases runs : ∃ task ∈ s.pending, task.running = true
  · obtain ⟨task, member, runs⟩ := runs
    exact ⟨.finish task.ordinal (.ok (value task.ordinal)), rfl, fun same =>
      finish_changes member runs _ (congrArg Barrier.pending same)⟩
  · have ended : ∀ task ∈ s.pending, task.running = false := fun task member =>
      Bool.eq_false_iff.mpr fun running => runs ⟨task, member, running⟩
    refine ⟨.wake, trivial, fun same => ?_⟩
    have less := sound.wake_cost waiting (Or.inr ended)
    rw [same] at less
    exact less.false

/-! ### Children that succeed -/

/-- What is known while all children succeed. -/
structure Succeeding (value : ℕ → ρ) (s : Barrier ι ρ) : Prop where
  well : AllWell value s.pending
  calm : s.failure = none
  results : s.results = (List.range (min s.start s.call.items.length)).map value
  goes : s.phase = .waiting ∨ ∃ results, s.phase = .returned results

variable {value : ℕ → ρ}

theorem Succeeding.loop (calm : s.failure = none)
    (results : s.results = (List.range (min s.start s.call.items.length)).map value) :
    Succeeding value s.loop := by
  unfold Barrier.loop
  split
  · refine ⟨fun task member outcome found => ?_, calm, results, Or.inl rfl⟩
    obtain ⟨ordinal, -, rfl⟩ := List.mem_map.mp member
    cases found
  · exact ⟨fun _ member => (by cases member), calm, results, Or.inr ⟨_, rfl⟩⟩

theorem begin_succeeding (call : MapChildren ι) (limit : ℕ) :
    Succeeding value (begin call limit) :=
  .loop rfl (by rw [Nat.zero_min]; rfl)

/-- The values of a batch that has ended. -/
theorem filterMap_value {pending : List (ChildTask ρ)} (well : AllWell value pending)
    (ended : ∀ task ∈ pending, task.running = false) :
    pending.filterMap ChildTask.value? = (pending.map ChildTask.ordinal).map value := by
  induction pending with
  | nil => rfl
  | cons task rest ih =>
    have later := ih (fun other member => well other (List.mem_cons_of_mem _ member))
      fun other member => ended other (List.mem_cons_of_mem _ member)
    have done := ended task List.mem_cons_self
    cases found : task.outcome with
    | none =>
      rw [ChildTask.running, found] at done
      cases done
    | some outcome =>
      cases well task List.mem_cons_self outcome found
      have here : task.value? = some (value task.ordinal) := by rw [ChildTask.value?, found]
      rw [List.filterMap_cons_some here, later, List.map_cons, List.map_cons]

theorem Succeeding.step (succeeding : Succeeding value s) (sound : Sound s)
    {event : ChildEvent ρ} (succeeds : event.Succeeds value) :
    Succeeding value (s.step event) := by
  cases event with
  | finish ordinal outcome =>
    refine ⟨fun task member o found => ?_, ?_, succeeding.results, succeeding.goes⟩
    · obtain ⟨old, here, rfl⟩ := List.mem_map.mp member
      rw [ChildTask.finish_ordinal]
      rcases ChildTask.outcome_finish found with earlier | ⟨rfl, rfl⟩
      · exact succeeding.well old here o earlier
      · exact succeeds
    · have good : outcome = .ok (value ordinal) := succeeds
      change s.failure.or (s.failureOf ordinal outcome) = none
      rw [succeeding.calm, good]
      rfl
  | wake =>
    rcases succeeding.goes with waiting | ⟨results, returned⟩
    · simp only [Barrier.step, waiting, succeeding.calm]
      split
      · rename_i all
        have ended : ∀ task ∈ s.pending, task.running = false := fun task member =>
          of_decide_eq_true (List.all_eq_true.mp all task member)
        obtain ⟨some, batch⟩ := sound.waiting waiting
        have length : 0 < s.pending.length := List.length_pos_iff.mpr some
        refine .loop rfl ?_
        dsimp only
        have before : min s.start s.call.items.length = s.start := by omega
        rw [succeeding.results, filterMap_value succeeding.well ended, sound.ordinals, before,
          ← List.map_append, List.range_eq_range', List.range_eq_range', ← batch,
          ← List.range'_append_1, Nat.zero_add]
      · exact succeeding
    · simp only [Barrier.step, returned]
      exact succeeding

theorem Succeeding.after (succeeding : Succeeding value s) (sound : Sound s)
    (positive : 0 < s.limit) {events : List (ChildEvent ρ)}
    (succeeds : ∀ event ∈ events, event.Succeeds value) : Succeeding value (s.after events) := by
  induction events generalizing s with
  | nil => exact succeeding
  | cons event rest ih =>
    have same : Same s (s.step event) := step_same event
    exact ih (succeeding.step sound (succeeds event List.mem_cons_self)) (sound.step positive event)
      (same.2.symm ▸ positive) fun event member => succeeds event (List.mem_cons_of_mem _ member)

end Barrier

/-! ### Failures -/

namespace Rolling

variable {ι ρ : Type} {m s : Rolling ι ρ} {error : ChildError}

/-- In one state the call has observed a failure, and it has come to another one since. -/
structure Failure (m s : Rolling ι ρ) (error : ChildError) : Prop where
  waiting : m.phase = .waiting
  /-- The failure is that of the first item whose child has failed. -/
  first : ∃ task ∈ m.pending, task.outcome = some (.error error) ∧
    ∀ other ∈ m.pending, ∀ e, other.outcome = some (.error e) → task.ordinal ≤ other.ordinal
  /-- The children that are not looked at have succeeded before. -/
  settled : ∀ ordinal < m.cursor, ordinal ∉ m.pending.map ChildTask.ordinal →
    ∃ value, m.results[ordinal]? = some (some value)
  commands : s.commands = m.commands
  cancelled : ∀ task ∈ m.pending, task.running = true →
    ∃ now ∈ s.pending, now.ordinal = task.ordinal ∧ now.cancelRequested = true
  isOver : s.phase = .draining error ∨ s.phase = .raised error

/-- The turn in which a failure is observed. -/
theorem Sound.failure (sound : Sound s) (waiting : s.phase = .waiting)
    (draining : (s.step .wake).phase = .draining error) : Failure s (s.step .wake) error := by
  simp only [Rolling.step, waiting] at draining ⊢
  split at draining
  · rename_i some
    rw [if_pos some]
    have harvests := harvest_spec s.pending s.results
    split at draining
    · unfold Rolling.loop at draining
      split at draining <;> cases draining
    · rename_i results pending e harvested
      cases draining
      rw [harvested] at harvests
      refine ⟨waiting, ?_, sound.settled, rfl, fun task member runs => ?_, Or.inl rfl⟩
      · obtain ⟨before, task, rest, parts, outcome, earlier⟩ := harvests.failed error rfl
        refine ⟨task, by simp [parts], outcome, fun other member e failed => ?_⟩
        -- tasks are in the order of their items
        have ordered := sound.ordered
        rw [parts, List.map_append, List.map_cons, List.pairwise_append] at ordered
        rw [parts] at member
        rcases List.mem_append.mp member with here | here
        · exact absurd failed (earlier other here e)
        · rcases List.mem_cons.mp here with rfl | later
          · exact le_rfl
          · exact ((List.pairwise_cons.mp ordered.2.1).1 _ (List.mem_map_of_mem later)).le
      · refine ⟨task.cancel, List.mem_map_of_mem (harvests.running task member runs),
          ChildTask.cancel_ordinal, ?_⟩
        rw [ChildTask.cancel, if_pos runs]
  · rw [waiting] at draining
    cases draining

/-- After a failure, a call only waits for its children. -/
theorem Failure.step (failure : Failure m s error) (event : ChildEvent ρ) :
    Failure m (s.step event) error := by
  obtain ⟨waiting, first, settled, commands, cancelled, isOver⟩ := failure
  cases event with
  | finish ordinal outcome =>
    refine ⟨waiting, first, settled, commands, fun task member runs => ?_, isOver⟩
    obtain ⟨now, here, same, requested⟩ := cancelled task member runs
    exact ⟨now.finish ordinal outcome, List.mem_map_of_mem here,
      ChildTask.finish_ordinal.trans same, ChildTask.finish_cancelRequested.trans requested⟩
  | wake =>
    rcases isOver with draining | raised
    · simp only [Rolling.step, draining]
      split
      · exact ⟨waiting, first, settled, commands, cancelled, Or.inr rfl⟩
      · exact ⟨waiting, first, settled, commands, cancelled, Or.inl draining⟩
    · simp only [Rolling.step, raised]
      exact ⟨waiting, first, settled, commands, cancelled, Or.inr raised⟩

/-- A turn after which the call has failed. -/
theorem failed_before {event : ChildEvent ρ}
    (isOver : (s.step event).phase = .draining error ∨ (s.step event).phase = .raised error) :
    (s.phase = .draining error ∨ s.phase = .raised error) ∨
      (s.phase = .waiting ∧ event = .wake ∧ (s.step .wake).phase = .draining error) := by
  cases event with
  | finish ordinal outcome => exact Or.inl isOver
  | wake =>
    cases phase : s.phase with
    | waiting =>
      rcases isOver with draining | raised
      · exact Or.inr ⟨rfl, rfl, draining⟩
      · simp only [Rolling.step, phase] at raised
        split at raised
        · split at raised
          · unfold Rolling.loop at raised
            split at raised <;> cases raised
          · cases raised
        · rw [phase] at raised
          cases raised
    | draining e =>
      simp only [Rolling.step, phase] at isOver
      split at isOver
      · rcases isOver with draining | raised
        · cases draining
        · cases raised
          exact Or.inl (Or.inl rfl)
      · rw [phase] at isOver
        exact Or.inl isOver
    | returned results =>
      simp only [Rolling.step, phase] at isOver
      rcases isOver with draining | raised
      · cases draining
      · cases raised
    | raised e =>
      simp only [Rolling.step, phase] at isOver
      exact Or.inl isOver

/-- A call that has failed has observed a failure at some turn. -/
theorem failure_of_over {call : MapChildren ι} {limit : ℕ} (positive : 0 < limit)
    {events : List (ChildEvent ρ)}
    (isOver : ((begin call limit).after events).phase = .draining error ∨
      ((begin call limit).after events).phase = .raised error) :
    ∃ before later, events = before ++ .wake :: later ∧
      Failure ((begin call limit).after before) ((begin call limit).after events) error := by
  have split (events : List (ChildEvent ρ)) (event : ChildEvent ρ) :
      (begin call limit : Rolling ι ρ).after (events ++ [event]) =
        ((begin call limit).after events).step event := List.foldl_append
  have same : 0 < (begin call limit : Rolling ι ρ).limit := by
    rw [begin, loop_same.2]
    exact positive
  induction events using List.reverseRecOn with
  | nil =>
    have fresh : ((begin call limit : Rolling ι ρ).after []).phase = .waiting ∨
        ∃ results, ((begin call limit : Rolling ι ρ).after []).phase = .returned results := by
      change (begin call limit : Rolling ι ρ).phase = _ ∨ _
      unfold begin Rolling.loop
      split
      · exact Or.inl rfl
      · exact Or.inr ⟨_, rfl⟩
    rcases fresh with waiting | ⟨results, returned⟩
    · rw [waiting] at isOver
      rcases isOver with isOver | isOver <;> cases isOver
    · rw [returned] at isOver
      rcases isOver with isOver | isOver <;> cases isOver
  | append_singleton events event ih =>
    rw [split] at isOver ⊢
    rcases failed_before isOver with earlier | ⟨waiting, rfl, draining⟩
    · obtain ⟨before, later, parts, failure⟩ := ih earlier
      exact ⟨before, later ++ [event], by rw [parts]; simp, failure.step event⟩
    · have sound := ((begin_sound call positive).after same events).1
      exact ⟨events, [], rfl, sound.failure waiting draining⟩

end Rolling

/-! ### Whole runs -/

/-- Every event of a run changes the state it meets. -/
def Lively {σ ε : Type} (step : σ → ε → σ) : σ → List ε → Prop
  | _, [] => True
  | s, event :: rest => step s event ≠ s ∧ Lively step (step s event) rest

/-- A run in which every event changes something is no longer than what it costs. -/
theorem Lively.length_le {σ ε : Type} {step : σ → ε → σ} {good : σ → Prop} {cost : σ → ℕ}
    (keeps : ∀ s event, good s → good (step s event))
    (cheaper : ∀ s event, good s → step s event = s ∨ cost (step s event) < cost s)
    {s : σ} {events : List ε} (begins : good s) (lively : Lively step s events) :
    events.length ≤ cost s := by
  induction events generalizing s with
  | nil => exact Nat.zero_le _
  | cons event rest ih =>
    have less := (cheaper s event begins).resolve_left lively.1
    have later := ih (keeps s event begins) lively.2
    rw [List.length_cons]
    omega

section Refinement

variable {ι ρ : Type} {call : MapChildren ι} {policy : TaskPolicy} {limit : ℕ}

/-- The values of all items, in order. -/
def MapChildren.values (call : MapChildren ι) (value : ℕ → ρ) : List ρ :=
  (List.range call.items.length).map value

/-- The rolling window does what the barrier does. Both keep the window and start the same
children in the order of the items, each of them once. If all children succeed, both return
the same list, after finitely many turns. If a child fails, the rolling window starts no more
children, cancels those in flight, waits for all of them, and raises the first failure. -/
theorem rolling_refines_barrier (checked : call.limit policy = .ok limit) :
    (∀ events : List (ChildEvent ρ),
      let s := (Rolling.begin call limit).after events
      let b := (Barrier.begin call limit).after events
      s.inFlight ≤ limit ∧ s.commands <+: call.commands ∧
      b.inFlight ≤ limit ∧ b.commands <+: call.commands) ∧
    (∀ (value : ℕ → ρ) events, (∀ event ∈ events, event.Succeeds value) →
      let s := (Rolling.begin call limit).after events
      let b := (Barrier.begin call limit).after events
      ((s.phase = .returned ((call.values value).map some) ∧ s.commands = call.commands) ∨
        ∃ event : ChildEvent ρ, event.Succeeds value ∧ s.step event ≠ s) ∧
      ((b.phase = .returned (call.values value) ∧ b.commands = call.commands) ∨
        ∃ event : ChildEvent ρ, event.Succeeds value ∧ b.step event ≠ b)) ∧
    (∀ events : List (ChildEvent ρ),
      (Lively Rolling.step (Rolling.begin call limit) events →
        events.length ≤ 2 * call.items.length + 2) ∧
      (Lively Barrier.step (Barrier.begin call limit) events →
        events.length ≤ 2 * call.items.length + 1)) ∧
    ∀ (events : List (ChildEvent ρ)) error,
      let s := (Rolling.begin call limit).after events
      (s.phase = .draining error ∨ s.phase = .raised error →
        ∃ before later, events = before ++ .wake :: later ∧
          ((Rolling.begin call limit).after before).Failure s error) ∧
      (s.phase = .draining error → ∃ event, s.step event ≠ s) ∧
      (s.phase = .raised error → s.inFlight = 0) := by
  have positive := call.limit_pos checked
  have rolled : (Rolling.begin call limit : Rolling ι ρ).call = call ∧
      (Rolling.begin call limit : Rolling ι ρ).limit = limit := Rolling.loop_same
  have barred : (Barrier.begin call limit : Barrier ι ρ).call = call ∧
      (Barrier.begin call limit : Barrier ι ρ).limit = limit := Barrier.loop_same
  have rollSound (events : List (ChildEvent ρ)) := (Rolling.begin_sound call positive).after
    (rolled.2.symm ▸ positive) events
  have barSound (events : List (ChildEvent ρ)) := (Barrier.begin_sound call positive).after
    (barred.2.symm ▸ positive) events
  refine ⟨fun events => ?_, fun value events succeeds => ⟨?_, ?_⟩, fun events => ⟨?_, ?_⟩,
    fun events error => ⟨Rolling.failure_of_over positive, fun draining => ?_, fun raised => ?_⟩⟩
  · obtain ⟨sound, same⟩ := rollSound events
    obtain ⟨sound', same'⟩ := barSound events
    refine ⟨?_, ?_, ?_, ?_⟩
    · exact (List.countP_le_length.trans sound.window).trans (same.2.trans rolled.2).le
    · rw [sound.commands, same.1, rolled.1]
      exact List.take_prefix _ _
    · exact (List.countP_le_length.trans sound'.window).trans (same'.2.trans barred.2).le
    · rw [sound'.commands, same'.1, barred.1]
      exact List.take_prefix _ _
  · obtain ⟨sound, same⟩ := rollSound events
    have begun : Rolling.Succeeding value (Rolling.begin call limit) :=
      Rolling.begin_succeeding call limit
    have succeeding :=
      begun.after (Rolling.begin_sound call positive) (rolled.2.symm ▸ positive) succeeds
    rcases succeeding.calm with waiting | ⟨results, returned⟩
    · refine Or.inr ?_
      rcases sound.goes_on (fun ordinal => .ok (value ordinal)) (Or.inl waiting) with
        ⟨ordinal, changes⟩ | wakes
      · exact ⟨.finish ordinal (.ok (value ordinal)), rfl, changes⟩
      · exact ⟨.wake, trivial, wakes⟩
    · obtain ⟨last, none, rfl⟩ := sound.returned results returned
      refine Or.inl ⟨?_, ?_⟩
      · rw [returned, succeeding.results_eq sound last none, same.1, rolled.1, MapChildren.values,
          List.map_map]
        rfl
      · rw [sound.commands, last, same.1, rolled.1]
        exact List.take_of_length_le (List.length_map _).le
  · obtain ⟨sound, same⟩ := barSound events
    have begun : Barrier.Succeeding value (Barrier.begin call limit) :=
      Barrier.begin_succeeding call limit
    have succeeding :=
      begun.after (Barrier.begin_sound call positive) (barred.2.symm ▸ positive) succeeds
    rcases succeeding.goes with waiting | ⟨results, returned⟩
    · exact Or.inr (sound.goes_on value waiting)
    · obtain ⟨none, last, rfl⟩ := sound.returned results returned
      refine Or.inl ⟨?_, ?_⟩
      · rw [returned, succeeding.results, Nat.min_eq_right last, same.1, barred.1]
        rfl
      · rw [sound.commands, same.1, barred.1]
        refine List.take_of_length_le ((List.length_map _).trans_le ?_)
        rw [same.1, barred.1] at last
        exact last.trans (Nat.le_add_right _ _)
  · intro lively
    have bound := @Lively.length_le _ _ Rolling.step (fun s => s.Sound ∧ 0 < s.limit) Rolling.cost
      (fun s event good => ⟨good.1.step good.2 event, (Rolling.step_same event).2.symm ▸ good.2⟩)
      (fun s event _ => Rolling.step_cost event) _ events
      ⟨Rolling.begin_sound call positive, rolled.2.symm ▸ positive⟩ lively
    refine bound.trans ((Rolling.loop_cost rfl).trans (le_of_eq ?_))
    rfl
  · intro lively
    have bound := @Lively.length_le _ _ Barrier.step (fun s => s.Sound ∧ 0 < s.limit) Barrier.cost
      (fun s event good => ⟨good.1.step good.2 event, (Barrier.step_same event).2.symm ▸ good.2⟩)
      (fun s event good => good.1.step_cost event) _ events
      ⟨Barrier.begin_sound call positive, barred.2.symm ▸ positive⟩ lively
    exact bound.trans Barrier.loop_cost
  · obtain ⟨sound, -⟩ := rollSound events
    rcases sound.goes_on (fun _ => .error .cancelled) (Or.inr ⟨error, draining⟩) with
      ⟨ordinal, changes⟩ | wakes
    · exact ⟨_, changes⟩
    · exact ⟨.wake, wakes⟩
  · obtain ⟨sound, -⟩ := rollSound events
    exact List.countP_eq_zero.mpr fun task member =>
      Bool.not_eq_true _ ▸ sound.raised error raised task member

end Refinement

/-- Three items, two at a time. -/
def sampleChildren : MapChildren String where
  taskType := "feature/v1"
  taskQueue := "tasks"
  items := ["a", "b", "c"]
  identity := id
  key := "k"
  window := some 2

theorem rolling_refines_barrier_sample :
    sampleChildren.limit { maxIterations := 1 } = .ok 2 ∧
      ∀ events : List (ChildEvent ℕ), ((Rolling.begin sampleChildren 2).after events).inFlight ≤ 2 := by
  have checked : sampleChildren.limit { maxIterations := 1 } = .ok 2 := by rfl
  exact ⟨checked, fun events => ((rolling_refines_barrier checked).1 events).1⟩

/-- The second child ends first, and its slot goes to the third item. -/
example : (((Rolling.begin sampleChildren 2).after
    [.finish 1 (.ok 11), .wake]).pending.map ChildTask.ordinal) = [0, 2] := by
  decide

end IntramindRuntime.Workflow
