import Mathlib.Data.Nat.Notation
import Mathlib.Logic.Function.Basic

/-!
# Condition variables

The tasks of an event loop share a lock with a condition, such as `asyncio` has them. Code under
the lock first waits until its guard holds: while it does not, the task releases the lock and
stops until another task notifies it, and then takes the lock again. A task may be cancelled
wherever it has stopped. On its way back to the lock it keeps the cancellation in mind and raises
it when it has the lock.

No code stops while it has the lock. So the lock is never found taken, whatever the order of the
turns, and nobody ever queues for it: a call is one turn, or waits for a notification between
turns. This is what the proofs about such code begin with.

## Main definitions

* `Guarded` — the code of the calls: guards, bodies, and which of them notify
* `Monitor` — the shared state, the lock and its queue, and the calls that have stopped
* `Monitor.enter`, `Monitor.resume`, `Monitor.cancel` — what happens to a call
* `Monitor.Quiet`, `Monitor.Alert` — the lock is free; nobody waits for what holds already

## Main results

* `Monitor.Quiet.enter_eq`, `Monitor.Quiet.resume_eq` — the turns of a call
* `Monitor.Quiet.run`, `Monitor.Alert.attempt` — turns keep both
-/

namespace IntramindRuntime.Library.Condition

/-- What a task waits for. -/
inductive Future
  | pending | done | cancelled
  deriving DecidableEq

/-- The await where a call has stopped. -/
inductive Await
  /-- `acquire`, on the way in. -/
  | lock
  /-- The future of `wait`. -/
  | notified
  /-- `acquire`, on the way back from `wait`. -/
  | relock (cancelled : Bool)
  deriving DecidableEq

/-- A call that has stopped. -/
structure Call (κ : Type*) where
  code : κ
  await : Await
  future : Future := .pending
  /-- `_must_cancel`, the task is cancelled after its future was done. -/
  mustCancel : Bool := false

/-- The code of calls: each waits for its guard and then runs its body, under the lock. -/
structure Guarded (κ σ ρ : Type*) where
  guard : κ → σ → Bool
  body : κ → σ → σ
  notifies : κ → σ → Bool
  result : κ → σ → ρ

variable {ι κ σ ρ : Type*}

/-- A body that makes the guard of another call hold notifies. -/
def Guarded.Announces (code : Guarded κ σ ρ) : Prop :=
  ∀ {k k' s}, code.guard k s = true → code.guard k' s = false →
    code.guard k' (code.body k s) = true → code.notifies k s = true

/-- How a turn of a call ends. -/
inductive Outcome (ρ : Type*)
  | stops | cancelled
  | returns (result : ρ)

/-- A shared state under a lock with a condition, and the calls of the tasks. -/
structure Monitor (ι κ σ : Type*) where
  state : σ
  locked : Bool := false
  /-- `_waiters` of the lock. -/
  queue : List ι := []
  calls : ι → Option (Call κ) := fun _ => none

/-- The task will have a turn. -/
def Call.due (call : Call κ) : Bool := call.future ≠ .pending

/-- The turn begins with a cancellation. -/
def Call.raises (call : Call κ) : Bool := call.future = .cancelled || call.mustCancel

/-- `set_result`, unless the future is done. -/
def Call.wake (call : Call κ) : Call κ :=
  if call.future = .pending then { call with future := .done } else call

/-- `Task.cancel` -/
def Call.cancel (call : Call κ) : Call κ :=
  if call.future = .pending then { call with future := .cancelled }
  else { call with mustCancel := true }

/-- What other tasks do not change of a call: its code, and whether it is cancelled. -/
def Call.lasting (call : Call κ) : κ × Bool := (call.code, call.raises)

section Calls

variable {call : Call κ}

theorem Call.wake_code : call.wake.code = call.code := by
  rw [Call.wake]
  split <;> rfl

theorem Call.wake_await : call.wake.await = call.await := by
  rw [Call.wake]
  split <;> rfl

theorem Call.wake_due : call.wake.due = true := by
  rw [Call.wake]
  split
  · rfl
  · simpa [Call.due]

/-- To be woken is no cancellation. -/
theorem Call.wake_raises : call.wake.raises = call.raises := by
  rw [Call.wake]
  split
  · rename_i pending
    simp [Call.raises, pending]
  · rfl

theorem Call.cancel_code : call.cancel.code = call.code := by
  rw [Call.cancel]
  split <;> rfl

theorem Call.cancel_await : call.cancel.await = call.await := by
  rw [Call.cancel]
  split <;> rfl

theorem Call.cancel_due : call.cancel.due = true := by
  rw [Call.cancel]
  split
  · rfl
  · simpa [Call.due]

end Calls

namespace Monitor

variable [DecidableEq ι]

/-- The task has stopped in a call. -/
def stop (m : Monitor ι κ σ) (i : ι) (call : Call κ) : Monitor ι κ σ :=
  { m with calls := Function.update m.calls i (some call) }

/-- The call of the task is over. -/
def leave (m : Monitor ι κ σ) (i : ι) : Monitor ι κ σ :=
  { m with calls := Function.update m.calls i none }

/-- `_wake_up_first` -/
def wakeUpFirst (m : Monitor ι κ σ) : Monitor ι κ σ :=
  match m.queue with
  | [] => m
  | i :: _ => { m with calls := Function.update m.calls i ((m.calls i).map Call.wake) }

/-- `Lock.release` -/
def release (m : Monitor ι κ σ) : Monitor ι κ σ := { m with locked := false }.wakeUpFirst

/-- The lock can be taken at once: it is free, and all who queue for it are cancelled. -/
def available (m : Monitor ι κ σ) : Bool :=
  !m.locked && m.queue.all fun i => (m.calls i).any fun call => call.future = .cancelled

/-- `notify_all` wakes the calls in `wait`. -/
def notifyAll (m : Monitor ι κ σ) : Monitor ι κ σ :=
  { m with calls := fun i => (m.calls i).map fun call =>
      if call.await = .notified then call.wake else call }

/-- The call queues for the lock. -/
def enqueue (m : Monitor ι κ σ) (i : ι) (k : κ) (await : Await) : Monitor ι κ σ :=
  { m with queue := m.queue ++ [i] }.stop i { code := k, await }

variable (code : Guarded κ σ ρ)

/-- A round of `wait_for` with the lock, and what follows if the guard holds. -/
def locally (m : Monitor ι κ σ) (i : ι) (k : κ) : Monitor ι κ σ × Outcome ρ :=
  if code.guard k m.state then
    let after := { m with state := code.body k m.state }.leave i
    let told := if code.notifies k m.state then after.notifyAll else after
    (told.release, .returns (code.result k m.state))
  else (m.release.stop i { code := k, await := .notified }, .stops)

/-- The way back from `wait`. -/
def comeBack (m : Monitor ι κ σ) (i : ι) (k : κ) (cancelled : Bool) :
    Monitor ι κ σ × Outcome ρ :=
  if m.available then
    if cancelled then (({ m with locked := true }.leave i).release, .cancelled)
    else { m with locked := true }.locally code i k
  else (m.enqueue i k (.relock cancelled), .stops)

/-- A task makes a call: `async with`. -/
def enter (m : Monitor ι κ σ) (i : ι) (k : κ) : Monitor ι κ σ × Outcome ρ :=
  if m.available then { m with locked := true }.locally code i k
  else (m.enqueue i k .lock, .stops)

/-- A task that queued for the lock has its turn. -/
def dequeue (m : Monitor ι κ σ) (i : ι) (raises : Bool) : Monitor ι κ σ :=
  let m := { m with queue := m.queue.erase i }
  if raises then if m.locked then m else m.wakeUpFirst
  else { m with locked := true }

/-- A task that has stopped in a call has its turn. -/
def resume (m : Monitor ι κ σ) (i : ι) : Option (Monitor ι κ σ × Outcome ρ) :=
  match m.calls i with
  | none => none
  | some call =>
    if call.due then
      match call.await with
      | .lock =>
        if call.raises then some ((m.dequeue i true).leave i, .cancelled)
        else some ((m.dequeue i false).locally code i call.code)
      | .notified => some (m.comeBack code i call.code call.raises)
      | .relock cancelled =>
        if call.raises then some ((m.dequeue i true).comeBack code i call.code true)
        else if cancelled then some (((m.dequeue i false).leave i).release, .cancelled)
        else some ((m.dequeue i false).locally code i call.code)
    else none

/-- A task is cancelled where it has stopped. -/
def cancel (m : Monitor ι κ σ) (i : ι) : Monitor ι κ σ :=
  { m with calls := Function.update m.calls i ((m.calls i).map Call.cancel) }

/-! ### The lock is free between turns -/

/-- The lock is free, nobody queues for it, and all calls wait to be notified. -/
structure Quiet (m : Monitor ι κ σ) : Prop where
  free : m.locked = false
  empty : m.queue = []
  waits : ∀ {i call}, m.calls i = some call → call.await = .notified

/-- Nobody waits for what holds already without having been notified. -/
def Alert (m : Monitor ι κ σ) : Prop :=
  ∀ i call, m.calls i = some call → call.due = false → code.guard call.code m.state = false

/-- The body of a call, and who is told. -/
def run (m : Monitor ι κ σ) (i : ι) (k : κ) : Monitor ι κ σ :=
  let after := { m with state := code.body k m.state }.leave i
  if code.notifies k m.state then after.notifyAll else after

/-- A turn of a call that is not cancelled, where the lock is free. -/
def attempt (m : Monitor ι κ σ) (i : ι) (k : κ) : Monitor ι κ σ × Outcome ρ :=
  if code.guard k m.state then (m.run code i k, .returns (code.result k m.state))
  else (m.stop i { code := k, await := .notified }, .stops)

variable {code} {m : Monitor ι κ σ} {i j : ι} {k : κ} {call : Call κ}

@[simp] theorem stop_state : (m.stop i call).state = m.state := rfl

@[simp] theorem run_state : (m.run code i k).state = code.body k m.state := by
  rw [run]
  split <;> rfl

theorem attempt_of_open (isOpen : code.guard k m.state = true) :
    m.attempt code i k = (m.run code i k, .returns (code.result k m.state)) := if_pos isOpen

theorem attempt_of_closed (closed : code.guard k m.state = false) :
    m.attempt code i k = (m.stop i { code := k, await := .notified }, .stops) :=
  if_neg (ne_true_of_eq_false closed)

theorem release_of_empty (empty : m.queue = []) : m.release = { m with locked := false } := by
  rw [release, wakeUpFirst]
  simp only [empty]

omit [DecidableEq ι] in
theorem available_of_quiet (quiet : m.Quiet) : m.available = true := by
  simp [available, quiet.free, quiet.empty]

/-- With the lock, a round is a turn where the lock is free. -/
theorem Quiet.locally_eq (quiet : m.Quiet) :
    { m with locked := true }.locally code i k = m.attempt code i k := by
  obtain ⟨state, locked, queue, calls⟩ := m
  obtain ⟨rfl, rfl⟩ : locked = false ∧ queue = [] := ⟨quiet.free, quiet.empty⟩
  rw [locally, attempt, run]
  dsimp only
  split
  · split <;> rfl
  · rfl

/-- A call begins with a turn. -/
theorem Quiet.enter_eq (quiet : m.Quiet) : m.enter code i k = m.attempt code i k := by
  rw [enter, if_pos (available_of_quiet quiet), quiet.locally_eq]

/-- A call that has stopped goes on with a turn, or raises. -/
theorem Quiet.resume_eq (quiet : m.Quiet) (stopped : m.calls i = some call)
    (due : call.due = true) :
    m.resume code i = some
      (if call.raises then (m.leave i, .cancelled) else m.attempt code i call.code) := by
  have back : m.comeBack code i call.code call.raises =
      if call.raises then (m.leave i, .cancelled) else m.attempt code i call.code := by
    rw [comeBack, if_pos (available_of_quiet quiet), quiet.locally_eq]
    have empty : ({ m with locked := true }.leave i).queue = [] := quiet.empty
    rw [release_of_empty empty]
    simp only [leave, ← quiet.free]
  simp only [resume, stopped, due, if_true, quiet.waits stopped, back]

/-- A call has a turn only when it is due. -/
theorem resume_due {next : Monitor ι κ σ × Outcome ρ} (turn : m.resume code i = some next) :
    ∃ call, m.calls i = some call ∧ call.due = true := by
  rw [resume] at turn
  split at turn
  · cases turn
  · rename_i call stopped
    by_cases due : call.due = true
    · exact ⟨call, stopped, due⟩
    · rw [if_neg due] at turn
      cases turn

/-! ### What a turn does to the calls -/

theorem stop_calls_self : (m.stop i call).calls i = some call := Function.update_self ..

theorem stop_calls_ne (other : j ≠ i) : (m.stop i call).calls j = m.calls j :=
  Function.update_of_ne other ..

theorem leave_calls_self : (m.leave i).calls i = none := Function.update_self ..

theorem leave_calls_ne (other : j ≠ i) : (m.leave i).calls j = m.calls j :=
  Function.update_of_ne other ..

theorem run_calls_self : (m.run code i k).calls i = none := by
  rw [run]
  split
  · simp [notifyAll, leave]
  · exact Function.update_self ..

/-- A body that notifies wakes the other calls, and one that does not leaves them alone. -/
theorem run_calls_ne (other : j ≠ i) : (m.run code i k).calls j =
    if code.notifies k m.state then
      (m.calls j).map fun call => if call.await = .notified then call.wake else call
    else m.calls j := by
  rw [run]
  split
  · simp [notifyAll, leave, Function.update_of_ne other]
  · exact Function.update_of_ne other ..

/-- The turn of a task leaves the calls of the others as they are, but may wake them. -/
theorem attempt_calls_ne (other : j ≠ i) :
    ((m.attempt code i k).1.calls j).map Call.lasting = (m.calls j).map Call.lasting := by
  rw [attempt]
  split
  · rw [run_calls_ne other]
    split
    · rw [Option.map_map]
      congr 1
      funext call
      rw [Function.comp_apply]
      split
      · simp only [Call.lasting, Call.wake_code, Call.wake_raises]
      · rfl
    · rfl
  · rw [stop_calls_ne other]

/-! ### What turns keep -/

theorem Quiet.stop (quiet : m.Quiet) (waits : call.await = .notified) : (m.stop i call).Quiet where
  free := quiet.free
  empty := quiet.empty
  waits {j other} here := by
    by_cases same : j = i
    · subst same
      rw [stop_calls_self, Option.some.injEq] at here
      rwa [← here]
    · exact quiet.waits (stop_calls_ne same ▸ here)

theorem Quiet.leave (quiet : m.Quiet) : (m.leave i).Quiet where
  free := quiet.free
  empty := quiet.empty
  waits {j other} here := by
    by_cases same : j = i
    · subst same
      rw [leave_calls_self] at here
      cases here
    · exact quiet.waits (leave_calls_ne same ▸ here)

theorem Quiet.run (quiet : m.Quiet) : (m.run code i k).Quiet where
  free := by
    rw [Monitor.run]
    split <;> exact quiet.free
  empty := by
    rw [Monitor.run]
    split <;> exact quiet.empty
  waits {j other} here := by
    by_cases same : j = i
    · subst same
      rw [run_calls_self] at here
      cases here
    · rw [run_calls_ne same] at here
      split at here
      · obtain ⟨call, stopped, rfl⟩ := Option.map_eq_some_iff.mp here
        rw [if_pos (quiet.waits stopped), Call.wake_await]
        exact quiet.waits stopped
      · exact quiet.waits here

theorem cancel_calls_ne (other : j ≠ i) : (m.cancel i).calls j = m.calls j :=
  Function.update_of_ne other ..

theorem cancel_calls_self : (m.cancel i).calls i = (m.calls i).map Call.cancel :=
  Function.update_self ..

theorem Quiet.cancel (quiet : m.Quiet) : (m.cancel i).Quiet where
  free := quiet.free
  empty := quiet.empty
  waits {j other} here := by
    by_cases same : j = i
    · subst same
      rw [cancel_calls_self] at here
      obtain ⟨call, stopped, rfl⟩ := Option.map_eq_some_iff.mp here
      rw [Call.cancel_await]
      exact quiet.waits stopped
    · exact quiet.waits (cancel_calls_ne same ▸ here)

theorem Alert.leave (alert : m.Alert code) : (m.leave i).Alert code := by
  intro j other here idle
  by_cases same : j = i
  · subst same
    rw [leave_calls_self] at here
    cases here
  · rw [leave_calls_ne same] at here
    exact alert j other here idle

/-- Who is cancelled has a turn. -/
theorem Alert.cancel (alert : m.Alert code) : (m.cancel i).Alert code := by
  intro j other here idle
  by_cases same : j = i
  · subst same
    rw [cancel_calls_self] at here
    obtain ⟨call, -, rfl⟩ := Option.map_eq_some_iff.mp here
    rw [Call.cancel_due] at idle
    cases idle
  · rw [cancel_calls_ne same] at here
    exact alert j other here idle

/-- No wake-up is lost. -/
theorem Alert.attempt (announces : code.Announces) (quiet : m.Quiet) (alert : m.Alert code) :
    (m.attempt code i k).1.Alert code := by
  intro j other here idle
  rw [Monitor.attempt] at here ⊢
  split at here
  · rename_i isOpen
    rw [if_pos isOpen, run_state]
    by_cases same : j = i
    · subst same
      rw [run_calls_self] at here
      cases here
    · rw [run_calls_ne same] at here
      split at here
      · -- all who wait have been woken
        obtain ⟨call, stopped, rfl⟩ := Option.map_eq_some_iff.mp here
        rw [if_pos (quiet.waits stopped), Call.wake_due] at idle
        cases idle
      · rename_i silent
        rw [← Bool.not_eq_true]
        intro opened
        exact silent (announces isOpen (alert j other here idle) opened)
  · rename_i closed
    rw [if_neg closed, stop_state]
    by_cases same : j = i
    · subst same
      rw [stop_calls_self, Option.some.injEq] at here
      rw [← here]
      exact Bool.not_eq_true _ ▸ closed
    · rw [stop_calls_ne same] at here
      exact alert j other here idle

end Monitor
end IntramindRuntime.Library.Condition
