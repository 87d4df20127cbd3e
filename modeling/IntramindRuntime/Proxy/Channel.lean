import IntramindRuntime.Library.Condition
import Mathlib.Data.List.Basic

/-!
# The channel of a response

The producer of a response puts chunks into a channel, from which the consumer streams them. The
channel holds a few chunks; the producer waits while it is full, the consumer while it is empty.
Any side may detach it: what it holds is dropped then, and nobody waits for room any more.

What the parties see is a history. The channel is right if its histories are those of a queue that
forgets everything when it is detached.

## Main definitions

* `Channel`, `Channel.code` — `_Channel`, and what its methods do under the lock
* `Channel.World`, `Channel.World.step` — the parties, with the generator of `stream`
* `Channel.Fits` — what may come next in a history
* `Channel.Delivery` — what is promised of a state and the history that led to it

## Main results

* `Channel.Sound.step` — every step keeps the channel as its history tells
* `Channel.delivers` — in every run, the channel delivers
-/

namespace IntramindRuntime.Proxy

open Library Condition

/-- `_Channel` without its lock. -/
structure Channel (β : Type*) where
  chunks : List β := []
  detached : Bool := false
  ended : Bool := false
  detachedEvent : Bool := false
  error : Option String := none

namespace Channel

variable {β : Type*}

/-! ### The code under the lock -/

/-- What is done under the lock. -/
inductive Operation (β : Type*)
  | put (chunk : β)
  | detach
  | finish (error : Option String)
  /-- A round of the loop of `stream`. -/
  | take

/-- What comes out of an operation. -/
inductive Reply (β : Type*)
  | done
  | chunk (chunk : β)
  | stop (error : Option String)

/-- What `wait_for` waits for. -/
def guard : Operation β → Channel β → Bool
  | .put _, c => c.detached || c.chunks.length < 8
  | .detach, _ => true
  | .finish _, _ => true
  | .take, c => !c.chunks.isEmpty || c.ended

def body : Operation β → Channel β → Channel β
  | .put chunk, c => if c.detached then c else { c with chunks := c.chunks ++ [chunk] }
  | .detach, c => { c with detached := true, detachedEvent := true, chunks := [] }
  | .finish error, c => if c.ended then c else { c with ended := true, error }
  | .take, c => { c with chunks := c.chunks.tail }

/-- The body calls `notify_all`. -/
def notifies : Operation β → Channel β → Bool
  | .put _, c => !c.detached
  | .detach, _ => true
  | .finish _, c => !c.ended
  | .take, c => !c.chunks.isEmpty

def result : Operation β → Channel β → Reply β
  | .take, c =>
    match c.chunks with
    | chunk :: _ => .chunk chunk
    | [] => .stop c.error
  | _, _ => .done

/-- The methods of a channel. -/
def code : Guarded (Operation β) (Channel β) (Reply β) := ⟨guard, body, notifies, result⟩

/-- No method makes room, brings a chunk or ends the channel silently. -/
theorem announces : (code : Guarded (Operation β) (Channel β) (Reply β)).Announces := by
  intro k k' c opened closed opens
  cases k with
  | put chunk =>
    cases k' with
    | put other => exact nomatch opened.symm.trans closed
    | detach => exact nomatch closed
    | finish error => exact nomatch closed
    | take =>
      by_cases detached : c.detached = true
      · simp only [code, body, if_pos detached] at opens
        exact nomatch opens.symm.trans closed
      · simpa [code, notifies] using detached
  | detach => rfl
  | finish error =>
    by_cases ended : c.ended = true
    · simp only [code, body, if_pos ended] at opens
      exact nomatch opens.symm.trans closed
    · simpa [code, notifies] using ended
  | take =>
    cases k' with
    | put other =>
      cases chunks : c.chunks with
      | nil => simp [code, guard, chunks] at closed
      | cons chunk rest => simp [code, notifies, chunks]
    | detach => exact nomatch closed
    | finish error => exact nomatch closed
    | take => exact nomatch opened.symm.trans closed

/-! ### The parties -/

/-- The tasks: one puts, one streams, and any number of others may finish or detach. -/
inductive Party
  | producer | consumer
  | other (n : ℕ)
  deriving DecidableEq

/-- How the consumer sees the stream end. -/
inductive Ending
  | returned
  | raised (error : String)
  | cancelled
  /-- The consumer has closed the stream. -/
  | closed

/-- The end of the loop. An empty text is no error. -/
def Ending.of : Option String → Ending
  | none => .returned
  | some error => if error = "" then .returned else .raised error

/-- Where the generator of `stream` has stopped. -/
inductive Stream
  | created
  /-- At its `yield`. -/
  | yielding
  /-- In a round of its loop. -/
  | taking
  /-- In its `finally` block. -/
  | closing (ending : Ending)
  | closed

/-- The channel with its parties. -/
structure World (β : Type*) where
  monitor : Monitor Party (Operation β) (Channel β) := { state := {} }
  stream : Stream := .created

/-- What the parties see: methods that have returned, chunks, and the end of the stream. -/
inductive Note (β : Type*)
  | put (chunk : β)
  | finish (error : Option String)
  | detach (party : Party)
  | got (chunk : β)
  | ended (ending : Ending)

/-- What may happen. -/
inductive Event (β : Type*)
  /-- A party calls a method. -/
  | call (party : Party) (operation : Operation β)
  /-- The consumer asks for the next chunk. -/
  | next
  /-- The consumer closes the stream. -/
  | close
  /-- The event loop goes on with a party that has stopped. -/
  | resume (party : Party)
  | cancel (party : Party)

/-- Who may call what. The rounds of `stream` are not called from outside. -/
def Party.mayCall : Party → Operation β → Bool
  | .consumer, _ => false
  | _, .take => false
  | .other _, .put _ => false
  | _, _ => true

/-- What is seen of a call. -/
def notes (party : Party) : Operation β → Outcome (Reply β) → List (Note β)
  | .put chunk, .returns _ => [.put chunk]
  | .detach, .returns _ => [.detach party]
  | .finish error, .returns _ => [.finish error]
  | _, _ => []

@[simp] theorem notes_stops {party : Party} {operation : Operation β} :
    notes party operation .stops = [] := by
  cases operation <;> rfl

@[simp] theorem notes_cancelled {party : Party} {operation : Operation β} :
    notes party operation .cancelled = [] := by
  cases operation <;> rfl

namespace World

/-- After the `detach` in the `finally` block. -/
def afterDetach (w : World β) (ending : Ending)
    (turn : Monitor Party (Operation β) (Channel β) × Outcome (Reply β)) :
    World β × List (Note β) :=
  match turn.2 with
  | .stops => ({ w with monitor := turn.1, stream := .closing ending }, [])
  | .returns _ =>
    ({ w with monitor := turn.1, stream := .closed }, [.detach .consumer, .ended ending])
  | .cancelled => ({ w with monitor := turn.1, stream := .closed }, [.ended .cancelled])

/-- The generator leaves its loop. -/
def leave (w : World β) (monitor : Monitor Party (Operation β) (Channel β)) (ending : Ending) :
    World β × List (Note β) :=
  w.afterDetach ending (monitor.enter code .consumer .detach)

/-- After a round of the loop. -/
def afterTake (w : World β)
    (turn : Monitor Party (Operation β) (Channel β) × Outcome (Reply β)) :
    World β × List (Note β) :=
  match turn.2 with
  | .stops => ({ w with monitor := turn.1, stream := .taking }, [])
  | .returns (.chunk chunk) =>
    ({ w with monitor := turn.1, stream := .yielding }, [.got chunk])
  | .returns (.stop error) => w.leave turn.1 (.of error)
  -- a round never replies so
  | .returns .done => ({ w with monitor := turn.1, stream := .yielding }, [])
  | .cancelled => w.leave turn.1 .cancelled

/-- What happens at an event, and what is seen of it. -/
def step (w : World β) : Event β → Option (World β × List (Note β))
  | .call party operation =>
    if party.mayCall operation ∧ (w.monitor.calls party).isNone then
      let (monitor, outcome) := w.monitor.enter code party operation
      some ({ w with monitor }, notes party operation outcome)
    else none
  | .next =>
    match w.stream with
    | .created | .yielding => some (w.afterTake (w.monitor.enter code .consumer .take))
    | _ => none
  | .close =>
    match w.stream with
    | .created => some ({ w with stream := .closed }, [.ended .closed])
    | .yielding => some (w.leave w.monitor .closed)
    | _ => none
  | .resume .consumer =>
    match w.stream with
    | .taking => (w.monitor.resume code .consumer).map w.afterTake
    | .closing ending => (w.monitor.resume code .consumer).map (w.afterDetach ending)
    | _ => none
  | .resume party =>
    match w.monitor.calls party, w.monitor.resume code party with
    | some call, some (monitor, outcome) =>
      some ({ w with monitor }, notes party call.code outcome)
    | _, _ => none
  | .cancel party => some ({ w with monitor := w.monitor.cancel party }, [])

end World

/-- Any events in any order, with all that is seen. -/
inductive Run : World β → List (Note β) → Prop
  | start : Run {} []
  | step {w w' : World β} {log notes : List (Note β)} (run : Run w log) (event : Event β)
    (taken : w.step event = some (w', notes)) : Run w' (log ++ notes)

/-! ### Histories -/

@[simp] def Note.put? : Note β → Option β
  | .put chunk => some chunk
  | _ => none

@[simp] def Note.got? : Note β → Option β
  | .got chunk => some chunk
  | _ => none

@[simp] def Note.finish? : Note β → Option (Option String)
  | .finish error => some error
  | _ => none

/-- The chunks of the `put` calls that have returned. -/
def puts (log : List (Note β)) : List β := log.filterMap Note.put?

/-- The chunks that the consumer has got. -/
def taken (log : List (Note β)) : List β := log.filterMap Note.got?

/-- The errors of the `finish` calls that have returned. -/
def finishes (log : List (Note β)) : List (Option String) := log.filterMap Note.finish?

/-- Some party has detached the channel. -/
def Detached (log : List (Note β)) : Prop := ∃ party, .detach party ∈ log

/-- The consumer gets the chunks in their order until the channel is detached, and the end of the
first `finish` when there are no more of them. -/
def Fits (log : List (Note β)) : Note β → Prop
  | .got chunk => ¬ Detached log ∧ taken log ++ [chunk] <+: puts log
  | .ended .returned => ∃ before error, log = before ++ [.detach .consumer] ∧
    (finishes before).head? = some error ∧ Ending.of error = .returned ∧
      (¬ Detached before → taken before = puts before)
  | .ended (.raised error) => ∃ before, log = before ++ [.detach .consumer] ∧
    (finishes before).head? = some (some error) ∧
      (¬ Detached before → taken before = puts before)
  | _ => True

/-- Each note of a history fits what has been seen before. -/
def Fitting (log : List (Note β)) : Prop :=
  ∀ before note after, log = before ++ note :: after → Fits before note

/-- The channel is as its history tells. -/
structure Told (log : List (Note β)) (c : Channel β) : Prop where
  detached : c.detached = true ↔ Detached log
  event : c.detachedEvent = c.detached
  cleared : c.detached = true → c.chunks = []
  ended : c.ended = !(finishes log).isEmpty
  error : c.error = (finishes log).head?.join
  /-- What was put is with the consumer, in the channel, or lost when it was detached. -/
  delivered : ∃ lost, puts log = taken log ++ c.chunks ++ lost ∧ (c.detached = false → lost = [])
  bounded : c.chunks.length ≤ 8

section Histories

variable {log more : List (Note β)} {c : Channel β} {note : Note β}

@[simp] theorem puts_append : puts (log ++ more) = puts log ++ puts more := List.filterMap_append ..

@[simp] theorem taken_append : taken (log ++ more) = taken log ++ taken more :=
  List.filterMap_append ..

@[simp] theorem finishes_append : finishes (log ++ more) = finishes log ++ finishes more :=
  List.filterMap_append ..

@[simp] theorem puts_singleton : puts [note] = note.put?.toList := by cases note <;> rfl

@[simp] theorem taken_singleton : taken [note] = note.got?.toList := by cases note <;> rfl

@[simp] theorem finishes_singleton : finishes [note] = note.finish?.toList := by
  cases note <;> rfl

theorem fitting_nil : Fitting ([] : List (Note β)) := by
  intro before note after shape
  cases before <;> cases shape

/-- A history goes on with what fits it. -/
theorem Fitting.concat (fitting : Fitting log) (fits : Fits log note) :
    Fitting (log ++ [note]) := by
  intro before last after shape
  rcases List.eq_nil_or_concat after with rfl | ⟨front, other, rfl⟩
  · obtain ⟨rfl, same⟩ := List.append_inj' shape rfl
    cases same
    exact fits
  · rw [List.concat_eq_append, ← List.cons_append, ← List.append_assoc] at shape
    exact fitting before last front (List.append_inj' shape rfl).1

/-- Behind a `detach` no chunk is delivered. -/
theorem Fitting.taken_of_detach {before after : List (Note β)} {party : Party}
    (fitting : Fitting (before ++ .detach party :: after)) : taken after = [] := by
  rw [taken, List.filterMap_eq_nil_iff]
  intro note member
  obtain ⟨front, back, rfl⟩ := List.append_of_mem member
  cases note with
  | got chunk =>
    have fits := fitting (before ++ .detach party :: front) (.got chunk) back (by simp)
    exact absurd ⟨party, by simp⟩ fits.1
  | _ => rfl

theorem told_start : Told ([] : List (Note β)) {} where
  detached := by simp [Detached]
  event := rfl
  cleared _ := rfl
  ended := rfl
  error := rfl
  delivered := ⟨[], rfl, fun _ => rfl⟩
  bounded := Nat.zero_le _

/-- The chunks of a channel that is not detached are those that were put and not yet taken. -/
theorem Told.waiting (told : Told log c) (attached : ¬ Detached log) :
    puts log = taken log ++ c.chunks := by
  obtain ⟨lost, shape, nothing⟩ := told.delivered
  have here : c.detached = false := by
    rw [← Bool.not_eq_true]
    exact mt told.detached.mp attached
  rw [shape, nothing here, List.append_nil]

theorem Told.prefix (told : Told log c) : taken log <+: puts log := by
  obtain ⟨lost, shape, -⟩ := told.delivered
  exact ⟨c.chunks ++ lost, by rw [shape, List.append_assoc]⟩

theorem Told.put (told : Told log c) (chunk : β) (isOpen : guard (.put chunk) c = true) :
    Told (log ++ [.put chunk]) (body (.put chunk) c) := by
  obtain ⟨lost, shape, nothing⟩ := told.delivered
  have same : Detached (log ++ [.put chunk]) ↔ Detached log := by simp [Detached]
  rw [body]
  split
  · rename_i detached
    refine { told with
      detached := told.detached.trans same.symm
      ended := by simpa using told.ended
      error := by simpa using told.error
      delivered := ⟨lost ++ [chunk], by simp [shape], ?_⟩ }
    intro attached
    exact nomatch detached.symm.trans attached
  · rename_i attached
    have room : c.chunks.length < 8 := by simpa [guard, attached] using isOpen
    rw [Bool.not_eq_true] at attached
    refine ⟨told.detached.trans same.symm, told.event, ?_, ?_, ?_, ⟨[], ?_, fun _ => rfl⟩, ?_⟩
    · intro detached
      exact nomatch attached.symm.trans detached
    · simpa using told.ended
    · simpa using told.error
    · simp [shape, nothing attached]
    · rw [List.length_append]
      exact room

theorem Told.detach (told : Told log c) (party : Party) :
    Told (log ++ [.detach party]) (body .detach c) := by
  obtain ⟨lost, shape, -⟩ := told.delivered
  refine ⟨?_, rfl, fun _ => rfl, ?_, ?_, ⟨c.chunks ++ lost, ?_, nofun⟩, Nat.zero_le _⟩
  · exact ⟨fun _ => ⟨party, by simp⟩, fun _ => rfl⟩
  · simpa [body] using told.ended
  · simpa [body] using told.error
  · simp [shape, body]

/-- Only the first `finish` has an effect. -/
theorem Told.finish (told : Told log c) (error : Option String) :
    Told (log ++ [.finish error]) (body (.finish error) c) := by
  obtain ⟨lost, shape, nothing⟩ := told.delivered
  have same : Detached (log ++ [.finish error]) ↔ Detached log := by simp [Detached]
  have grown : puts (log ++ [.finish error]) = taken (log ++ [.finish error]) ++ c.chunks ++ lost :=
    by simpa using shape
  rw [body]
  split
  · rename_i ended
    rw [told.ended] at ended
    obtain ⟨first, rest, here⟩ := List.exists_cons_of_ne_nil
      (by simpa using ended : finishes log ≠ [])
    exact { told with
      detached := told.detached.trans same.symm
      ended := by simp [told.ended, here]
      error := by simp [told.error, here]
      delivered := ⟨lost, grown, nothing⟩ }
  · rename_i running
    rw [told.ended] at running
    have none : finishes log = [] := by simpa using running
    exact { told with
      detached := told.detached.trans same.symm
      ended := by simp
      error := by simp [none]
      delivered := ⟨lost, grown, nothing⟩ }

/-- The consumer takes the first chunk, which is the next one of those that were put. -/
theorem Told.take (told : Told log c) {chunk : β} {rest : List β}
    (chunks : c.chunks = chunk :: rest) :
    Fits log (.got chunk) ∧ Told (log ++ [.got chunk]) (body .take c) := by
  obtain ⟨lost, shape, nothing⟩ := told.delivered
  have attached : ¬ c.detached = true := by
    intro detached
    exact nomatch (told.cleared detached).symm.trans chunks
  have bounded := told.bounded
  rw [chunks] at shape bounded
  refine ⟨⟨mt told.detached.mpr attached, ⟨rest ++ lost, by simp [shape]⟩⟩, ?_⟩
  refine ⟨?_, told.event, ?_, ?_, ?_, ⟨lost, ?_, nothing⟩, ?_⟩
  · have same : Detached (log ++ [.got chunk]) ↔ Detached log := by simp [Detached]
    exact told.detached.trans same.symm
  · intro detached
    exact absurd detached attached
  · simpa [body] using told.ended
  · simpa [body] using told.error
  · simp [shape, body, chunks]
  · simp only [body, chunks, List.tail_cons]
    exact Nat.le_of_succ_le bounded

/-- The end of the stream says nothing of the channel. -/
theorem Told.over (told : Told log c) (ending : Ending) : Told (log ++ [.ended ending]) c := by
  obtain ⟨lost, shape, nothing⟩ := told.delivered
  have same : Detached (log ++ [.ended ending]) ↔ Detached log := by simp [Detached]
  exact { told with
    detached := told.detached.trans same.symm
    ended := by simpa using told.ended
    error := by simpa using told.error
    delivered := ⟨lost, by simpa using shape, nothing⟩ }

end Histories

/-! ### What every step keeps -/

/-- What is kept of the monitor. -/
structure Kept (m : Monitor Party (Operation β) (Channel β)) (log : List (Note β)) : Prop where
  quiet : m.Quiet
  alert : m.Alert code
  told : Told log m.state
  /-- Only the `put` of the producer waits, and the consumer. -/
  waits : ∀ {party call}, party ≠ .consumer → m.calls party = some call →
    party = .producer ∧ ∃ chunk, call.code = .put chunk

/-- The call of the consumer, by where its generator is. -/
def Stream.Agrees : Stream → Option (Operation β) → Prop
  | .taking, waits => waits = some .take
  | .closing _, _ => False
  | _, waits => waits = none

/-- The channel, its calls and its history agree. -/
structure Sound (w : World β) (log : List (Note β)) : Prop where
  kept : Kept w.monitor log
  fitting : Fitting log
  consumer : w.stream.Agrees ((w.monitor.calls .consumer).map Call.code)

section Sound

variable {w w' : World β} {log log' notes : List (Note β)} {party : Party}
  {m : Monitor Party (Operation β) (Channel β)} {operation : Operation β} {ending : Ending}

theorem code_of_lasting {κ : Type*} {before after : Option (Call κ)}
    (same : after.map Call.lasting = before.map Call.lasting) :
    after.map Call.code = before.map Call.code := by
  have first := congrArg (Option.map Prod.fst) same
  rwa [Option.map_map, Option.map_map] at first

theorem Kept.run (kept : Kept m log) (isOpen : guard operation m.state = true)
    (told : Told log' (body operation m.state)) : Kept (m.run code party operation) log' := by
  have shape := @Monitor.attempt_of_open _ _ _ _ _ code m party operation isOpen
  refine ⟨kept.quiet.run, ?_, by rwa [Monitor.run_state], ?_⟩
  · have alert := kept.alert.attempt (i := party) (k := operation) announces kept.quiet
    rwa [shape] at alert
  · intro other call apart here
    by_cases same : other = party
    · rw [same, Monitor.run_calls_self] at here
      cases here
    · have lasting := @Monitor.attempt_calls_ne _ _ _ _ _ code m party other operation same
      rw [shape] at lasting
      have codes := code_of_lasting lasting
      rw [here, Option.map_some] at codes
      obtain ⟨before, there, equal⟩ := Option.map_eq_some_iff.mp codes.symm
      rw [← equal]
      exact kept.waits apart there

theorem Kept.stop (kept : Kept m log) (closed : guard operation m.state = false)
    (fits : party ≠ .consumer → party = .producer ∧ ∃ chunk, operation = .put chunk) :
    Kept (m.stop party { code := operation, await := .notified }) log := by
  have shape := @Monitor.attempt_of_closed _ _ _ _ _ code m party operation closed
  refine ⟨kept.quiet.stop rfl, ?_, kept.told, ?_⟩
  · have alert := kept.alert.attempt (i := party) (k := operation) announces kept.quiet
    rwa [shape] at alert
  · intro other call apart here
    by_cases same : other = party
    · subst same
      rw [Monitor.stop_calls_self, Option.some.injEq] at here
      rw [← here]
      exact fits apart
    · rw [Monitor.stop_calls_ne same] at here
      exact kept.waits apart here

theorem Kept.leave (kept : Kept m log) : Kept (m.leave party) log := by
  refine ⟨kept.quiet.leave, kept.alert.leave, kept.told, ?_⟩
  intro other call apart here
  by_cases same : other = party
  · rw [same, Monitor.leave_calls_self] at here
    cases here
  · rw [Monitor.leave_calls_ne same] at here
    exact kept.waits apart here

theorem Kept.cancel (kept : Kept m log) : Kept (m.cancel party) log := by
  refine ⟨kept.quiet.cancel, kept.alert.cancel, kept.told, ?_⟩
  intro other call apart here
  by_cases same : other = party
  · subst same
    rw [Monitor.cancel_calls_self] at here
    obtain ⟨before, there, rfl⟩ := Option.map_eq_some_iff.mp here
    rw [Call.cancel_code]
    exact kept.waits apart there
  · rw [Monitor.cancel_calls_ne same] at here
    exact kept.waits apart here

/-- The generator leaves its loop: the channel is detached, and the stream ends. -/
theorem Kept.leave_eq (kept : Kept m log) : w.leave m ending =
    (⟨m.run code .consumer .detach, .closed⟩, [.detach .consumer, .ended ending]) := by
  rw [World.leave, kept.quiet.enter_eq, Monitor.attempt_of_open rfl]
  rfl

/-- Where there is nothing to take, nothing changes. -/
theorem body_take_nil {c : Channel β} (chunks : c.chunks = []) : body .take c = c := by
  obtain ⟨_, detached, ended, event, error⟩ := c
  obtain rfl : _ = [] := chunks
  rfl

/-- A round that finds a chunk. -/
theorem afterTake_chunk {chunk : β} {rest : List β} (chunks : m.state.chunks = chunk :: rest) :
    w.afterTake (m.attempt code .consumer .take) =
      (⟨m.run code .consumer .take, .yielding⟩, [.got chunk]) := by
  rw [Monitor.attempt_of_open (by simp [code, guard, chunks]), World.afterTake]
  simp only [code, result, chunks]

/-- A round that finds the end. -/
theorem Kept.afterTake_end (kept : Kept m log) (chunks : m.state.chunks = [])
    (ended : m.state.ended = true) :
    w.afterTake (m.attempt code .consumer .take) =
      (⟨(m.run code .consumer .take).run code .consumer .detach, .closed⟩,
        [.detach .consumer, .ended (.of m.state.error)]) := by
  have isOpen : guard .take m.state = true := by simp [guard, ended]
  have same := body_take_nil chunks
  rw [Monitor.attempt_of_open isOpen, World.afterTake]
  simp only [code, result, chunks]
  exact Kept.leave_eq (kept.run isOpen (same.symm ▸ kept.told))

/-- A round that finds nothing. -/
theorem afterTake_wait (chunks : m.state.chunks = []) (running : m.state.ended = false) :
    w.afterTake (m.attempt code .consumer .take) =
      (⟨m.stop .consumer { code := .take, await := .notified }, .taking⟩, []) := by
  rw [Monitor.attempt_of_closed (by simp [code, guard, chunks, running])]
  rfl

/-- The end of the loop is what the first `finish` says. -/
theorem Told.fits_of {c : Channel β} (told : Told log c) (chunks : c.chunks = [])
    (ended : c.ended = true) : Fits (log ++ [.detach .consumer]) (.ended (.of c.error)) := by
  have all (attached : ¬ Detached log) : taken log = puts log := by
    rw [told.waiting attached, chunks, List.append_nil]
  rw [told.ended] at ended
  obtain ⟨first, rest, here⟩ := List.exists_cons_of_ne_nil
    (by simpa using ended : finishes log ≠ [])
  have error : c.error = first := by simp [told.error, here]
  have head : (finishes log).head? = some first := by rw [here, List.head?_cons]
  rw [error]
  cases ending : Ending.of first with
  | returned => exact ⟨log, first, rfl, head, ending, all⟩
  | raised text =>
    cases first with
    | none => cases ending
    | some other =>
      rw [Ending.of] at ending
      split at ending
      · cases ending
      · cases ending
        exact ⟨log, rfl, head, all⟩
  | cancelled => trivial
  | closed => trivial

/-- The generator has left its loop. -/
theorem Kept.left (kept : Kept m log) (fitting : Fitting log)
    (fits : Fits (log ++ [.detach .consumer]) (.ended ending)) :
    Sound ⟨m.run code .consumer .detach, .closed⟩
      (log ++ [.detach .consumer, .ended ending]) := by
  have shape : log ++ [.detach .consumer, .ended ending] =
      log ++ [.detach .consumer] ++ [.ended ending] := by simp
  rw [shape]
  refine ⟨kept.run rfl ((kept.told.detach .consumer).over ending), ?_, ?_⟩
  · exact Fitting.concat (@Fitting.concat _ log (.detach .consumer) fitting trivial) fits
  · show Option.map Call.code _ = none
    rw [Monitor.run_calls_self, Option.map_none]

/-- A round of the loop keeps everything. -/
theorem Kept.afterTake (kept : Kept m log) (fitting : Fitting log)
    {next : World β × List (Note β)}
    (turn : w.afterTake (m.attempt code .consumer .take) = next) :
    Sound next.1 (log ++ next.2) := by
  cases chunks : m.state.chunks with
  | cons chunk rest =>
    rw [afterTake_chunk chunks] at turn
    cases turn
    obtain ⟨fits, told⟩ := kept.told.take chunks
    refine ⟨kept.run (by simp [guard, chunks]) told, fitting.concat fits, ?_⟩
    exact congrArg (Option.map Call.code) Monitor.run_calls_self
  | nil =>
    cases ended : m.state.ended with
    | true =>
      rw [kept.afterTake_end chunks ended] at turn
      cases turn
      have same := body_take_nil chunks
      have after : Kept (m.run code .consumer .take) log :=
        kept.run (by simp [guard, ended]) (same.symm ▸ kept.told)
      exact after.left fitting (kept.told.fits_of chunks ended)
    | false =>
      rw [afterTake_wait chunks ended] at turn
      cases turn
      rw [List.append_nil]
      have closed : guard .take m.state = false := by simp [guard, chunks, ended]
      refine ⟨kept.stop closed fun apart => absurd rfl apart, fitting, ?_⟩
      rw [Stream.Agrees, Monitor.stop_calls_self, Option.map_some]

/-- A turn of a call from outside keeps everything. -/
theorem Sound.attempt (sound : Sound w log) (apart : party ≠ .consumer)
    (may : party.mayCall operation = true)
    {next : Monitor Party (Operation β) (Channel β) × Outcome (Reply β)}
    (turn : w.monitor.attempt code party operation = next) :
    Sound { w with monitor := next.1 } (log ++ Channel.notes party operation next.2) := by
  have others := code_of_lasting
    (@Monitor.attempt_calls_ne _ _ _ _ _ code w.monitor party .consumer operation apart.symm)
  have consumer := sound.consumer
  rw [← others, turn] at consumer
  cases isOpen : guard operation w.monitor.state with
  | true =>
    rw [Monitor.attempt_of_open isOpen] at turn
    cases turn
    cases operation with
    | put chunk =>
      exact ⟨sound.kept.run isOpen (sound.kept.told.put chunk isOpen),
        @Fitting.concat _ log (.put chunk) sound.fitting trivial, consumer⟩
    | detach =>
      exact ⟨sound.kept.run isOpen (sound.kept.told.detach party),
        @Fitting.concat _ log (.detach party) sound.fitting trivial, consumer⟩
    | finish error =>
      exact ⟨sound.kept.run isOpen (sound.kept.told.finish error),
        @Fitting.concat _ log (.finish error) sound.fitting trivial, consumer⟩
    | take => cases party <;> cases may
  | false =>
    rw [Monitor.attempt_of_closed isOpen] at turn
    cases turn
    rw [notes_stops, List.append_nil]
    refine ⟨sound.kept.stop isOpen fun _ => ?_, sound.fitting, consumer⟩
    cases operation with
    | put chunk =>
      cases party with
      | producer => exact ⟨rfl, chunk, rfl⟩
      | consumer => exact absurd rfl apart
      | other n => cases may
    | detach => cases isOpen
    | finish error => cases isOpen
    | take => cases party <;> cases may

/-- What a step can do. -/
inductive Change (w : World β) : World β → List (Note β) → Prop
  /-- A call from outside has a turn. -/
  | calls {party : Party} {operation : Operation β}
    {next : Monitor Party (Operation β) (Channel β) × Outcome (Reply β)}
    (apart : party ≠ .consumer) (may : party.mayCall operation = true)
    (turn : w.monitor.attempt code party operation = next) :
    Change w { w with monitor := next.1 } (Channel.notes party operation next.2)
  /-- A call from outside raises its cancellation. -/
  | raises {party : Party} (apart : party ≠ .consumer) :
    Change w { w with monitor := w.monitor.leave party } []
  /-- The generator has a round of its loop. -/
  | round {next : World β × List (Note β)}
    (turn : w.afterTake (w.monitor.attempt code .consumer .take) = next) :
    Change w next.1 next.2
  /-- The generator is closed. -/
  | closes : Change w ⟨w.monitor.run code .consumer .detach, .closed⟩
      [.detach .consumer, .ended .closed]
  /-- The generator raises its cancellation. -/
  | aborts : Change w ⟨(w.monitor.leave .consumer).run code .consumer .detach, .closed⟩
      [.detach .consumer, .ended .cancelled]
  /-- The generator is closed before it has begun. -/
  | unopened (created : w.stream = .created) :
    Change w { w with stream := .closed } [.ended .closed]
  | cancels (party : Party) : Change w { w with monitor := w.monitor.cancel party } []

/-- A call from outside that has stopped and has its turn. -/
theorem Sound.resume (sound : Sound w log) (apart : party ≠ .consumer)
    (turn : w.step (.resume party) = some (w', notes)) : Change w w' notes := by
  have shape : w.step (.resume party) =
      match w.monitor.calls party, w.monitor.resume code party with
      | some call, some (monitor, outcome) =>
        some ({ w with monitor }, Channel.notes party call.code outcome)
      | _, _ => none := by
    cases party with
    | consumer => exact absurd rfl apart
    | producer => rfl
    | other n => rfl
  rw [shape] at turn
  split at turn
  · rename_i call monitor outcome stopped resumed
    cases turn
    obtain ⟨_, same, due⟩ := Monitor.resume_due resumed
    cases stopped.symm.trans same
    obtain ⟨rfl, chunk, put⟩ := sound.kept.waits apart stopped
    rw [sound.kept.quiet.resume_eq stopped due, Option.some.injEq] at resumed
    rw [put] at resumed ⊢
    split at resumed
    · cases resumed
      rw [notes_cancelled]
      exact .raises apart
    · exact .calls apart rfl resumed
  · cases turn

/-- The generator of `stream` has its turn. -/
theorem Sound.resume_consumer (sound : Sound w log)
    (turn : w.step (.resume .consumer) = some (w', notes)) : Change w w' notes := by
  have consumer := sound.consumer
  rw [World.step] at turn
  split at turn
  · obtain ⟨⟨monitor, outcome⟩, resumed, after⟩ := Option.map_eq_some_iff.mp turn
    obtain ⟨call, stopped, due⟩ := Monitor.resume_due resumed
    rename_i taking
    rw [taking, stopped, Stream.Agrees, Option.map_some, Option.some.injEq] at consumer
    rw [sound.kept.quiet.resume_eq stopped due, Option.some.injEq, consumer] at resumed
    split at resumed
    · -- a cancellation leads through the `finally` block
      cases resumed
      rw [World.afterTake, sound.kept.leave.leave_eq] at after
      cases after
      exact .aborts
    · rw [← resumed] at after
      exact .round after
  · rename_i closing
    rw [closing] at consumer
    exact consumer.elim
  · cases turn

/-- Every step is one of the changes. -/
theorem Sound.changes (sound : Sound w log) {event : Event β}
    (turn : w.step event = some (w', notes)) : Change w w' notes := by
  cases event with
  | call party operation =>
    rw [World.step] at turn
    split at turn
    · rename_i may
      rw [sound.kept.quiet.enter_eq] at turn
      cases turn
      have apart : party ≠ .consumer := by
        rintro rfl
        exact nomatch may.1
      exact .calls apart may.1 rfl
    · cases turn
  | next =>
    rw [World.step] at turn
    split at turn
    · rw [sound.kept.quiet.enter_eq, Option.some.injEq] at turn
      exact .round turn
    · rw [sound.kept.quiet.enter_eq, Option.some.injEq] at turn
      exact .round turn
    · cases turn
  | close =>
    rw [World.step] at turn
    split at turn
    · rename_i created
      cases turn
      exact .unopened created
    · rw [sound.kept.leave_eq] at turn
      cases turn
      exact .closes
    · cases turn
  | resume party =>
    by_cases apart : party = .consumer
    · subst apart
      exact sound.resume_consumer turn
    · exact sound.resume apart turn
  | cancel party =>
    cases turn
    exact .cancels party

/-- Every step keeps the channel as its history tells. -/
theorem Sound.step (sound : Sound w log) (change : Change w w' notes) :
    Sound w' (log ++ notes) := by
  have consumer := sound.consumer
  cases change with
  | calls apart may turn => exact sound.attempt apart may turn
  | raises apart =>
    rw [List.append_nil]
    refine ⟨sound.kept.leave, sound.fitting, ?_⟩
    rw [Monitor.leave_calls_ne apart.symm]
    exact consumer
  | round turn => exact sound.kept.afterTake sound.fitting turn
  | closes => exact sound.kept.left sound.fitting trivial
  | aborts => exact sound.kept.leave.left sound.fitting trivial
  | unopened created =>
    rw [created] at consumer
    exact ⟨{ sound.kept with told := sound.kept.told.over .closed },
      sound.fitting.concat trivial, consumer⟩
  | cancels party =>
    rw [List.append_nil]
    refine ⟨sound.kept.cancel, sound.fitting, ?_⟩
    have same : ((w.monitor.cancel party).calls .consumer).map Call.code =
        (w.monitor.calls .consumer).map Call.code := by
      by_cases self : Party.consumer = party
      · subst self
        rw [Monitor.cancel_calls_self, Option.map_map]
        congr 1
        funext call
        exact Call.cancel_code
      · rw [Monitor.cancel_calls_ne self]
    rw [same]
    exact consumer

theorem sound_start : Sound ({} : World β) [] where
  kept := ⟨⟨rfl, rfl, nofun⟩, nofun, told_start, nofun⟩
  fitting := fitting_nil
  consumer := rfl

theorem Run.sound (run : Run w log) : Sound w log := by
  induction run with
  | start => exact sound_start
  | step run event turn ih => exact ih.step (ih.changes turn)

end Sound

/-! ### What the channel promises -/

/-- The next turn of the consumer. -/
def World.turn (w : World β) : Option (World β × List (Note β)) :=
  match w.stream with
  | .taking => w.step (.resume .consumer)
  | _ => w.step .next

/-- The consumer reads on, while the others do nothing. -/
def World.readOn : ℕ → World β → Option (World β × List (Note β))
  | 0, w => some (w, [])
  | n + 1, w => w.turn.bind fun next =>
      (next.1.readOn n).map fun last => (last.1, next.2 ++ last.2)

/-- What is promised of a state and of the history that led to it. -/
structure Delivery (w : World β) (log : List (Note β)) : Prop where
  /-- The consumer has got a prefix of what was put. -/
  inOrder : taken log <+: puts log
  bounded : w.monitor.state.chunks.length ≤ 8
  /-- Nothing is delivered behind a `detach`. -/
  silent : ∀ before party after, log = before ++ .detach party :: after → taken after = []
  /-- Of the methods, only `put` ever waits. -/
  onlyPuts : ∀ party call, party ≠ .consumer → w.monitor.calls party = some call →
    ∃ chunk, call.code = .put chunk
  /-- Nobody waits for what holds already, unless a turn is due. -/
  alert : ∀ party call, w.monitor.calls party = some call → call.due = false →
    guard call.code w.monitor.state = false
  /-- Behind a `detach`, a call that has stopped is due and ends with its turn. -/
  unblocked : Detached log → ∀ party, party ≠ .consumer → (w.monitor.calls party).isSome →
    ∃ w' notes, w.step (.resume party) = some (w', notes) ∧ w'.monitor.calls party = none
  /-- Behind a `detach`, a call ends at once. -/
  atOnce : Detached log → ∀ party operation w' notes,
    w.step (.call party operation) = some (w', notes) → w'.monitor.calls party = none
  /-- The consumer sees an error if the first `finish` has given it, when all has been delivered. -/
  raised : ∀ before error after, log = before ++ .ended (.raised error) :: after →
    ∃ front, before = front ++ [.detach .consumer] ∧
      (finishes front).head? = some (some error) ∧
        (¬ Detached front → taken front = puts front)
  /-- The consumer sees no error if the first `finish` has given none, when all has been
  delivered. -/
  returned : ∀ before after, log = before ++ .ended .returned :: after →
    ∃ front error, before = front ++ [.detach .consumer] ∧
      (finishes front).head? = some error ∧ Ending.of error = .returned ∧
        (¬ Detached front → taken front = puts front)
  /-- The channel is empty when the error is raised. -/
  emptied : ∀ event w' notes error, w.step event = some (w', notes) →
    .ended (.raised error) ∈ notes → w.monitor.state.chunks = []
  /-- After a `finish`, a consumer that reads on gets all that was put, and then the end. -/
  complete : ∀ error, (finishes log).head? = some error → ¬ Detached log → w.stream ≠ .closed →
    (∀ call, w.monitor.calls .consumer = some call → call.raises = false) →
    ∃ w' notes, w.readOn (w.monitor.state.chunks.length + 1) =
        some (w', notes ++ [.detach .consumer, .ended (.of error)]) ∧
      taken (log ++ notes) = puts (log ++ notes) ∧ puts notes = []

section Delivery

variable {w w' : World β} {log notes : List (Note β)} {party : Party}

/-- A turn of the consumer is a round of its loop, once there is something to take. -/
theorem Sound.turn_eq (sound : Sound w log) (ready : guard .take w.monitor.state = true)
    (reading : w.stream ≠ .closed)
    (calm : ∀ call, w.monitor.calls .consumer = some call → call.raises = false) :
    w.turn = some (w.afterTake (w.monitor.attempt code .consumer .take)) := by
  have consumer := sound.consumer
  rw [World.turn]
  cases stream : w.stream with
  | closed => exact absurd stream reading
  | closing ending =>
    rw [stream] at consumer
    exact consumer.elim
  | taking =>
    rw [stream] at consumer
    obtain ⟨call, stopped, here⟩ := Option.map_eq_some_iff.mp consumer
    have due : call.due = true := by
      rw [← Bool.not_eq_false]
      intro idle
      have closed := sound.kept.alert _ _ stopped idle
      rw [here] at closed
      exact nomatch ready.symm.trans closed
    simp only [World.step, stream]
    rw [sound.kept.quiet.resume_eq stopped due, calm call stopped, here]
    rfl
  | created =>
    simp only [World.step, stream]
    rw [sound.kept.quiet.enter_eq]
  | yielding =>
    simp only [World.step, stream]
    rw [sound.kept.quiet.enter_eq]

/-- After a `finish`, the consumer gets what the channel holds, and then the end. -/
theorem Sound.readOn (sound : Sound w log) (ended : w.monitor.state.ended = true)
    (reading : w.stream ≠ .closed)
    (calm : ∀ call, w.monitor.calls .consumer = some call → call.raises = false) :
    ∃ w', w.readOn (w.monitor.state.chunks.length + 1) = some (w',
      w.monitor.state.chunks.map .got ++
        [.detach .consumer, .ended (.of w.monitor.state.error)]) := by
  generalize chunks : w.monitor.state.chunks = left
  induction left generalizing w log with
  | nil =>
    have turn := sound.turn_eq (by simp [guard, ended]) reading calm
    rw [sound.kept.afterTake_end chunks ended] at turn
    rw [List.length_nil, World.readOn, turn]
    exact ⟨_, rfl⟩
  | cons chunk rest ih =>
    have turn := sound.turn_eq (by simp [guard, ended]) reading calm
    have after := sound.kept.afterTake sound.fitting (afterTake_chunk (w := w) chunks)
    rw [afterTake_chunk chunks] at turn
    have left : (w.monitor.run code .consumer .take).state.chunks = rest := by
      rw [Monitor.run_state]
      simp only [code, body, chunks, List.tail_cons]
    obtain ⟨last, rounds⟩ := ih after (by rw [Monitor.run_state]; exact ended) nofun
      (by intro call here; rw [Monitor.run_calls_self] at here; cases here) left
    refine ⟨last, ?_⟩
    rw [List.length_cons, World.readOn, turn, Option.bind_some, rounds, Monitor.run_state]
    rfl

/-- Behind a `detach` every method may run. -/
theorem guard_of_detached {c : Channel β} {operation : Operation β} (detached : c.detached = true)
    (may : party.mayCall operation = true) : guard operation c = true := by
  cases operation with
  | put chunk => simp [guard, detached]
  | detach => rfl
  | finish error => rfl
  | take => cases party <;> cases may

/-- Behind a `detach`, a call that has stopped is due and ends with its turn. -/
theorem Sound.unblocked (sound : Sound w log) (detached : Detached log) (apart : party ≠ .consumer)
    (stopped : (w.monitor.calls party).isSome) :
    ∃ w' notes, w.step (.resume party) = some (w', notes) ∧ w'.monitor.calls party = none := by
  obtain ⟨call, stopped⟩ := Option.isSome_iff_exists.mp stopped
  obtain ⟨rfl, chunk, put⟩ := sound.kept.waits apart stopped
  have isOpen : guard call.code w.monitor.state = true := by
    rw [put]
    exact @guard_of_detached _ .producer _ _ (sound.kept.told.detached.mpr detached) rfl
  have due : call.due = true := by
    rw [← Bool.not_eq_false]
    intro idle
    exact nomatch isOpen.symm.trans (sound.kept.alert _ _ stopped idle)
  have turn := @Monitor.Quiet.resume_eq _ _ _ _ _ code _ _ _ sound.kept.quiet stopped due
  simp only [World.step, stopped, turn]
  refine ⟨_, _, rfl, ?_⟩
  split
  · exact Monitor.leave_calls_self
  · rw [Monitor.attempt_of_open isOpen]
    exact Monitor.run_calls_self

/-- Behind a `detach`, a call ends at once. -/
theorem Sound.atOnce (sound : Sound w log) (detached : Detached log) {operation : Operation β}
    (turn : w.step (.call party operation) = some (w', notes)) :
    w'.monitor.calls party = none := by
  rw [World.step] at turn
  split at turn
  · rename_i may
    have isOpen := guard_of_detached (sound.kept.told.detached.mpr detached) may.1
    rw [sound.kept.quiet.enter_eq, Monitor.attempt_of_open isOpen] at turn
    cases turn
    exact Monitor.run_calls_self
  · cases turn

/-- The channel is empty when the error is raised. -/
theorem Change.emptied {error : String} (change : Change w w' notes)
    (raised : .ended (.raised error) ∈ notes) : w.monitor.state.chunks = [] := by
  cases change with
  | @calls party operation next apart may turn =>
    obtain ⟨m, outcome⟩ := next
    cases operation <;> cases outcome <;> simp [Channel.notes] at raised
  | raises apart => cases raised
  | round turn =>
    cases chunks : w.monitor.state.chunks with
    | nil => rfl
    | cons chunk rest =>
      rw [afterTake_chunk chunks] at turn
      rw [← turn] at raised
      simp at raised
  | closes => simp at raised
  | aborts => simp at raised
  | unopened created => simp at raised
  | cancels party => cases raised

/-- After a `finish`, a consumer that reads on gets all that was put, and then the end. -/
theorem Sound.complete (sound : Sound w log) {error : Option String}
    (first : (finishes log).head? = some error) (attached : ¬ Detached log)
    (reading : w.stream ≠ .closed)
    (calm : ∀ call, w.monitor.calls .consumer = some call → call.raises = false) :
    ∃ w' notes, w.readOn (w.monitor.state.chunks.length + 1) =
        some (w', notes ++ [.detach .consumer, .ended (.of error)]) ∧
      taken (log ++ notes) = puts (log ++ notes) ∧ puts notes = [] := by
  have ended : w.monitor.state.ended = true := by
    rw [sound.kept.told.ended]
    cases here : finishes log with
    | nil =>
      rw [here] at first
      cases first
    | cons _ _ => rfl
  have same : w.monitor.state.error = error := by
    rw [sound.kept.told.error, first, Option.join_some]
  obtain ⟨last, rounds⟩ := sound.readOn ended reading calm
  rw [same] at rounds
  have got (chunks : List β) : taken (chunks.map .got) = chunks ∧ puts (chunks.map .got) = [] := by
    induction chunks with
    | nil => exact ⟨rfl, rfl⟩
    | cons chunk rest ih => exact ⟨congrArg (chunk :: ·) ih.1, ih.2⟩
  refine ⟨last, _, rounds, ?_, (got _).2⟩
  rw [taken_append, puts_append, (got _).1, (got _).2, List.append_nil,
    sound.kept.told.waiting attached]

/-- In every run, the channel delivers. -/
theorem delivers (run : Run w log) : Delivery w log where
  inOrder := run.sound.kept.told.prefix
  bounded := run.sound.kept.told.bounded
  silent before party after shape := by
    have fitting := run.sound.fitting
    rw [shape] at fitting
    exact fitting.taken_of_detach
  onlyPuts party call apart stopped := (run.sound.kept.waits apart stopped).2
  alert := run.sound.kept.alert
  unblocked detached party apart stopped := run.sound.unblocked detached apart stopped
  atOnce detached party operation w' notes turn := run.sound.atOnce detached turn
  raised before error after shape := run.sound.fitting before (.ended (.raised error)) after shape
  returned before after shape := run.sound.fitting before (.ended .returned) after shape
  emptied event w' notes error turn raised := (run.sound.changes turn).emptied raised
  complete error first attached reading calm := run.sound.complete first attached reading calm

/-- What happens at some events, one after the other. -/
def World.play (w : World β) : List (Event β) → Option (World β × List (Note β))
  | [] => some (w, [])
  | event :: events => (w.step event).bind fun next =>
      (next.1.play events).map fun last => (last.1, next.2 ++ last.2)

theorem Run.play {last : World β} {notes : List (Note β)} (run : Run w log)
    (events : List (Event β)) (played : w.play events = some (last, notes)) :
    Run last (log ++ notes) := by
  induction events generalizing w log notes with
  | nil =>
    cases played
    rwa [List.append_nil]
  | cons event events ih =>
    obtain ⟨⟨w', first⟩, turn, later⟩ := Option.bind_eq_some_iff.mp played
    obtain ⟨⟨_, more⟩, rest, same⟩ := Option.map_eq_some_iff.mp later
    cases same
    rw [← List.append_assoc]
    exact ih (run.step event turn) rest

/-- The reader falls behind, so that the ninth `put` waits for it. The producer gives an error
before the reader has got what is left. -/
theorem delivers_sample : ∃ (w : World ℕ) (log : List (Note ℕ)), Run w log ∧ Delivery w log ∧
    log = (List.range 8).map .put ++ [.got 0, .put 8, .got 1, .finish (some "cut")] ++
      (List.range' 2 7).map .got ++ [.detach .consumer, .ended (.raised "cut")] := by
  -- eight chunks fill the channel, and the ninth waits; each chunk that is read lets
  -- the producer go on
  have run := (Run.start (β := ℕ)).play
    ((List.range 9).map (fun n => .call .producer (.put n)) ++
      [.next, .resume .producer, .next, .call .producer (.finish (some "cut"))] ++
      List.replicate 8 .next) rfl
  exact ⟨_, _, run, delivers run, rfl⟩

end Delivery

end Channel
end IntramindRuntime.Proxy
