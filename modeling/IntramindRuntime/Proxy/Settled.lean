import IntramindRuntime.Proxy.Attempt
import IntramindRuntime.Scheduling.Settlement

/-!
# How an attempt is settled

An attempt ends in one of three ways, and so does its permit: it is given back because the compute
has terminated, it is given back because nothing was sent, or it stays held. What `_attempt`
returns, the flags that it keeps, and what the engine has really done must agree on the way. An
attempt that is cancelled returns nothing, but it is settled by the same flags.

## Main definitions

* `Proven` — the engine has proven that the compute has terminated
* `NotReached` — the engine has not been reached, or it was still loading
* `Making` — what the process does while an attempt is made

## Main results

* `attempt_flags` — the flags of an attempt agree with what the engine has done
* `attempt_settled` — the permit agrees with what the attempt returns, and with the engine
-/

namespace IntramindRuntime.Proxy

open Library
open Scheduling (DirectReservation DirectCall MemoryScheduler Clock Process)

/-- An interruption after the head of an answer: no connection is made any more, and the cutoff is
not checked any more. -/
def Interruption.Late (interruption : Interruption) : Prop :=
  interruption ≠ .connection ∧ ∀ reason, interruption ≠ .deferred reason

/-- Connections fail when they are made, and attempts are deferred before they are sent. -/
structure Exchange.Ordinary (exchange : Exchange) : Prop where
  head : ∀ interruption, exchange.head = .error interruption →
    ∀ reason, interruption ≠ .deferred reason
  started : ∀ interruption ∈ exchange.started, interruption.Late
  parts : ∀ part ∈ exchange.parts, ∀ stopped ∈ part.interrupted, stopped.2.Late
  stop : ∀ interruption ∈ exchange.stop, interruption.Late
  answer : ∀ stopped ∈ exchange.answer, stopped.2.Late
  exit : ∀ interruption ∈ exchange.exit, interruption.Late

section Settled

variable (endpoint : Endpoint) (reservation : DirectReservation) (streaming : Bool)

/-- The engine has proven that the compute has terminated. -/
def Proven (head : Head) (exchange : Exchange) : Prop :=
  if endpoint.kind = .llm then
    head.status ∈ terminalStatuses ∨ head.status = 200 ∧
      if streaming then ∃ line ∈ (frames newline exchange.received).1, IsDone line
      else exchange.stop = none
  else confirmed endpoint reservation head

/-- The engine has not been reached, has refused the connection, or was still loading. -/
def NotReached (exchange : Exchange) : Prop :=
  exchange.before.isSome ∨ exchange.head = .error .connection ∨
    ∃ head, exchange.head = .ok head ∧ endpoint.kind = .llm ∧ head.status = 503 ∧
      ascii "Loading model" <+: exchange.received

/-- The flags of a try agree with what it returns, and with what the engine has done. -/
structure Trial.Sound (proven notReached : Prop)
    (after : Trial × Except Interruption (String × Option String)) : Prop where
  proven : after.1.terminated = true → proven
  reached : after.1.sent = false → notReached
  returned : ∀ result, after.2 = .ok result →
    result.1 = "done" ∧ after.1.terminated = true ∨
    result.1 = "not_sent" ∧ after.1.terminated = false ∧ after.1.sent = false ∨
    result.1 = "unknown" ∧ after.1.terminated = false ∧ after.1.sent = true
  late : ∀ interruption, after.2 = .error interruption → interruption.Late

variable {endpoint reservation streaming}

theorem late_failed : Interruption.Late .failed := by
  constructor
  · decide
  · intro reason same
    cases same

/-! ### The loop over the parts -/

theorem put_flags (trial : Trial) (pieces : List (List UInt8))
    (interrupted : Option (ℕ × Interruption)) :
    (trial.put pieces interrupted).1.terminated = trial.terminated ∧
      (trial.put pieces interrupted).1.sent = trial.sent ∧
      ∀ interruption ∈ (trial.put pieces interrupted).2, ∃ n,
        interrupted = some (n, interruption) := by
  cases interrupted with
  | none => exact ⟨rfl, rfl, fun _ never => by cases never⟩
  | some stopped =>
    rw [Trial.put]
    split
    · refine ⟨rfl, rfl, ?_⟩
      rintro interruption ⟨⟩
      exact ⟨_, rfl⟩
    · exact ⟨rfl, rfl, fun _ never => by cases never⟩

/-- What the loop has found in a text, as far as it has come. -/
structure Loop.Found (streaming : Bool) (status : ℕ) (start : Trial) (text : List UInt8)
    (loop : Loop) : Prop where
  terminated : loop.trial.terminated = true → start.terminated = true ∨
    (streaming && status = 200) = true ∧ ∃ line ∈ (frames newline text).1, IsDone line
  sent : loop.trial.sent = start.sent

/-- The unfinished line of a stream waits. -/
def Loop.Waits (streaming : Bool) (status : ℕ) (text : List UInt8) (loop : Loop) : Prop :=
  (streaming && status = 200) = true → loop.pending = (frames newline text).2

theorem done_append {text : List UInt8} (more : List UInt8)
    (done : ∃ line ∈ (frames newline text).1, IsDone line) :
    ∃ line ∈ (frames newline (text ++ more)).1, IsDone line := by
  obtain ⟨line, member, marker⟩ := done
  rw [frames_append]
  exact ⟨line, List.mem_append_left _ member, marker⟩

theorem Loop.Found.append {status : ℕ} {start : Trial} {text : List UInt8} {loop : Loop}
    (found : loop.Found streaming status start text) (more : List UInt8) :
    loop.Found streaming status start (text ++ more) :=
  ⟨fun terminated => (found.terminated terminated).imp_right fun ⟨stream, done⟩ =>
    ⟨stream, done_append more done⟩, found.sent⟩

variable (endpoint) in
theorem receive_found {status : ℕ} {start : Trial} {text : List UInt8} {loop : Loop}
    (found : loop.Found streaming status start text) (waits : loop.Waits streaming status text)
    (part : Part) (ordinary : ∀ stopped ∈ part.interrupted, stopped.2.Late) :
    (loop.receive endpoint streaming status part).1.Found streaming status start
        (text ++ part.bytes) ∧
      ((loop.receive endpoint streaming status part).2 = none →
        (loop.receive endpoint streaming status part).1.Waits streaming status
          (text ++ part.bytes)) ∧
      ∀ interruption ∈ (loop.receive endpoint streaming status part).2, interruption.Late := by
  have later := found.append part.bytes
  rw [Loop.receive]
  dsimp only
  split
  · refine ⟨⟨later.terminated, later.sent⟩, (fun never => by cases never), ?_⟩
    rintro interruption ⟨⟩
    exact late_failed
  split
  · rename_i stream
    have more := frames_append newline text part.bytes
    rw [← waits stream] at more
    have rest : (frames newline (loop.pending ++ part.bytes)).2 =
        (frames newline (text ++ part.bytes)).2 := by
      rw [more]
    split
    · refine ⟨⟨later.terminated, later.sent⟩, (fun never => by cases never), ?_⟩
      rintro interruption ⟨⟩
      exact late_failed
    · let trial : Trial :=
        { loop.trial with
          terminated := loop.trial.terminated ||
            (frames newline (loop.pending ++ part.bytes)).1.any isDoneLine }
      obtain ⟨terminated, sent, stopped⟩ := put_flags trial (pieces part.bytes) part.interrupted
      refine ⟨⟨?_, sent.trans found.sent⟩, fun _ _ => rest, ?_⟩
      · intro now
        rw [terminated, Bool.or_eq_true] at now
        rcases now with before | done
        · exact later.terminated before
        · obtain ⟨line, member, marker⟩ := List.any_eq_true.mp done
          refine .inr ⟨stream, line, ?_, isDoneLine_iff.mp marker⟩
          rw [more]
          exact List.mem_append_right _ member
      · intro interruption there
        obtain ⟨n, is⟩ := stopped interruption there
        exact ordinary _ is
  · rename_i plain
    refine ⟨⟨later.terminated, later.sent⟩, fun _ stream => absurd stream plain, ?_⟩
    rintro interruption ⟨⟩

variable (endpoint) in
theorem receiveAll_found {status : ℕ} {start : Trial} {text : List UInt8} {loop : Loop}
    (found : loop.Found streaming status start text) (waits : loop.Waits streaming status text)
    {parts : List Part}
    (ordinary : ∀ part ∈ parts, ∀ stopped ∈ part.interrupted, stopped.2.Late) :
    (loop.receiveAll endpoint streaming status parts).1.Found streaming status start
        (text ++ (parts.map Part.bytes).flatten) ∧
      ∀ interruption ∈ (loop.receiveAll endpoint streaming status parts).2,
        interruption.Late := by
  induction parts generalizing loop text with
  | nil =>
    rw [List.map_nil, List.flatten_nil, List.append_nil]
    exact ⟨found, nofun⟩
  | cons part rest ih =>
    obtain ⟨here, later⟩ := List.forall_mem_cons.mp ordinary
    obtain ⟨next, goes, late⟩ := receive_found endpoint found waits part here
    rw [List.map_cons, List.flatten_cons, ← List.append_assoc, Loop.receiveAll]
    split
    · rename_i interruption stopped
      refine ⟨next.append _, ?_⟩
      rintro other ⟨⟩
      exact late _ stopped
    · rename_i on
      exact ih next (goes on) later

/-! ### The flags -/

theorem Trial.Sound.interrupted {proven notReached : Prop} {trial : Trial}
    {interruption : Interruption} (late : interruption.Late)
    (terminated : trial.terminated = true → proven) (sent : trial.sent = true) :
    Trial.Sound proven notReached (trial, .error interruption) where
  proven := terminated
  reached := fun unsent => absurd (sent.symm.trans unsent) (by decide)
  returned := nofun
  late := by
    rintro other ⟨⟩
    exact late

theorem Trial.Sound.unknown {proven notReached : Prop} {trial : Trial} {reason : Option String}
    (terminated : trial.terminated = false) (sent : trial.sent = true) :
    Trial.Sound proven notReached (trial, .ok ("unknown", reason)) where
  proven := fun found => absurd (terminated.symm.trans found) (by decide)
  reached := fun unsent => absurd (sent.symm.trans unsent) (by decide)
  returned := by
    rintro result ⟨⟩
    exact .inr (.inr ⟨rfl, terminated, sent⟩)
  late := nofun

theorem Trial.Sound.finished {proven notReached : Prop} {trial : Trial} {reason : Option String}
    (terminated : trial.terminated = true) (sent : trial.sent = true) (holds : proven) :
    Trial.Sound proven notReached (trial, .ok ("done", reason)) where
  proven := fun _ => holds
  reached := fun unsent => absurd (sent.symm.trans unsent) (by decide)
  returned := by
    rintro result ⟨⟩
    exact .inl ⟨rfl, terminated⟩
  late := nofun

/-- The answer is put, and then the attempt is done, unless it is interrupted. -/
theorem sound_put {proven notReached : Prop} {trial : Trial} {pieces : List (List UInt8)}
    {answer : Option (ℕ × Interruption)} (ordinary : ∀ stopped ∈ answer, stopped.2.Late)
    (terminated : trial.terminated = true) (sent : trial.sent = true) (holds : proven) :
    Trial.Sound proven notReached
      (match (trial.put pieces answer).2 with
        | some interruption => ((trial.put pieces answer).1, .error interruption)
        | none => ((trial.put pieces answer).1, .ok ("done", none))) := by
  obtain ⟨same, same', stopped⟩ := put_flags trial pieces answer
  split
  · rename_i interruption there
    obtain ⟨n, is⟩ := stopped interruption there
    exact .interrupted (ordinary _ is) (fun _ => holds) (same'.trans sent)
  · exact .finished (same.trans terminated) (same'.trans sent) holds

theorem body_sound {head : Head} {exchange : Exchange} (ordinary : exchange.Ordinary)
    {start : Trial} (sent : start.sent = true)
    (from_head : start.terminated = true → Proven endpoint reservation streaming head exchange)
    (answered : endpoint.kind = .llm → head.status ∈ 200 :: terminalStatuses)
    (native : endpoint.kind ≠ .llm → start.terminated = true)
    {notReached : Prop} :
    Trial.Sound (Proven endpoint reservation streaming head exchange) notReached
      (body endpoint reservation streaming head exchange start) := by
  have begins : ({ trial := start } : Loop).Found streaming head.status start [] :=
    ⟨.inl, rfl⟩
  have waits : ({ trial := start } : Loop).Waits streaming head.status [] := fun _ => by
    rw [frames_of_none rfl]
  obtain ⟨found, late⟩ := receiveAll_found endpoint begins waits ordinary.parts
  rw [List.nil_append] at found
  rw [body]
  generalize ({ trial := start } : Loop).receiveAll endpoint streaming head.status exchange.parts =
    received at found late ⊢
  obtain ⟨loop, stopped⟩ := received
  have proven (terminated : loop.trial.terminated = true) :
      Proven endpoint reservation streaming head exchange := by
    rcases found.terminated terminated with before | ⟨stream, done⟩
    · exact from_head before
    · by_cases llm : endpoint.kind = .llm
      · obtain ⟨streams, ok⟩ : streaming = true ∧ head.status = 200 := by simpa using stream
        rw [Proven, if_pos llm, if_pos streams]
        exact .inr ⟨ok, done⟩
      · exact from_head (native llm)
  dsimp only
  split
  · rename_i interruption stops
    refine .interrupted ?_ proven (found.sent.trans sent)
    rcases Option.or_eq_some_iff.mp stops with inside | ⟨-, behind⟩
    · exact late _ inside
    · exact ordinary.stop _ behind
  · rename_i whole
    obtain ⟨-, complete⟩ := Option.or_eq_none_iff.mp whole
    have facts : ∀ trial, trial = (if endpoint.kind = .llm && !streaming then
        { loop.trial with terminated := head.status ∈ 200 :: terminalStatuses }
        else loop.trial) → trial.sent = true ∧
        (trial.terminated = true → Proven endpoint reservation streaming head exchange) := by
      rintro trial rfl
      split
      · rename_i plain
        obtain ⟨llm, reads⟩ : endpoint.kind = .llm ∧ streaming = false := by simpa using plain
        refine ⟨found.sent.trans sent, fun _ => ?_⟩
        rw [Proven, if_pos llm, reads, if_neg (by simp)]
        rcases List.mem_cons.mp (answered llm) with ok | refused
        · exact .inr ⟨ok, complete⟩
        · exact .inl refused
      · exact ⟨found.sent.trans sent, proven⟩
    obtain ⟨issent, holds⟩ := facts _ rfl
    generalize (if endpoint.kind = .llm && !streaming then
        { loop.trial with terminated := head.status ∈ 200 :: terminalStatuses }
        else loop.trial) = trial at issent holds ⊢
    split
    · rename_i unproven
      exact .unknown (by simpa using unproven) issent
    rename_i terminated
    have terminated : trial.terminated = true := by simpa using terminated
    split
    · exact .interrupted late_failed holds issent
    split
    · split
      · exact sound_put ordinary.answer terminated issent (holds terminated)
      · exact .finished terminated issent (holds terminated)
    · exact sound_put ordinary.answer terminated issent (holds terminated)

theorem respond_sound {head : Head} {exchange : Exchange} (ordinary : exchange.Ordinary)
    (answers : exchange.head = .ok head) :
    Trial.Sound (Proven endpoint reservation streaming head exchange)
      (NotReached endpoint exchange)
      (respond endpoint reservation streaming head exchange { sent := true }) := by
  rw [respond]
  dsimp only
  split
  · exact .interrupted late_failed (fun never => by cases never) rfl
  rename_i contract
  -- a native endpoint has met its contract
  have native (other : endpoint.kind ≠ .llm) :
      Proven endpoint reservation streaming head exchange := by
    rw [Proven, if_neg other]
    simpa [other] using contract
  have from_native (other : decide (endpoint.kind ≠ .llm) = true) :
      Proven endpoint reservation streaming head exchange := native (of_decide_eq_true other)
  split
  · exact .interrupted late_failed from_native rfl
  split
  · rename_i loading
    obtain ⟨llm, status⟩ : endpoint.kind = .llm ∧ head.status = 503 := by simpa using loading
    split
    · rename_i interruption stops
      exact .interrupted (ordinary.stop _ stops) from_native rfl
    · have unproven : decide (endpoint.kind ≠ .llm) = false := by simp [llm]
      split
      · rename_i still
        refine ⟨from_native, fun _ => ?_, ?_, fun _ never => by cases never⟩
        · exact .inr (.inr ⟨head, answers, llm, status, List.isPrefixOf_iff_prefix.mp still⟩)
        · rintro result ⟨⟩
          exact .inr (.inl ⟨rfl, unproven, rfl⟩)
      · exact .unknown unproven rfl
  split
  · rename_i refused
    obtain ⟨llm, -⟩ : endpoint.kind = .llm ∧ head.status ∉ 200 :: terminalStatuses := by
      simpa using refused
    exact .unknown (by simp [llm]) rfl
  rename_i accepted
  split
  · rename_i interruption tells
    split at tells
    · exact .interrupted (ordinary.started _ tells) from_native rfl
    · cases tells
  · refine body_sound ordinary rfl (fun terminated => ?_) (fun llm => ?_) fun other => ?_
    · rcases Bool.or_eq_true_iff.mp terminated with other | refused
      · exact from_native other
      · obtain ⟨llm, status⟩ : endpoint.kind = .llm ∧ head.status ∈ terminalStatuses := by
          simpa using refused
        rw [Proven, if_pos llm]
        exact .inl status
    · by_contra outside
      exact accepted (by simpa [llm] using outside)
    · simp [other]

theorem trial_sound {exchange : Exchange} (ordinary : exchange.Ordinary)
    (reached : exchange.before = none) {head : Head} (answers : exchange.head = .ok head) :
    Trial.Sound (Proven endpoint reservation streaming head exchange)
      (NotReached endpoint exchange) (trial endpoint reservation streaming exchange) := by
  have sound := @respond_sound endpoint reservation streaming head exchange ordinary answers
  rw [trial, reached, answers]
  dsimp only
  split
  · rename_i interruption leaves
    refine ⟨sound.proven, sound.reached, (fun _ never => by cases never), ?_⟩
    rintro other ⟨⟩
    exact ordinary.exit _ leaves
  · exact sound

/-! ### The handlers -/

/-- The engine has been sent the attempt, and has proven that its compute has terminated. -/
def Terminated (endpoint : Endpoint) (reservation : DirectReservation) (streaming : Bool)
    (exchange : Exchange) : Prop :=
  exchange.before = none ∧ ∃ head, exchange.head = .ok head ∧
    Proven endpoint reservation streaming head exchange

/-- The flags with which an attempt ends agree with what it returns, and with what the engine has
done. -/
structure Flags (terminated notReached : Prop) (trial : Trial)
    (returned : Option (String × Option String)) : Prop where
  terminated : trial.terminated = true → terminated
  unsent : trial.sent = false → notReached
  returned : ∀ result ∈ returned,
    result.1 ∈ ["done", "terminal_error"] ∧ trial.terminated = true ∨
    result.1 ∈ ["not_sent", "deferred"] ∧ trial.terminated = false ∧ trial.sent = false ∨
    result.1 = "unknown" ∧ trial.terminated = false ∧ trial.sent = true

/-- After the head of the answer, no handler changes a flag. -/
theorem handle_flags {terminated notReached : Prop} {trial : Trial} {interruption : Interruption}
    (late : interruption.Late) (proven : trial.terminated = true → terminated)
    (unsent : trial.sent = false → notReached) :
    Flags terminated notReached (handle trial interruption).1 (handle trial interruption).2 := by
  have flags {error : Option String} :
      Flags terminated notReached { trial with error := error }
        (some (if trial.terminated then "terminal_error" else
          if !trial.sent then "not_sent" else "unknown", error)) := by
    refine ⟨proven, unsent, ?_⟩
    rintro result ⟨⟩
    cases isOver : trial.terminated with
    | true => exact .inl ⟨List.mem_cons_of_mem _ List.mem_cons_self, rfl⟩
    | false =>
      cases sent : trial.sent with
      | true => exact .inr (.inr ⟨rfl, rfl, rfl⟩)
      | false => exact .inr (.inl ⟨List.mem_cons_self, rfl, rfl⟩)
  cases interruption with
  | deferred reason => exact absurd rfl (late.2 reason)
  | connection => exact absurd rfl late.1
  | cancelled => exact ⟨proven, unsent, nofun⟩
  | timeout | failed => exact flags

/-- An attempt that is not sent. -/
theorem handle_unsent {terminated notReached : Prop} (interruption : Interruption)
    (unsent : notReached) :
    Flags terminated notReached (handle {} interruption).1 (handle {} interruption).2 := by
  cases interruption with
  | cancelled => exact ⟨nofun, fun _ => unsent, nofun⟩
  | deferred reason =>
    refine ⟨nofun, fun _ => unsent, ?_⟩
    rintro result ⟨⟩
    exact .inr (.inl ⟨List.mem_cons_of_mem _ List.mem_cons_self, rfl, rfl⟩)
  | connection | timeout | failed =>
    refine ⟨nofun, fun _ => unsent, ?_⟩
    rintro result ⟨⟩
    exact .inr (.inl ⟨List.mem_cons_self, rfl, rfl⟩)

/-- What the handlers make of a try. -/
theorem handled_flags {exchange : Exchange} (ordinary : exchange.Ordinary) :
    let tried := trial endpoint reservation streaming exchange
    let handled :=
      match tried.2 with
      | .ok result => (tried.1, some result)
      | .error interruption => handle tried.1 interruption
    Flags (Terminated endpoint reservation streaming exchange) (NotReached endpoint exchange)
      handled.1 handled.2 := by
  cases unsent : exchange.before with
  | some interruption =>
    have same : trial endpoint reservation streaming exchange = ({}, .error interruption) := by
      rw [trial, unsent]
    rw [same]
    exact handle_unsent interruption (.inl (by rw [unsent]; rfl))
  | none =>
    cases answers : exchange.head with
    | error interruption =>
      have same : trial endpoint reservation streaming exchange =
          ({ sent := true }, .error interruption) := by
        rw [trial, unsent, answers]
      rw [same]
      by_cases refused : interruption = .connection
      · rw [refused]
        refine ⟨(fun never => by cases never), fun _ => .inr (.inl (by rw [answers, refused])), ?_⟩
        rintro result ⟨⟩
        exact .inr (.inl ⟨List.mem_cons_self, rfl, rfl⟩)
      · exact handle_flags ⟨refused, ordinary.head _ answers⟩ (fun never => by cases never)
          fun never => by cases never
    | ok head =>
      have sound := @trial_sound endpoint reservation streaming exchange ordinary unsent head
        answers
      generalize trial endpoint reservation streaming exchange = tried at sound ⊢
      obtain ⟨after, outcome⟩ := tried
      have terminated (flag : after.terminated = true) :
          Terminated endpoint reservation streaming exchange :=
        ⟨unsent, head, answers, sound.proven flag⟩
      cases outcome with
      | ok result =>
        refine ⟨terminated, sound.reached, ?_⟩
        rintro other ⟨⟩
        rcases sound.returned _ rfl with ⟨is, flag⟩ | ⟨is, flags⟩ | ⟨is, flags⟩
        · exact .inl ⟨is ▸ List.mem_cons_self, flag⟩
        · exact .inr (.inl ⟨is ▸ List.mem_cons_self, flags⟩)
        · exact .inr (.inr ⟨is, flags⟩)
      | error interruption => exact handle_flags (sound.late _ rfl) terminated sound.reached

theorem attempt_flags {exchange : Exchange} (ordinary : exchange.Ordinary) :
    Flags (Terminated endpoint reservation streaming exchange) (NotReached endpoint exchange)
      (attempt endpoint reservation streaming exchange).trial
      (attempt endpoint reservation streaming exchange).returned := by
  have flags := @handled_flags endpoint reservation streaming exchange ordinary
  refine ⟨flags.terminated, flags.unsent, fun result returns => flags.returned result ?_⟩
  rw [attempt] at returns
  dsimp only at returns
  split at returns
  · cases returns
  · exact returns

/-! ### The permit -/

/-- The call that settles an attempt. -/
def Settlement.call (reservation : DirectReservation) : Settlement → DirectCall
  | .completedResponse => .finish reservation .completedResponse
  | .notSent => .finish reservation .notSent
  | .unknown _ => .unknown reservation

/-- What the process does while an attempt is made: `mark_send`, if the attempt gets there, the
turns of all others, and the turn that settles the attempt. -/
structure Making where
  mark : Option Clock
  others : List Scheduling.Event
  settled : Clock

namespace Making

variable (making : Making) (p : Process) (reservation : DirectReservation)

def begun : Process :=
  match making.mark with
  | some clock => p.step (.direct clock "" (.markSend reservation))
  | none => p

def ended (settlement : Settlement) : Process :=
  ((making.begun p reservation).after making.others).step
    (.direct making.settled "" (settlement.call reservation))

/-- An attempt that is sent has passed `mark_send`. The others are not about the attempt, and
its pool keeps its epoch. -/
structure Fits (exchange : Exchange) : Prop where
  marked : exchange.before = none → ∃ clock ∈ making.mark,
    (Scheduling.markSend clock reservation).outcome p.scheduler = .ok ()
  others : (making.begun p reservation).Throughout
    (fun p event => event.Spares reservation.attemptId ∧ ¬ p.Renews reservation event)
    making.others

end Making

/-- The attempt has its permit when it is settled, and it has been marked if it is sent. -/
theorem making_holds {p : Process} {making : Making} {exchange : Exchange}
    (holds : p.scheduler.Holds reservation .reserved) (apart : p.Apart reservation.attemptId)
    (fits : making.Fits p reservation exchange) :
    ∃ state, ((making.begun p reservation).after making.others).scheduler.Holds reservation
      state ∧ (exchange.before = none → state = .sendIntent) := by
  obtain ⟨mark, others, settled⟩ := making
  have marked := fits.marked
  have others := fits.others
  cases mark with
  | none =>
    refine ⟨.reserved, Process.after_holds apart holds nofun others, fun sent => ?_⟩
    obtain ⟨clock, is, -⟩ := marked sent
    cases is
  | some clock =>
    have still : (p.step (.direct clock "" (.markSend reservation))).Apart
        reservation.attemptId := ⟨apart.calls, apart.listed⟩
    have begins := holds.marks clock
    by_cases ok : (Scheduling.markSend clock reservation).outcome p.scheduler = .ok ()
    · have begun : (p.step (.direct clock "" (.markSend reservation))).scheduler.Holds
          reservation .sendIntent := begins.1 ok
      exact ⟨.sendIntent, Process.after_holds still begun nofun others, fun _ => rfl⟩
    · have begun : (p.step (.direct clock "" (.markSend reservation))).scheduler.Holds
          reservation .reserved := begins.2 ok
      refine ⟨.reserved, Process.after_holds still begun nofun others, fun sent => ?_⟩
      obtain ⟨clock', is, passes⟩ := marked sent
      cases is
      exact absurd passes ok

variable (endpoint reservation streaming) in
/-- How an attempt is settled agrees with the flags with which it ends. -/
theorem settlement_cases (exchange : Exchange) :
    (attempt endpoint reservation streaming exchange).trial.terminated = true ∧
        (attempt endpoint reservation streaming exchange).settlement = .completedResponse ∨
      (attempt endpoint reservation streaming exchange).trial.terminated = false ∧
        (attempt endpoint reservation streaming exchange).trial.sent = false ∧
        (attempt endpoint reservation streaming exchange).settlement = .notSent ∨
      (attempt endpoint reservation streaming exchange).trial.terminated = false ∧
        (attempt endpoint reservation streaming exchange).trial.sent = true ∧
        ∃ reason, (attempt endpoint reservation streaming exchange).settlement =
          .unknown reason := by
  have same : (attempt endpoint reservation streaming exchange).settlement =
      if (attempt endpoint reservation streaming exchange).trial.terminated ||
          !(attempt endpoint reservation streaming exchange).trial.sent then
        if (attempt endpoint reservation streaming exchange).trial.terminated then
          .completedResponse
        else .notSent
      else .unknown ((attempt endpoint reservation streaming exchange).trial.error.getD
        "direct_response_unconfirmed") := rfl
  rw [same]
  cases (attempt endpoint reservation streaming exchange).trial.terminated with
  | true => exact .inl ⟨rfl, rfl⟩
  | false =>
    cases (attempt endpoint reservation streaming exchange).trial.sent with
    | false => exact .inr (.inl ⟨rfl, rfl, rfl⟩)
    | true => exact .inr (.inr ⟨rfl, rfl, _, rfl⟩)

/-- What an attempt returns, and how its permit is left, agree with what the engine has done. If
it returns that it is done, or an error of the engine, then its permit is given back as finished,
and the compute has been proven to have terminated. If it returns that nothing was sent, or that it
has been deferred, then its permit is given back as not sent, and the engine has not been reached.
If it returns that it is unknown, then the permit stays held, as unknown. An attempt that is
cancelled returns nothing; its permit stays held, unless one of the two others is the case. -/
theorem attempt_settled {p : Process} {making : Making} {exchange : Exchange}
    (ordinary : exchange.Ordinary) (holds : p.scheduler.Holds reservation .reserved)
    (apart : p.Apart reservation.attemptId) (fits : making.Fits p reservation exchange) :
    let tried := attempt endpoint reservation streaming exchange
    let s := (making.ended p reservation tried.settlement).scheduler
    let finished := s.Released reservation .finished ∧
      Terminated endpoint reservation streaming exchange
    let unsent := s.Released reservation .failedNotSent ∧ NotReached endpoint exchange
    (∀ result ∈ tried.returned,
      result.1 ∈ ["done", "terminal_error"] ∧ finished ∨
      result.1 ∈ ["not_sent", "deferred"] ∧ unsent ∨
      result.1 = "unknown" ∧ s.Holds reservation .unknown) ∧
    (tried.returned = none → finished ∨ unsent ∨ s.Holds reservation .unknown) := by
  obtain ⟨state, held, marked⟩ := making_holds holds apart fits
  obtain ⟨terminated, reached, returned⟩ := @attempt_flags endpoint reservation streaming _ ordinary
  dsimp only
  rcases settlement_cases endpoint reservation streaming exchange with
    ⟨isOver, settles⟩ | ⟨isOver, sent, settles⟩ | ⟨isOver, sent, reason, settles⟩
  · -- what is proven to have terminated has been sent
    have finished : ((making.ended p reservation
        (attempt endpoint reservation streaming exchange).settlement).scheduler.Released
          reservation .finished) ∧ Terminated endpoint reservation streaming exchange := by
      have proven := terminated isOver
      have sent : state ≠ .reserved := by
        rw [marked proven.1]
        nofun
      rw [settles]
      exact ⟨(held.finishes .completedResponse fun _ => sent).2, proven⟩
    refine ⟨fun result returns => .inl ?_, fun _ => .inl finished⟩
    rcases returned result returns with ⟨is, -⟩ | ⟨-, not, -⟩ | ⟨-, not, -⟩
    · exact ⟨is, finished⟩
    · exact absurd (not.symm.trans isOver) nofun
    · exact absurd (not.symm.trans isOver) nofun
  · have unsent : ((making.ended p reservation
        (attempt endpoint reservation streaming exchange).settlement).scheduler.Released
          reservation .failedNotSent) ∧ NotReached endpoint exchange := by
      rw [settles]
      exact ⟨(held.finishes .notSent nofun).2, reached sent⟩
    refine ⟨fun result returns => .inr (.inl ?_), fun _ => .inr (.inl unsent)⟩
    rcases returned result returns with ⟨-, yes⟩ | ⟨is, -⟩ | ⟨-, -, yes⟩
    · exact absurd (yes.symm.trans isOver) nofun
    · exact ⟨is, unsent⟩
    · exact absurd (yes.symm.trans sent) nofun
  · have lost : (making.ended p reservation
        (attempt endpoint reservation streaming exchange).settlement).scheduler.Holds
          reservation .unknown := by
      rw [settles]
      exact (held.loses making.settled).2
    refine ⟨fun result returns => .inr (.inr ?_), fun _ => .inr (.inr lost)⟩
    rcases returned result returns with ⟨-, yes⟩ | ⟨-, -, not⟩ | ⟨is, -⟩
    · exact absurd (yes.symm.trans isOver) nofun
    · exact absurd (not.symm.trans sent) nofun
    · exact ⟨is, lost⟩

/-- A process in which a request has got its reservation. -/
def reservedProcess : Process :=
  Scheduling.sampleProcess.after (Scheduling.sampleCalls
    [("", .enqueue (Scheduling.sampleRequest "r") "p" "proxy"),
      ("a", .reserve (Scheduling.sampleRequest "r") "p" "proxy")])

theorem reservedProcess_holds :
    reservedProcess.scheduler.Holds (Scheduling.sampleReservation "a" "r") .reserved := by
  refine ⟨none, ?_, ?_⟩ <;> decide +kernel

theorem reservedProcess_apart : reservedProcess.Apart "a" :=
  ⟨fun _ _ found => (nomatch found), fun _ waits => (nomatch waits)⟩

/-- The attempt is marked, and another request joins the queue before it is settled. -/
def sampleMaking : Making :=
  ⟨some ⟨2, 2⟩, [.direct ⟨3, 3⟩ "b" (.enqueue (Scheduling.sampleRequest "r2") "p" "proxy"),
    .timer ⟨4, 4⟩], ⟨5, 5⟩⟩

theorem sampleMaking_fits (exchange : Exchange) :
    sampleMaking.Fits reservedProcess (Scheduling.sampleReservation "a" "r") exchange := by
  refine ⟨fun _ => ⟨⟨2, 2⟩, rfl, ?_⟩, ⟨?_, id⟩, ⟨trivial, id⟩, trivial⟩
  · decide +kernel
  · exact ⟨by decide, nofun⟩

/-- The engine refuses the connection. -/
theorem attempt_settled_refused :
    (sampleMaking.ended reservedProcess (Scheduling.sampleReservation "a" "r")
      (attempt llmEndpoint (Scheduling.sampleReservation "a" "r") true
        { head := .error .connection, parts := [] }).settlement).scheduler.Released
          (Scheduling.sampleReservation "a" "r") .failedNotSent := by
  have ordinary : ({ head := .error .connection, parts := [] } : Exchange).Ordinary := by
    refine ⟨?_, nofun, nofun, nofun, nofun, nofun⟩
    rintro interruption ⟨⟩ reason ⟨⟩
  obtain ⟨returned, -⟩ := @attempt_settled llmEndpoint (Scheduling.sampleReservation "a" "r") true
    reservedProcess sampleMaking _ ordinary reservedProcess_holds reservedProcess_apart
    (sampleMaking_fits _)
  rcases returned ("not_sent", some "direct backend connection failed") rfl with
    ⟨other, -⟩ | ⟨-, released, -⟩ | ⟨other, -⟩
  · exact absurd other (by decide)
  · exact released
  · exact absurd other (by decide)

/-- The marker comes, and then the attempt is cancelled. -/
def cancelledDone : Exchange where
  head := .ok ⟨200, fun _ => none⟩
  parts := [⟨ascii "data: [DONE]\n", none⟩]
  stop := some .cancelled

theorem frames_cancelledDone :
    frames newline (ascii "data: [DONE]\n") = ([ascii "data: [DONE]"], []) := by
  have first : splitFirst newline.1 (ascii "data: [DONE]\n") =
      some (ascii "data: [DONE]", []) := by
    decide +kernel
  have second : splitFirst newline.1 [] = none := rfl
  rw [frames_of_some first, frames_of_none second]

theorem attempt_cancelledDone :
    let tried := attempt llmEndpoint (Scheduling.sampleReservation "a" "r") true cancelledDone
    tried.returned = none ∧ tried.trial.sent = true ∧
      tried.settlement = .completedResponse := by
  have marker : isDoneLine (ascii "data: [DONE]") = true := by decide +kernel
  have short : (ascii "data: [DONE]\n").length = 13 := by decide +kernel
  refine ⟨?_, ?_, ?_⟩ <;>
    simp [attempt, trial, respond, llmEndpoint, cancelledDone, body, Loop.receiveAll, Loop.receive,
      frames_cancelledDone, marker, short, Trial.put, handle, Scheduling.sampleReservation,
      Scheduling.sampleRequest]

/-- An attempt that is cancelled when it has been sent, but has been proven to have terminated: its
permit is given back, and does not stay held. -/
theorem attempt_cancelled_released :
    let reservation := Scheduling.sampleReservation "a" "r"
    let tried := attempt llmEndpoint reservation true cancelledDone
    tried.returned = none ∧ tried.trial.sent = true ∧
      ¬ (sampleMaking.ended reservedProcess reservation
        tried.settlement).scheduler.Holds reservation .unknown := by
  obtain ⟨returned, sent, settles⟩ := attempt_cancelledDone
  refine ⟨returned, sent, ?_⟩
  rw [settles]
  rintro ⟨unknownAt, -, held⟩
  have gone : (sampleMaking.ended reservedProcess (Scheduling.sampleReservation "a" "r")
      .completedResponse).scheduler.permits.find? "a" = none := by
    decide +kernel
  exact absurd (gone.symm.trans held) nofun

end Settled

end IntramindRuntime.Proxy
