import IntramindRuntime.Library.Framing
import IntramindRuntime.Proxy.EvidenceStream

/-!
# The evidence stream in chunks

The loop of `_EvidenceStream` puts each chunk behind what waits, and takes complete frames off as
long as there is a blank line. The chunks come from the network and may be cut anywhere, also
within a blank line. What the reader gets, and what becomes of the scope, depends on the frames
only.

## Main definitions

* `EvidenceStream.receive`, `EvidenceStream.iterate` — the loop on a chunk, and on all chunks
* `EvidenceStream.Outcome` — what is seen of a stream

## Main results

* `EvidenceStream.iterate_spec` — the loop handles the frames of all chunks together
* `EvidenceStream.iterate_run` — the loop does what the stream does byte by byte
* `EvidenceStream.outcome_iterate` — the chunks do not matter, and only frames of the proxy are
  left out
-/

namespace IntramindRuntime.Proxy

open Library

/-- The separator of frames. -/
def blankLine : Separator UInt8 := ⟨[10, 10], by simp⟩

namespace EvidenceStream

section Chunks

variable (python : Builtins) (other : List UInt8 → Option Json)

/-- The loop over the complete frames that wait. -/
def drain (stream : EvidenceStream UInt8) : EvidenceStream UInt8 :=
  if stream.ending.isSome then stream
  else
    match found : splitFirst blankLine.1 stream.pending with
    | none => stream
    | some (raw, rest) =>
      have := splitFirst_length blankLine.2 found
      drain (({ stream with pending := rest } : EvidenceStream UInt8).frame python other id raw)
termination_by stream.pending.length
decreasing_by rwa [(frame_cases _ _).1]

/-- The loop on a chunk. -/
def receive (stream : EvidenceStream UInt8) (chunk : List UInt8) : EvidenceStream UInt8 :=
  if stream.ending.isSome then stream
  else
    let stream := drain python other { stream with pending := stream.pending ++ chunk }
    if stream.ending.isNone ∧ 1024 * 1024 < stream.pending.length then
      { stream with ending := some .bound }
    else stream

/-- The loop on all chunks. -/
def iterate (scope : AdmissionScope) (chunks : List (List UInt8)) : EvidenceStream UInt8 :=
  chunks.foldl (receive python other) { scope := scope }

/-- The bytes that the reader gets. -/
def written (stream : EvidenceStream UInt8) : List UInt8 :=
  (stream.forwarded.map (· ++ blankLine.1)).flatten ++
    if stream.ending.isNone then stream.pending else []

/-- What is seen of a stream: the output, the frames of the proxy and those that were observed,
how it ended, and the scope with its evidence. -/
structure Outcome where
  output : List UInt8
  recognized : List (Block UInt8 × Json)
  observed : List Json
  ending : Option EvidenceEnding
  scope : AdmissionScope

/-- The outcome of a stream. -/
def outcome (stream : EvidenceStream UInt8) : Outcome where
  output := stream.written
  recognized := stream.recognized
  observed := stream.observed
  ending := stream.ending
  scope := stream.scope

/-- A frame of the proxy. -/
def isInternal (raw : List UInt8) : Bool :=
  eventName id (block id (splitLines byteMark raw)) ∈
    [ascii "intramind.control", ascii "intramind.error"]

/-- Chunks that are frames with their blank lines, and the rest. -/
def perFrame (input : List UInt8) : List (List UInt8) :=
  (frames blankLine input).1.map (· ++ blankLine.1) ++ [(frames blankLine input).2]

/-! ### Frames -/

/-- Streams that differ in what waits at most. -/
structure Same (first second : EvidenceStream UInt8) : Prop where
  recognized : first.recognized = second.recognized
  observed : first.observed = second.observed
  forwarded : first.forwarded = second.forwarded
  ending : first.ending = second.ending
  scope : first.scope = second.scope

variable {python other} {stream first second third : EvidenceStream UInt8}

theorem Same.refl (stream : EvidenceStream UInt8) : Same stream stream := ⟨rfl, rfl, rfl, rfl, rfl⟩

theorem Same.symm (same : Same first second) : Same second first :=
  ⟨same.recognized.symm, same.observed.symm, same.forwarded.symm, same.ending.symm,
    same.scope.symm⟩

theorem Same.trans (same : Same first second) (other : Same second third) : Same first third :=
  ⟨same.recognized.trans other.recognized, same.observed.trans other.observed,
    same.forwarded.trans other.forwarded, same.ending.trans other.ending,
    same.scope.trans other.scope⟩

variable (python other) in
/-- A frame does not look at what waits. -/
theorem Same.frame (same : Same first second) (raw : List UInt8) :
    Same (first.frame python other id raw) (second.frame python other id raw) := by
  obtain ⟨pending, recognized, observed, forwarded, scope, ending⟩ := first
  obtain ⟨pending', _, _, _, _, _⟩ := second
  obtain ⟨rfl, rfl, rfl, rfl, rfl⟩ := same
  unfold EvidenceStream.frame
  dsimp only
  split_ifs with isOver internal
  · exact ⟨rfl, rfl, rfl, rfl, rfl⟩
  · unfold recognize
    split
    · exact ⟨rfl, rfl, rfl, rfl, rfl⟩
    · dsimp only
      split_ifs <;> exact ⟨rfl, rfl, rfl, rfl, rfl⟩
  · exact ⟨rfl, rfl, rfl, rfl, rfl⟩

variable (python other) in
theorem Same.foldl (same : Same first second) (raws : List (List UInt8)) :
    Same (raws.foldl (EvidenceStream.frame python other id) first)
      (raws.foldl (EvidenceStream.frame python other id) second) := by
  induction raws generalizing first second with
  | nil => exact same
  | cons raw rest ih => exact ih (same.frame python other raw)

theorem foldl_ended (ended : stream.ending.isSome) (raws : List (List UInt8)) :
    raws.foldl (EvidenceStream.frame python other id) stream = stream := by
  induction raws with
  | nil => rfl
  | cons raw rest ih => rw [List.foldl_cons, frame_ended ended, ih]

/-- The loop on what waits handles its frames, and leaves the rest. -/
theorem drain_spec (stream : EvidenceStream UInt8) :
    Same (drain python other stream) ((frames blankLine stream.pending).1.foldl
        (EvidenceStream.frame python other id) stream) ∧
      ((drain python other stream).ending = none →
        (drain python other stream).pending = (frames blankLine stream.pending).2) := by
  generalize waits : stream.pending = text
  induction text using frames_induction blankLine generalizing stream with
  | rest text found =>
    have quiet : drain python other stream = stream := by
      rw [drain]
      split_ifs
      · rfl
      · split
        · rfl
        · rename_i some
          rw [waits, found] at some
          exact nomatch some
    rw [quiet, frames_of_none found]
    exact ⟨.refl _, fun _ => waits⟩
  | frame text raw rest found ih =>
    rw [frames_of_some found, List.foldl_cons]
    by_cases ended : stream.ending.isSome
    · have quiet : drain python other stream = stream := by rw [drain, if_pos ended]
      rw [quiet, frame_ended ended, foldl_ended ended]
      refine ⟨.refl _, ?_⟩
      intro running
      simp [running] at ended
    · have turn : drain python other stream = drain python other
          (({ stream with pending := rest } : EvidenceStream UInt8).frame python other id raw) := by
        rw [drain, if_neg ended]
        split
        · rename_i none
          rw [waits, found] at none
          exact nomatch none
        · rename_i some
          rw [waits, found] at some
          cases some
          rfl
      have before : Same ({ stream with pending := rest } : EvidenceStream UInt8) stream :=
        ⟨rfl, rfl, rfl, rfl, rfl⟩
      have waits' : (({ stream with pending := rest } : EvidenceStream UInt8).frame python other id
          raw).pending = rest := (frame_cases _ raw).1
      obtain ⟨same, left⟩ := ih _ waits'
      rw [turn]
      exact ⟨same.trans ((before.frame python other raw).foldl python other _), left⟩

/-- The loop on a chunk handles the frames that are complete now. -/
theorem receive_spec {rest : List UInt8} (waits : stream.ending = none → stream.pending = rest)
    {chunk : List UInt8} (short : (frames blankLine (rest ++ chunk)).2.length ≤ 1024 * 1024) :
    Same (receive python other stream chunk) ((frames blankLine (rest ++ chunk)).1.foldl
        (EvidenceStream.frame python other id) stream) ∧
      ((receive python other stream chunk).ending = none →
        (receive python other stream chunk).pending = (frames blankLine (rest ++ chunk)).2) := by
  by_cases ended : stream.ending.isSome
  · rw [receive, if_pos ended, foldl_ended ended]
    refine ⟨.refl _, ?_⟩
    intro running
    simp [running] at ended
  · obtain rfl := waits (by simpa using ended)
    obtain ⟨drained, left⟩ := @drain_spec python other
      { stream with pending := stream.pending ++ chunk }
    have before : Same ({ stream with pending := stream.pending ++ chunk } : EvidenceStream UInt8)
        stream := ⟨rfl, rfl, rfl, rfl, rfl⟩
    have bounded : ¬ ((drain python other
        { stream with pending := stream.pending ++ chunk }).ending.isNone = true ∧
          1024 * 1024 < (drain python other
            { stream with pending := stream.pending ++ chunk }).pending.length) := by
      rintro ⟨running, isOver⟩
      rw [left (by simpa using running)] at isOver
      exact absurd short (not_le.mpr isOver)
    rw [receive, if_neg ended]
    dsimp only
    rw [if_neg bounded]
    exact ⟨drained.trans (before.foldl python other _), left⟩

/-- Behind some chunks, their frames have been handled, and the rest waits. -/
theorem iterate_spec {scope : AdmissionScope} {chunks : List (List UInt8)}
    (within : ∀ front, front <+: chunks →
      (frames blankLine front.flatten).2.length ≤ 1024 * 1024) :
    Same (iterate python other scope chunks) ((frames blankLine chunks.flatten).1.foldl
        (EvidenceStream.frame python other id) { scope := scope }) ∧
      ((iterate python other scope chunks).ending = none →
        (iterate python other scope chunks).pending = (frames blankLine chunks.flatten).2) := by
  induction chunks using List.reverseRecOn with
  | nil =>
    rw [List.flatten_nil, frames_of_none rfl]
    exact ⟨.refl _, fun _ => rfl⟩
  | append_singleton chunks last ih =>
    obtain ⟨same, left⟩ := ih fun front sub => within front (sub.trans (List.prefix_append _ _))
    have short := within _ List.prefix_rfl
    have turn : iterate python other scope (chunks ++ [last]) =
        receive python other (iterate python other scope chunks) last := by
      simp [iterate]
    rw [List.flatten_append, List.flatten_singleton, frames_append] at short ⊢
    obtain ⟨received, more⟩ := receive_spec left short
    rw [turn, List.foldl_append]
    exact ⟨received.trans (same.foldl python other _), more⟩

/-! ### Bytes -/

/-- A blank line ends with the byte that completes it. -/
theorem splitFirst_snoc {waiting : List UInt8} (none : splitFirst blankLine.1 waiting = none)
    (b : UInt8) : splitFirst blankLine.1 (waiting ++ [b]) =
      if b = 10 ∧ waiting.getLast? = some 10 then some (waiting.dropLast, []) else .none := by
  have before {raw rest : List UInt8} (found : splitFirst blankLine.1 (waiting ++ [b]) =
      some (raw, rest)) : rest = [] ∧ waiting = raw ++ [10] ∧ b = 10 := by
    have whole := splitFirst_eq found
    cases rest using List.reverseRecOn with
    | nil =>
      rw [List.append_nil] at whole
      have shape : raw ++ blankLine.1 = (raw ++ [10]) ++ [10] := by simp [blankLine]
      rw [shape] at whole
      obtain ⟨rfl, same⟩ := List.append_inj' whole rfl
      exact ⟨rfl, rfl, List.singleton_inj.mp same⟩
    | append_singleton rest last =>
      rw [← List.append_assoc] at whole
      obtain ⟨rfl, -⟩ := List.append_inj' whole rfl
      exact absurd none (splitFirst_ne_none blankLine.2 raw rest)
  cases found : splitFirst blankLine.1 (waiting ++ [b]) with
  | some parts =>
    obtain ⟨raw, rest⟩ := parts
    obtain ⟨rfl, rfl, rfl⟩ := before found
    simp
  | none =>
    rw [if_neg]
    rintro ⟨rfl, last⟩
    obtain ⟨raw, rfl⟩ := List.getLast?_eq_some_iff.mp last
    have shape : raw ++ [10] ++ [10] = raw ++ blankLine.1 ++ [] := by simp [blankLine]
    rw [shape] at found
    exact splitFirst_ne_none blankLine.2 raw [] found

/-- Byte by byte, the frames are handled that the bytes complete. -/
theorem feed_spec (none : splitFirst blankLine.1 stream.pending = none) (bytes : List UInt8) :
    Same (stream.feed python other id bytes) ((frames blankLine (stream.pending ++ bytes)).1.foldl
        (EvidenceStream.frame python other id) stream) ∧
      (stream.feed python other id bytes).pending =
        (frames blankLine (stream.pending ++ bytes)).2 := by
  induction bytes using List.reverseRecOn with
  | nil =>
    rw [List.append_nil, frames_of_none none]
    exact ⟨.refl _, rfl⟩
  | append_singleton bytes b ih =>
    obtain ⟨same, left⟩ := ih
    have rest := splitFirst_rest blankLine (stream.pending ++ bytes)
    rw [← List.append_assoc, frames_append, ← left, feed_append, List.foldl_append]
    rw [← left] at rest
    generalize stream.feed python other id bytes = now at *
    have found := splitFirst_snoc rest b
    have turn : now.feed python other id [b] = now.next python other id b := rfl
    rw [turn, next]
    by_cases complete : b = 10 ∧ now.pending.getLast? = some 10
    · rw [if_pos complete] at found
      have nothing : frames blankLine [] = ([], []) := frames_of_none rfl
      rw [if_pos (by simpa using complete), frames_of_some found, nothing]
      have before : Same ({ now with pending := [] } : EvidenceStream UInt8) now :=
        ⟨rfl, rfl, rfl, rfl, rfl⟩
      exact ⟨(before.trans same).frame python other _, (frame_cases _ _).1⟩
    · rw [if_neg complete] at found
      rw [if_neg (by simpa using complete), frames_of_none found]
      have after : Same ({ now with pending := now.pending ++ [b] } : EvidenceStream UInt8) now :=
        ⟨rfl, rfl, rfl, rfl, rfl⟩
      exact ⟨after.trans same, rfl⟩

/-- The loop does on chunks what the stream does byte by byte. -/
theorem iterate_run (chunks : List (List UInt8)) :
    Same (iterate python other {} chunks) (run python other id chunks) ∧
      ((iterate python other {} chunks).ending = none →
        (iterate python other {} chunks).pending = (run python other id chunks).pending) := by
  induction chunks using List.reverseRecOn with
  | nil => exact ⟨.refl _, fun _ => rfl⟩
  | append_singleton chunks last ih =>
    obtain ⟨same, left⟩ := ih
    have turn : iterate python other {} (chunks ++ [last]) =
        receive python other (iterate python other {} chunks) last := by
      simp [iterate]
    have waitless : splitFirst blankLine.1 (run python other id chunks).pending = none := by
      have start := @feed_spec python other {} rfl chunks.flatten
      rw [run_pending, start.2]
      exact splitFirst_rest blankLine _
    obtain ⟨fed, waits⟩ := @feed_spec python other _ waitless last
    rw [turn, run_concat]
    generalize run python other id chunks = bytewise at *
    generalize iterate python other {} chunks = stream at *
    by_cases ended : stream.ending.isSome
    · have isOver : bytewise.ending.isSome := by rwa [← same.ending]
      rw [foldl_ended isOver] at fed
      have bounded : ¬ ((bytewise.feed python other id last).ending.isNone = true ∧
          1024 * 1024 < (bytewise.feed python other id last).pending.length) := by
        rintro ⟨running, -⟩
        rw [fed.ending] at running
        simp [Option.isNone_iff_eq_none.mp running] at isOver
      rw [receive, if_pos ended, chunk, if_neg bounded]
      refine ⟨same.trans fed.symm, ?_⟩
      intro running
      simp [running] at ended
    · obtain ⟨drained, rest⟩ := @drain_spec python other
        { stream with pending := stream.pending ++ last }
      have before : Same ({ stream with pending := stream.pending ++ last } :
          EvidenceStream UInt8) stream := ⟨rfl, rfl, rfl, rfl, rfl⟩
      have pending := left (by simpa using ended)
      have together : Same (drain python other { stream with pending := stream.pending ++ last })
          (bytewise.feed python other id last) := by
        refine drained.trans (Same.trans ?_ fed.symm)
        rw [← pending]
        exact (before.trans same).foldl python other _
      have waiting : (drain python other
          { stream with pending := stream.pending ++ last }).ending = none →
            (drain python other { stream with pending := stream.pending ++ last }).pending =
              (bytewise.feed python other id last).pending := by
        intro running
        rw [rest running, waits, pending]
      rw [receive, if_neg ended, chunk]
      generalize drain python other { stream with pending := stream.pending ++ last } = done at *
      generalize bytewise.feed python other id last = done' at *
      dsimp only
      rw [← together.ending]
      by_cases running : done.ending = none
      · rw [waiting running]
        split_ifs
        · exact ⟨⟨together.recognized, together.observed, together.forwarded, rfl,
            together.scope⟩, fun never => by cases never⟩
        · exact ⟨together, waiting⟩
      · rw [if_neg (by simp [running]), if_neg (by simp [running])]
        exact ⟨together, waiting⟩

/-! ### The output -/

theorem frame_internal {raw : List UInt8} (internal : isInternal raw = true) :
    (stream.frame python other id raw).forwarded = stream.forwarded := by
  rw [isInternal, decide_eq_true_eq] at internal
  unfold EvidenceStream.frame
  split_ifs with isOver
  · rfl
  · dsimp only
    rw [Function.comp_id, if_pos internal, recognize]
    split
    · rfl
    · dsimp only
      split_ifs <;> rfl

theorem frame_foreign {raw : List UInt8} (foreign : isInternal raw = false)
    (running : stream.ending = none) :
    (stream.frame python other id raw).forwarded = stream.forwarded ++ [raw] ∧
      (stream.frame python other id raw).ending = none := by
  rw [isInternal, decide_eq_false_iff_not] at foreign
  unfold EvidenceStream.frame
  rw [if_neg (by simp [running])]
  dsimp only
  rw [Function.comp_id, if_neg foreign, forward]
  exact ⟨rfl, running⟩

/-- Of the frames that have been handled, those of the proxy are left out. All are handled, unless
the stream has ended. -/
theorem foldl_forwarded (running : stream.ending = none) (raws : List (List UInt8)) :
    ∃ handled rest, raws = handled ++ rest ∧
      ((raws.foldl (EvidenceStream.frame python other id) stream).ending = none → rest = []) ∧
      (raws.foldl (EvidenceStream.frame python other id) stream).forwarded =
        stream.forwarded ++ handled.filter fun raw => !isInternal raw := by
  induction raws generalizing stream with
  | nil => exact ⟨[], [], rfl, fun _ => rfl, by simp⟩
  | cons raw rest ih =>
    rw [List.foldl_cons]
    have kept : (stream.frame python other id raw).forwarded =
        stream.forwarded ++ [raw].filter fun raw => !isInternal raw := by
      cases internal : isInternal raw with
      | true => simp [frame_internal internal, internal]
      | false => simp [(frame_foreign internal running).1, internal]
    cases ending : (stream.frame python other id raw).ending with
    | none =>
      obtain ⟨handled, left, rfl, all, same⟩ := ih ending
      refine ⟨raw :: handled, left, rfl, all, ?_⟩
      rw [same, kept, List.append_assoc, ← List.filter_append]
      rfl
    | some reason =>
      have ended : (stream.frame python other id raw).ending.isSome := by simp [ending]
      rw [foldl_ended ended]
      refine ⟨[raw], rest, rfl, ?_, kept⟩
      intro running
      exact nomatch running.symm.trans ending

/-- What the reader gets of a stream that has handled some frames and leaves a rest. -/
theorem written_eq {rest : List UInt8} (same : Same first second)
    (left : first.ending = none → first.pending = rest) :
    first.written = (second.forwarded.map (· ++ blankLine.1)).flatten ++
      if second.ending.isNone then rest else [] := by
  rw [written, same.forwarded, ← same.ending]
  cases ending : first.ending with
  | none => rw [left ending]
  | some reason => rfl

theorem outcome_eq {rest : List UInt8} (same : Same first second)
    (left : first.ending = none → first.pending = rest) :
    outcome first = outcome { second with pending := rest } := by
  have whole : Same { second with pending := rest } second := ⟨rfl, rfl, rfl, rfl, rfl⟩
  rw [outcome, outcome, written_eq same left, written_eq whole fun _ => rfl, same.recognized,
    same.observed, same.ending, same.scope]

variable (python other)

/-- What is seen of a stream does not depend on its chunks: it is what is seen if each frame comes
in a chunk of its own. The output is the input without the complete frames of the proxy, up to the
frame at which the stream ends, if it does. -/
theorem outcome_iterate (scope : AdmissionScope) (chunks : List (List UInt8))
    (frames_short : ∀ raw ∈ (frames blankLine chunks.flatten).1,
      (raw ++ blankLine.1).length ≤ 1024 * 1024)
    (rest_short : (frames blankLine chunks.flatten).2.length ≤ 1024 * 1024) :
    outcome (iterate python other scope chunks) =
        outcome (iterate python other scope (perFrame chunks.flatten)) ∧
      ∃ handled rest, (frames blankLine chunks.flatten).1 = handled ++ rest ∧
        ((iterate python other scope chunks).ending = none → rest = []) ∧
        (iterate python other scope chunks).written =
          ((handled.filter fun raw => !isInternal raw).map (· ++ blankLine.1)).flatten ++
            if (iterate python other scope chunks).ending.isNone then
              (frames blankLine chunks.flatten).2
            else [] := by
  have within {chunks' : List (List UInt8)} (whole : chunks'.flatten = chunks.flatten) :
      ∀ front, front <+: chunks' → (frames blankLine front.flatten).2.length ≤ 1024 * 1024 := by
    rintro front ⟨behind, rfl⟩
    rw [List.flatten_append] at whole
    rcases rest_length blankLine front.flatten behind.flatten with
      ⟨frame, member, short⟩ | short
    · rw [whole] at member
      have := frames_short frame member
      rw [List.length_append] at this
      omega
    · rw [whole] at short
      omega
  have again : (perFrame chunks.flatten).flatten = chunks.flatten := by
    rw [perFrame, List.flatten_append, List.flatten_singleton, flatten_frames]
  obtain ⟨same, left⟩ := @iterate_spec python other scope chunks (within rfl)
  obtain ⟨same', left'⟩ := @iterate_spec python other scope _ (within again)
  rw [again] at same' left'
  constructor
  · rw [outcome_eq same left, outcome_eq same' left']
  · obtain ⟨handled, rest, split, all, forwarded⟩ :=
      @foldl_forwarded python other { scope := scope } rfl (frames blankLine chunks.flatten).1
    refine ⟨handled, rest, split, ?_, ?_⟩
    · intro running
      exact all (same.ending.symm.trans running)
    · rw [written_eq same left, forwarded, List.nil_append, same.ending]

/-- The frame of an attempt that has been sent. -/
def startedFrame : List UInt8 :=
  ascii ("event: intramind.control\ndata: \x7b\"type\":\"started\",\"attempt_id\":\"a\"," ++
    "\"generation\":0,\"compute_state\":\"sent\"\x7d")

/-- An attempt is sent, answers and is done. The response is cut within the first frame and within
a blank line, and something is left. -/
def cutChunks : List (List UInt8) :=
  [startedFrame.take 40, startedFrame.drop 40 ++ ascii "\n",
    ascii "\ndata: hi\n\ndata: [DONE]\n\nda"]

theorem frames_cutChunks : frames blankLine cutChunks.flatten =
    ([startedFrame, ascii "data: hi", ascii "data: [DONE]"], ascii "da") := by
  have first : splitFirst blankLine.1 cutChunks.flatten =
      some (startedFrame, ascii "data: hi\n\ndata: [DONE]\n\nda") := by
    decide +kernel
  have second : splitFirst blankLine.1 (ascii "data: hi\n\ndata: [DONE]\n\nda") =
      some (ascii "data: hi", ascii "data: [DONE]\n\nda") := by
    decide +kernel
  have third : splitFirst blankLine.1 (ascii "data: [DONE]\n\nda") =
      some (ascii "data: [DONE]", ascii "da") := by
    decide +kernel
  have last : splitFirst blankLine.1 (ascii "da") = none := by decide +kernel
  rw [frames_of_some first, frames_of_some second, frames_of_some third, frames_of_none last]

/-- The stream does not depend on the cut. The callback learns that the attempt has been sent, and
the end of the response is recorded. -/
theorem outcome_iterate_cut :
    let python : Builtins := ⟨fun _ => none, fun _ => true⟩
    let scope : AdmissionScope := { onEvent := some fun _ => false }
    let cut := iterate python (fun _ => none) scope cutChunks
    outcome cut = outcome (iterate python (fun _ => none) scope (perFrame cutChunks.flatten)) ∧
      cut.scope.events.length = 1 ∧
        (cut.scope.evidence.lookup "compute_state").map Json.encode =
          some "\"terminated\"".toList := by
  refine ⟨(outcome_iterate _ _ _ cutChunks ?_ ?_).1, ?_, ?_⟩
  · rw [frames_cutChunks]
    decide +kernel
  · rw [frames_cutChunks]
    decide +kernel
  · decide +kernel
  · decide +kernel

end Chunks

end EvidenceStream

end IntramindRuntime.Proxy
