import IntramindRuntime.Library.Utf8
import IntramindRuntime.Proxy.StreamEvents
import Mathlib.Data.List.Induction

/-!
# The evidence stream

`_EvidenceStream` reads the bytes of a response in chunks. It recognizes the frames of the proxy
and passes everything else on.

## Main definitions

* `EvidenceStream.next`, `EvidenceStream.chunk` — what one byte and one chunk do
* `EvidenceStream.run` — the stream behind some chunks
* `AdmissionScope.observe` — what is recorded of a frame

## Main results

* `EvidenceStream.run_eq` — the chunks do not matter while no rest exceeds the bound
-/

namespace IntramindRuntime.Proxy

open Library

/-! ### Bytes -/

/-- Names of events are compared as bytes. -/
instance lawfulBEq_bytes : LawfulBEq (List UInt8) := inferInstance

/-- The line ends of `bytes.splitlines`. -/
def byteMark (b : UInt8) : LineMark :=
  if b = 10 then .newline else if b = 13 then .return else .inside

/-- The bytes that `bytes.strip` removes. -/
def isSpaceByte (b : UInt8) : Bool := b = 32 || (9 ≤ b && b ≤ 13)

/-- The bytes of a literal. -/
def ascii (text : String) : List UInt8 := Utf8.encode text.toList

/-- Bytes that `json.loads` does not take for UTF-8: they begin with a byte order mark, or one
of the first two is zero. -/
def otherEncoding (bytes : List UInt8) : Bool :=
  [0xEF, 0xBB, 0xBF].isPrefixOf bytes || [0xFE, 0xFF].isPrefixOf bytes ||
    [0xFF, 0xFE].isPrefixOf bytes || [0, 0, 0xFE, 0xFF].isPrefixOf bytes ||
    match bytes with
    | [a, b] => a = 0 || b = 0
    | a :: b :: _ :: _ :: _ => a = 0 || b = 0
    | _ => false

/-- `json.loads` of bytes. What it makes of bytes that are not UTF-8 is a parameter. -/
def loadsBytes (other : List UInt8 → Option Json) (bytes : List UInt8) : Option Json :=
  if otherEncoding bytes then other bytes
  else match Utf8.strict id bytes with
    | some text => Json.loads text
    | none => other bytes

/-! ### The scope -/

/-- What the scope raises. -/
inductive ScopeError
  | deferred (reason frame : Json)
  | outcome (message : Json) (evidence : List (String × Json))

/-- How a stream ends. -/
inductive EvidenceEnding
  | jsonError
  /-- A value has a type that the code does not expect. -/
  | crashed
  | raised (error : ScopeError)
  /-- `on_event` raises. -/
  | callback
  /-- "admission evidence frame exceeds bound" -/
  | bound

/-- `AdmissionScope`: what it has recorded of the frames. -/
structure AdmissionScope where
  evidence : List (String × Json) := []
  error : Option ScopeError := none
  /-- `on_event`, if there is one: whether it raises, by what it has been called with so far. -/
  onEvent : Option (List (List (String × Json)) → Bool) := none
  /-- What `on_event` has been called with. -/
  events : List (List (String × Json)) := []

namespace AdmissionScope

/-- A key of the evidence is set. -/
def set (evidence : List (String × Json)) (key : String) (value : Json) : List (String × Json) :=
  evidence.filter (fun member => member.1 ≠ key) ++ [(key, value)]

/-- `observe`, and how it ends the stream. -/
def observe (scope : AdmissionScope) (frame : Json) : AdmissionScope × Option EvidenceEnding :=
  let evidence := ["attempt_id", "logical_request_id", "generation", "compute_state"].foldl
    (fun evidence key =>
      match frame.get? key with
      | some value => set evidence key value
      | none => evidence) scope.evidence
  let is (key text : String) : Bool :=
    match frame.get? key with
    | some (.str given) => given = text
    | _ => false
  let error :=
    if is "type" "admission_deferred" && is "compute_state" "not_sent" then
      some (.deferred ((frame.get? "reason").getD (.str "inference_capacity")) frame)
    else if is "type" "started" then scope.error
    else some (.outcome ((frame.get? "message").getD (.str "inference failed")) evidence)
  let scope := { scope with evidence := evidence, error := error }
  match scope.onEvent, evidence.lookup "compute_state" with
  | some raises, some (.str state) =>
    if state ∈ ["sent", "unknown", "terminated"] then
      let events := scope.events ++ [evidence]
      ({ scope with events := events },
        if raises events then some .callback else error.map .raised)
    else (scope, error.map .raised)
  | some _, some (.arr _) | some _, some (.obj _) =>
    -- such a value is in no set
    (scope, some .crashed)
  | _, _ => (scope, error.map .raised)

end AdmissionScope

/-! ### The stream -/

/-- `_EvidenceStream` between two bytes. -/
structure EvidenceStream (σ : Type) where
  pending : List σ := []
  /-- The frames of the proxy, with the lines that they come from. -/
  recognized : List (Block σ × Json) := []
  /-- The frames that `observe` is called with. -/
  observed : List Json := []
  /-- The frames that are passed on, without their empty lines. -/
  forwarded : List (List σ) := []
  scope : AdmissionScope := {}
  ending : Option EvidenceEnding := none

namespace EvidenceStream

variable (python : Builtins) (other : List UInt8 → Option Json)
variable {σ : Type} (byte : σ → UInt8)

/-- A line begins with a literal. -/
def begins (first : String) (line : List σ) : Bool := (ascii first).isPrefixOf (line.map byte)

/-- What is behind the name of a field. -/
def field (skip : ℕ) (line : List σ) : List σ :=
  trim (fun s => isSpaceByte (byte s)) (line.drop skip)

/-- The event and the data lines of some lines. -/
def block (lines : List (List σ)) : Block σ where
  name := (lines.find? (begins byte "event:")).map (field byte 6)
  data := (lines.filter (begins byte "data:")).map fun line =>
    trimLeft (fun s => isSpaceByte (byte s)) (line.drop 5)

/-- The name of the event. -/
def eventName (block : Block σ) : List UInt8 := (block.name.getD []).map byte

/-- A frame of the proxy. -/
def recognize (stream : EvidenceStream σ) (block : Block σ) : EvidenceStream σ :=
  match loadsBytes other ([10].intercalate (block.data.map (List.map byte))) with
  | none => { stream with ending := some .jsonError }
  | some frame =>
    if !frame.isObj then
      let calls := if eventName byte block = ascii "intramind.error" then [frame] else []
      { stream with observed := stream.observed ++ calls, ending := some .crashed }
    else
      let stream := { stream with recognized := stream.recognized ++ [(block, frame)] }
      let started : Bool :=
        match frame.get? "type" with
        | some (.str text) => text = "started"
        | _ => false
      if eventName byte block = ascii "intramind.error" ∨ started then
        let after := stream.scope.observe frame
        { stream with
          observed := stream.observed ++ [frame], scope := after.1, ending := after.2 }
      else stream

/-- Any other frame. -/
def forward (stream : EvidenceStream σ) (raw : List σ) (lines : List (List σ)) :
    EvidenceStream σ :=
  let ends := lines.any fun line => begins byte "data:" line &&
    (field byte 5 line).map byte = ascii "[DONE]"
  let known := python.truthy ((stream.scope.evidence.lookup "attempt_id").getD .null)
  { stream with
    forwarded := stream.forwarded ++ [raw]
    scope :=
      if ends && known then
        { stream.scope with
          evidence := AdmissionScope.set stream.scope.evidence "compute_state" (.str "terminated") }
      else stream.scope }

/-- A complete frame. -/
def frame (stream : EvidenceStream σ) (raw : List σ) : EvidenceStream σ :=
  if stream.ending.isSome then stream
  else
    let lines := splitLines (byteMark ∘ byte) raw
    let read := block byte lines
    if eventName byte read ∈ [ascii "intramind.control", ascii "intramind.error"] then
      stream.recognize other byte read
    else stream.forward python byte raw lines

/-- The next byte. A frame is complete with its second newline in a row. -/
def next (stream : EvidenceStream σ) (s : σ) : EvidenceStream σ :=
  if byte s = 10 ∧ stream.pending.getLast?.map byte = some 10 then
    ({ stream with pending := [] } : EvidenceStream σ).frame python other byte
      stream.pending.dropLast
  else { stream with pending := stream.pending ++ [s] }

/-- Bytes, one after another. -/
def feed (stream : EvidenceStream σ) (bytes : List σ) : EvidenceStream σ :=
  bytes.foldl (next python other byte) stream

/-- A chunk. What is left of it must not exceed the bound. -/
def chunk (stream : EvidenceStream σ) (bytes : List σ) : EvidenceStream σ :=
  let fed := stream.feed python other byte bytes
  if fed.ending.isNone ∧ 1024 * 1024 < fed.pending.length then
    { fed with ending := some .bound }
  else fed

/-- The stream behind some chunks. -/
def run (chunks : List (List σ)) : EvidenceStream σ :=
  chunks.foldl (chunk python other byte) {}

/-! ### Bytes in parts -/

section Parts

variable {python : Builtins} {other : List UInt8 → Option Json} {byte : σ → UInt8}

theorem feed_append (stream : EvidenceStream σ) (first second : List σ) :
    stream.feed python other byte (first ++ second) =
      (stream.feed python other byte first).feed python other byte second :=
  List.foldl_append

/-- A byte that does not complete a frame. -/
theorem next_inside {stream : EvidenceStream σ} {s : σ}
    (inside : byte s ≠ 10 ∨ stream.pending.getLast?.map byte ≠ some 10) :
    stream.next python other byte s = { stream with pending := stream.pending ++ [s] } := by
  rw [next, if_neg (by tauto)]

/-- Bytes on one line. -/
theorem feed_line {stream : EvidenceStream σ} {line : List σ} (inside : ∀ s ∈ line, byte s ≠ 10) :
    stream.feed python other byte line = { stream with pending := stream.pending ++ line } := by
  induction line generalizing stream with
  | nil => simp [feed]
  | cons s rest ih =>
    have first := @next_inside σ python other byte stream s (Or.inl (inside s (by simp)))
    have more := @ih { stream with pending := stream.pending ++ [s] }
      fun t member => inside t (by simp [member])
    rw [feed, List.foldl_cons, first]
    refine more.trans ?_
    simp

/-- The second newline in a row completes a frame. -/
theorem next_newline {stream : EvidenceStream σ} {s t : σ} {raw : List σ} (newline : byte s = 10)
    (last : byte t = 10) (pending : stream.pending = raw ++ [t]) :
    stream.next python other byte s =
      ({ stream with pending := [] } : EvidenceStream σ).frame python other byte raw := by
  have ends : stream.pending.getLast?.map byte = some 10 := by simp [pending, last]
  rw [next, if_pos ⟨newline, ends⟩, pending, List.dropLast_concat]

/-- What a complete frame does to a stream. -/
theorem frame_cases (stream : EvidenceStream σ) (raw : List σ) :
    (stream.frame python other byte raw).pending = stream.pending ∧
      ((stream.frame python other byte raw).recognized = stream.recognized ∨
        (stream.ending = none ∧ ∃ frame, (stream.frame python other byte raw).recognized =
          stream.recognized ++ [(block byte (splitLines (byteMark ∘ byte) raw), frame)])) := by
  rw [frame]
  split
  · exact ⟨rfl, Or.inl rfl⟩
  · rename_i live
    have running : stream.ending = none := by simpa using live
    dsimp only
    split
    · rw [recognize]
      split
      · exact ⟨rfl, Or.inl rfl⟩
      · rename_i frame _
        split
        · exact ⟨rfl, Or.inl rfl⟩
        · dsimp only
          split_ifs <;> exact ⟨rfl, Or.inr ⟨running, frame, rfl⟩⟩
    · exact ⟨rfl, Or.inl rfl⟩

theorem frame_ended {stream : EvidenceStream σ} (ended : stream.ending.isSome) (raw : List σ) :
    stream.frame python other byte raw = stream := by
  rw [frame, if_pos ended]

/-- A stream that has ended recognizes nothing. -/
theorem feed_ended {stream : EvidenceStream σ} (ended : stream.ending.isSome) (bytes : List σ) :
    (stream.feed python other byte bytes).ending = stream.ending ∧
      (stream.feed python other byte bytes).recognized = stream.recognized := by
  induction bytes generalizing stream with
  | nil => exact ⟨rfl, rfl⟩
  | cons s rest ih =>
    have step : (stream.next python other byte s).ending = stream.ending ∧
        (stream.next python other byte s).recognized = stream.recognized := by
      rw [next]
      split
      · rw [frame_ended (by exact ended)]
        exact ⟨rfl, rfl⟩
      · exact ⟨rfl, rfl⟩
    have more := ih (by rw [step.1]; exact ended)
    exact ⟨more.1.trans step.1, more.2.trans step.2⟩

/-- The bytes that wait do not depend on what the stream has made of the frames. -/
theorem feed_pending {first second : EvidenceStream σ} (same : first.pending = second.pending)
    (bytes : List σ) :
    (first.feed python other byte bytes).pending =
      (second.feed python other byte bytes).pending := by
  induction bytes generalizing first second with
  | nil => exact same
  | cons s rest ih =>
    refine ih ?_
    rw [next, next, same]
    split
    · rw [(frame_cases _ _).1, (frame_cases _ _).1]
    · rfl

theorem feed_recognized (stream : EvidenceStream σ) (bytes : List σ) :
    stream.recognized <+: (stream.feed python other byte bytes).recognized := by
  induction bytes generalizing stream with
  | nil => exact List.prefix_rfl
  | cons s rest ih =>
    have step : stream.recognized <+: (stream.next python other byte s).recognized := by
      rw [next]
      split
      · rcases (frame_cases _ _).2 with same | ⟨_, frame, more⟩
        · exact ⟨[], by rw [same, List.append_nil]⟩
        · exact ⟨_, more.symm⟩
      · exact List.prefix_rfl
    exact step.trans (ih _)

/-! ### Chunks -/

theorem chunk_pending (stream : EvidenceStream σ) (bytes : List σ) :
    (stream.chunk python other byte bytes).pending =
      (stream.feed python other byte bytes).pending := by
  rw [chunk]
  split <;> rfl

theorem chunk_recognized (stream : EvidenceStream σ) (bytes : List σ) :
    (stream.chunk python other byte bytes).recognized =
      (stream.feed python other byte bytes).recognized := by
  rw [chunk]
  split <;> rfl

/-- Behind a chunk, too many bytes wait only if the stream has ended. -/
theorem chunk_bound (stream : EvidenceStream σ) (bytes : List σ) :
    (stream.chunk python other byte bytes).ending.isSome ∨
      (stream.chunk python other byte bytes).pending.length ≤ 1024 * 1024 := by
  rw [chunk]
  split
  · exact Or.inl rfl
  · rename_i within
    cases ending : (stream.feed python other byte bytes).ending with
    | none =>
      right
      simpa [ending] using within
    | some _ => exact Or.inl rfl

theorem chunk_ended {stream : EvidenceStream σ} (ended : stream.ending.isSome) (bytes : List σ) :
    (stream.chunk python other byte bytes).ending = stream.ending ∧
      (stream.chunk python other byte bytes).recognized = stream.recognized := by
  have fed := @feed_ended σ python other byte stream ended bytes
  have isOver : ¬ ((stream.feed python other byte bytes).ending.isNone = true ∧
      1024 * 1024 < (stream.feed python other byte bytes).pending.length) := by
    rintro ⟨none, _⟩
    rw [fed.1] at none
    simp [Option.isNone_iff_eq_none.mp none] at ended
  rw [chunk, if_neg isOver]
  exact fed

theorem run_concat (chunks : List (List σ)) (last : List σ) :
    run python other byte (chunks ++ [last]) =
      (run python other byte chunks).chunk python other byte last := by
  simp [run]

/-- The bytes that wait behind some chunks. -/
theorem run_pending (chunks : List (List σ)) :
    (run python other byte chunks).pending =
      (({} : EvidenceStream σ).feed python other byte chunks.flatten).pending := by
  induction chunks using List.reverseRecOn with
  | nil => rfl
  | append_singleton chunks last ih =>
    rw [run_concat, chunk_pending, List.flatten_append, feed_append, List.flatten_singleton]
    exact feed_pending ih last

/-- The chunks do not matter, unless the bound has ended the stream. -/
theorem run_or (chunks : List (List σ)) :
    run python other byte chunks = ({} : EvidenceStream σ).feed python other byte chunks.flatten ∨
      ((run python other byte chunks).ending.isSome ∧ (run python other byte chunks).recognized <+:
        (({} : EvidenceStream σ).feed python other byte chunks.flatten).recognized) := by
  induction chunks using List.reverseRecOn with
  | nil => exact Or.inl rfl
  | append_singleton chunks last ih =>
    rw [run_concat, List.flatten_append, feed_append, List.flatten_singleton]
    rcases ih with same | ⟨ended, before⟩
    · rw [same, chunk]
      split
      · exact Or.inr ⟨rfl, List.prefix_rfl⟩
      · exact Or.inl rfl
    · right
      have stays := @chunk_ended σ python other byte _ ended last
      refine ⟨by rw [stays.1]; exact ended, ?_⟩
      rw [stays.2]
      exact before.trans (feed_recognized _ _)

/-- The chunks do not matter while no rest exceeds the bound. -/
theorem run_eq {chunks : List (List σ)}
    (within : ∀ front, front <+: chunks → (({} : EvidenceStream σ).feed python other byte
      front.flatten).pending.length ≤ 1024 * 1024) :
    run python other byte chunks =
      ({} : EvidenceStream σ).feed python other byte chunks.flatten := by
  induction chunks using List.reverseRecOn with
  | nil => rfl
  | append_singleton chunks last ih =>
    have before := ih fun front sub => within front (sub.trans (List.prefix_append _ _))
    have here := within _ List.prefix_rfl
    rw [List.flatten_append, feed_append, List.flatten_singleton] at here
    rw [run_concat, before, List.flatten_append, feed_append, List.flatten_singleton, chunk,
      if_neg (by omega)]

/-- Once ended, the stream recognizes nothing in further chunks. -/
theorem run_ended {front : List (List σ)} (ended : (run python other byte front).ending.isSome)
    (rear : List (List σ)) :
    (run python other byte (front ++ rear)).recognized =
      (run python other byte front).recognized := by
  have isOver : (run python other byte (front ++ rear)).ending.isSome ∧
      (run python other byte (front ++ rear)).recognized =
        (run python other byte front).recognized := by
    induction rear using List.reverseRecOn with
    | nil => simpa using ended
    | append_singleton rear last ih =>
      rw [← List.append_assoc, run_concat]
      have stays := @chunk_ended σ python other byte _ ih.1 last
      exact ⟨by rw [stays.1]; exact ih.1, stays.2.trans ih.2⟩
  exact isOver.2

theorem run_recognized (front rear : List (List σ)) :
    (run python other byte front).recognized <+:
      (run python other byte (front ++ rear)).recognized := by
  induction rear using List.reverseRecOn with
  | nil => simp
  | append_singleton rear last ih =>
    rw [← List.append_assoc, run_concat, chunk_recognized]
    exact ih.trans (feed_recognized _ _)

end Parts

/-! ### What symbols carry does not matter -/

section Symbols

variable {python : Builtins} {other : List UInt8 → Option Json} {τ : Type} (f : σ → τ)
  {byte : τ → UInt8}

/-- The symbols of the stream, replaced by others. -/
def map (stream : EvidenceStream σ) : EvidenceStream τ where
  pending := stream.pending.map f
  recognized := stream.recognized.map fun entry => (entry.1.map f, entry.2)
  observed := stream.observed
  forwarded := stream.forwarded.map (List.map f)
  scope := stream.scope
  ending := stream.ending

theorem begins_map (first : String) (line : List σ) :
    begins byte first (line.map f) = begins (byte ∘ f) first line := by
  simp [begins]

theorem field_map (skip : ℕ) (line : List σ) :
    field byte skip (line.map f) = (field (byte ∘ f) skip line).map f := by
  rw [field, ← List.map_drop, trim_map]
  rfl

theorem block_map (lines : List (List σ)) :
    block byte (lines.map (List.map f)) = (block (byte ∘ f) lines).map f := by
  have event : (begins byte "event:") ∘ List.map f = begins (byte ∘ f) "event:" :=
    funext fun line => begins_map f "event:" line
  have data : (begins byte "data:") ∘ List.map f = begins (byte ∘ f) "data:" :=
    funext fun line => begins_map f "data:" line
  simp only [block, Block.map, List.find?_map, List.filter_map, event, data, Option.map_map,
    List.map_map]
  congr 1
  · congr 1
    exact funext fun line => field_map f 6 line
  · congr 1
    funext line
    simp only [Function.comp_apply, ← List.map_drop, trimLeft_map]
    rfl

theorem frame_map (stream : EvidenceStream σ) (raw : List σ) :
    (stream.map f).frame python other byte (raw.map f) =
      (stream.frame python other (byte ∘ f) raw).map f := by
  have lines : splitLines (byteMark ∘ byte) (raw.map f) =
      (splitLines (byteMark ∘ (byte ∘ f)) raw).map (List.map f) := splitLines_map f _ raw
  have name (block : Block σ) : eventName byte (block.map f) = eventName (byte ∘ f) block := by
    cases named : block.name <;> simp [eventName, Block.map, named]
  have data (block : Block σ) : (block.map f).data.map (List.map byte) =
      block.data.map (List.map (byte ∘ f)) := by simp [Block.map]
  have done (line : List σ) : (begins byte "data:" (line.map f) &&
      decide ((field byte 5 (line.map f)).map byte = ascii "[DONE]")) =
        (begins (byte ∘ f) "data:" line &&
          decide ((field (byte ∘ f) 5 line).map (byte ∘ f) = ascii "[DONE]")) := by
    rw [begins_map, field_map, List.map_map]
  have ending : (stream.map f).ending = stream.ending := rfl
  have scope : (stream.map f).scope = stream.scope := rfl
  rw [frame, frame, ending]
  split_ifs with isOver
  · rfl
  · dsimp only
    rw [lines, block_map, name]
    split_ifs with known
    · rw [recognize, recognize, data]
      split
      · rfl
      · dsimp only
        rw [name]
        split_ifs
        · rfl
        · rfl
        · simp [map]
        · simp [map]
    · rw [forward, forward]
      dsimp only
      rw [List.any_map, scope]
      simp only [Function.comp_def, done]
      simp [map]

theorem next_map (stream : EvidenceStream σ) (s : σ) :
    (stream.map f).next python other byte (f s) =
      (stream.next python other (byte ∘ f) s).map f := by
  have last : (stream.map f).pending.getLast?.map byte =
      stream.pending.getLast?.map (byte ∘ f) := by
    simp [map]
  rw [next, next, last, Function.comp_apply]
  by_cases complete : byte (f s) = 10 ∧ stream.pending.getLast?.map (byte ∘ f) = some 10
  · rw [if_pos complete, if_pos complete, ← frame_map]
    simp [map, List.map_dropLast]
  · rw [if_neg complete, if_neg complete]
    simp [map]

theorem feed_map (stream : EvidenceStream σ) (bytes : List σ) :
    (stream.map f).feed python other byte (bytes.map f) =
      (stream.feed python other (byte ∘ f) bytes).map f := by
  induction bytes generalizing stream with
  | nil => rfl
  | cons s rest ih =>
    rw [List.map_cons, feed, List.foldl_cons, next_map]
    exact ih _

end Symbols

end EvidenceStream

end IntramindRuntime.Proxy
