import IntramindRuntime.Library.JsonText
import IntramindRuntime.Library.Lines

/-!
# The stream client

`DirectBinding.stream_events` reads the lines of a response and delivers events. The symbols
of a line are characters that may carry more than the character, such as the bytes that they
come from; what is delivered depends on the characters only.

## Main definitions

* `Client`, `Client.line` — what one line does
* `streamEvents` — the events of a response, and how reading ends

## Main results

* `streamEvents_char` — what symbols carry besides their characters does not matter
-/

namespace IntramindRuntime.Proxy

open Library

/-! ### Text -/

/-- The line ends of `str.splitlines`. -/
def charMark (c : Char) : LineMark :=
  if c = '\n' then .newline
  else if c = '\r' then .return
  else if c ∈ ['\x0b', '\x0c', '\x1c', '\x1d', '\x1e', '\x85', '\u2028', '\u2029'] then .other
  else .inside

section Symbols

variable {σ : Type} (char : σ → Char)

/-- `str.lstrip` -/
def lstrip (text : List σ) : List σ := trimLeft (fun s => isSpace (char s)) text

/-- `str.strip` -/
def strip (text : List σ) : List σ := trim (fun s => isSpace (char s)) text

/-- `str.startswith` -/
def startsWith (first : String) (text : List σ) : Bool := first.toList.isPrefixOf (text.map char)

end Symbols

/-- What Python's `int` and `bool` make of numbers and texts that are no integers. -/
structure Builtins where
  /-- `int` of a real number or a text. -/
  int : Json → Option ℤ
  /-- A real number is not zero. -/
  nonzero : String → Bool

namespace Builtins

variable (python : Builtins)

/-- `int(value)`, unless it raises. -/
def toInt : Json → Option ℤ
  | .int n => some n
  | .bool b => some (if b then 1 else 0)
  | .real text => python.int (.real text)
  | .str text => python.int (.str text)
  | _ => none

/-- `bool(value)` -/
def truthy : Json → Bool
  | .null => false
  | .bool b => b
  | .int n => n ≠ 0
  | .real text => python.nonzero text
  | .str text => text ≠ ""
  | .arr items => !items.isEmpty
  | .obj members => !members.isEmpty

end Builtins

/-! ### Events -/

/-- The kinds of events. -/
inductive EventKind
  | token | waiting | resumed | recovering | generationReset
  deriving DecidableEq

/-- `DirectStreamEvent` -/
structure Event where
  kind : EventKind
  text : Json := .str ""
  generation : ℤ := 0
  reason : Json := .null

/-- How reading ends. -/
inductive Ending
  | returned
  /-- `DirectStreamError`; its text is `str(message)`. -/
  | streamError (message reason errorType : Json)
  /-- The data is no JSON. -/
  | jsonError
  /-- "invalid direct stream control event" -/
  | invalidControl
  /-- A value has a type that the code does not expect. -/
  | crashed
  /-- "managed inference stream ended before [DONE]" -/
  | endedEarly

/-- What the data of one event does. -/
structure Delivery where
  events : List Event
  generation : ℤ
  ending : Option Ending

variable (python : Builtins)

/-- The tokens of the choices of a completion chunk. -/
def tokens (frame : Json) (generation : ℤ) : List Json → List Event × Option Ending
  | [] => ([], none)
  | choice :: rest =>
    match choice with
    | .obj members =>
      match ((Json.obj members).get? "delta").getD (.obj []) with
      | .obj delta =>
        let token := ((Json.obj delta).get? "content").getD .null
        if python.truthy token then
          match python.toInt ((frame.get? "intramind_generation").getD (.int generation)) with
          | some g =>
            let more := tokens frame generation rest
            ({ kind := .token, text := token, generation := g } :: more.1, more.2)
          | none => ([], some .crashed)
        else tokens frame generation rest
      | _ => ([], some .crashed)
    | _ => ([], some .crashed)

/-- The tokens of a frame. -/
def chunk (frame : Json) (generation : ℤ) : Delivery :=
  match (frame.get? "choices").getD (.arr []) with
  | .arr items =>
    let delivered := tokens python frame generation items
    ⟨delivered.1, generation, delivered.2⟩
  | .obj [] | .str "" => ⟨[], generation, none⟩
  | _ => ⟨[], generation, some .crashed⟩

/-- A control event. -/
def controlEvent (kind : EventKind) (frame : Json) (generation : ℤ) : Delivery :=
  match python.toInt ((frame.get? "generation").getD (.int generation)) with
  | some g =>
    ⟨[{ kind := kind, generation := g, reason := (frame.get? "reason").getD .null }],
      generation, none⟩
  | none => ⟨[], generation, some .crashed⟩

/-- A control frame. -/
def control (frame : Json) (generation : ℤ) : Delivery :=
  match (frame.get? "type").getD .null with
  | .str "started" => ⟨[], generation, none⟩
  | .str "waiting" => controlEvent python .waiting frame generation
  | .str "resumed" => controlEvent python .resumed frame generation
  | .str "recovering" => controlEvent python .recovering frame generation
  | .str "generation_reset" =>
    match python.toInt ((frame.get? "generation").getD (.int (generation + 1))) with
    | some g => controlEvent python .generationReset frame g
    | none => ⟨[], generation, some .crashed⟩
  -- lists and dicts have no hash
  | .arr _ | .obj _ => ⟨[], generation, some .crashed⟩
  | _ => ⟨[], generation, some .invalidControl⟩

/-- The data of an event. -/
def deliver (eventName raw : List Char) (generation : ℤ) : Delivery :=
  if raw = "[DONE]".toList then ⟨[], generation, some .returned⟩
  else match Json.loads raw with
    | none => ⟨[], generation, some .jsonError⟩
    | some frame =>
      if !frame.isObj then ⟨[], generation, some .crashed⟩
      else if eventName = "intramind.error".toList then
        let message := (frame.get? "message").getD .null
        ⟨[], generation, some (.streamError
          (if python.truthy message then message else .str "managed inference failed")
          ((frame.get? "reason").getD .null) ((frame.get? "type").getD .null))⟩
      else if eventName = "intramind.control".toList then control python frame generation
      else chunk python frame generation

/-! ### Reading lines -/

/-- An event as it is read: its name, unless it is `message`, and its data lines. -/
structure Block (σ : Type) where
  name : Option (List σ)
  data : List (List σ)

/-- The symbols of the event, replaced by others. -/
def Block.map {σ τ : Type} (f : σ → τ) (block : Block σ) : Block τ :=
  ⟨block.name.map (List.map f), block.data.map (List.map f)⟩

/-- The client between two lines. -/
structure Client (σ : Type) where
  eventName : Option (List σ) := none
  data : List (List σ) := []
  generation : ℤ := 0
  /-- What has been delivered, with the event that it comes from. -/
  delivered : List (Block σ × List Event) := []
  ending : Option Ending := none

namespace Client

variable {σ : Type} (char : σ → Char)

/-- The name of the event. -/
def name (client : Client σ) : List Char :=
  match client.eventName with
  | none => "message".toList
  | some text => text.map char

/-- The data lines, joined with newlines. -/
def raw (client : Client σ) : List Char :=
  ['\n'].intercalate (client.data.map (List.map char))

/-- The event is complete. -/
def dispatch (client : Client σ) : Client σ :=
  let delivery := deliver python (client.name char) (client.raw char) client.generation
  { eventName := none
    data := []
    generation := delivery.generation
    delivered := client.delivered ++ [(⟨client.eventName, client.data⟩, delivery.events)]
    ending := delivery.ending }

/-- The next line. -/
def line (client : Client σ) (text : List σ) : Client σ :=
  if client.ending.isSome then client
  else if text.isEmpty then
    if client.data.isEmpty then { client with eventName := none }
    else client.dispatch python char
  else if startsWith char "event:" text then
    { client with eventName := some (strip char (text.drop 6)) }
  else if startsWith char "data:" text then
    { client with data := client.data ++ [lstrip char (text.drop 5)] }
  else client

/-- Lines, one after another. -/
def lines (client : Client σ) (texts : List (List σ)) : Client σ :=
  texts.foldl (Client.line python char) client

/-- The events that have been delivered. -/
def events (client : Client σ) : List Event := client.delivered.flatMap Prod.snd

/-- What the symbols carry is left out. -/
def map {τ : Type} (f : σ → τ) (client : Client σ) : Client τ where
  eventName := client.eventName.map (List.map f)
  data := client.data.map (List.map f)
  generation := client.generation
  delivered := client.delivered.map fun delivered => (delivered.1.map f, delivered.2)
  ending := client.ending

end Client

/-- A client that has read a text. -/
def reading {σ : Type} (char : σ → Char) (text : List σ) : Client σ :=
  ({} : Client σ).lines python char (splitLines (charMark ∘ char) text)

/-- `stream_events`: the events of a response, and how reading ends. -/
def streamEvents {σ : Type} (char : σ → Char) (text : List σ) : List Event × Ending :=
  let client := reading python char text
  (client.events, client.ending.getD .endedEarly)

/-! ### Reading a text in parts -/

/-- A line that is being read, and the client that gets the lines. -/
structure Session (σ : Type) where
  reader : LineReader σ := {}
  client : Client σ := {}

namespace Session

variable {σ : Type} (char : σ → Char)

/-- Symbols, one after another. -/
def read (session : Session σ) (text : List σ) : Session σ :=
  let fed := session.reader.feed (charMark ∘ char) text
  ⟨fed.2, session.client.lines python char fed.1⟩

/-- The client at the end of a text. -/
def close (session : Session σ) : Client σ :=
  session.client.lines python char session.reader.remaining

theorem read_append (session : Session σ) (first second : List σ) :
    session.read python char (first ++ second) =
      (session.read python char first).read python char second := by
  simp only [read, LineReader.feed_append, Client.lines, List.foldl_append]

theorem reading_eq (text : List σ) :
    reading python char text = (({} : Session σ).read python char text).close python char := by
  simp only [reading, splitLines, Client.lines, List.foldl_append]
  rfl

variable {python char}

/-- The rest of a line with the character that ends it. -/
theorem read_line_from {client : Client σ} {line : List σ}
    (plain : ∀ s ∈ line, charMark (char s) = .inside) {s : σ}
    (breaks : charMark (char s) = .newline ∨ charMark (char s) = .other) (sofar rest : List σ) :
    Session.read python char ⟨⟨sofar, false⟩, client⟩ (line ++ s :: rest) =
      Session.read python char ⟨{}, client.line python char (sofar ++ line)⟩ rest := by
  have inside : ∀ s ∈ line, (charMark ∘ char) s = .inside := plain
  have ends : (charMark ∘ char) s = .newline ∨ (charMark ∘ char) s = .other := breaks
  have fed := LineReader.feed_line inside ends sofar rest
  simp only [read, fed]
  rfl

/-- A line with the character that ends it. -/
theorem read_line {client : Client σ} {line : List σ}
    (plain : ∀ s ∈ line, charMark (char s) = .inside) {s : σ}
    (breaks : charMark (char s) = .newline ∨ charMark (char s) = .other) (rest : List σ) :
    Session.read python char ⟨{}, client⟩ (line ++ s :: rest) =
      Session.read python char ⟨{}, client.line python char line⟩ rest :=
  read_line_from plain breaks [] rest

end Session

/-- A client that has ended reads no further lines. -/
theorem Client.lines_ended {σ : Type} {char : σ → Char} {client : Client σ}
    (ended : client.ending.isSome) (texts : List (List σ)) :
    client.lines python char texts = client := by
  induction texts with
  | nil => rfl
  | cons text rest ih =>
    have stays : client.line python char text = client := by rw [Client.line, if_pos ended]
    rw [Client.lines, List.foldl_cons, stays]
    exact ih

/-- A line that is not empty ends nothing. -/
theorem Client.line_grows {σ : Type} (char : σ → Char) {client : Client σ}
    (live : client.ending = none) {text : List σ} (filled : text ≠ []) :
    (client.line python char text).ending = none ∧
      (client.line python char text).delivered = client.delivered ∧
      (client.line python char text).generation = client.generation ∧
      (∃ more, (client.line python char text).data = client.data ++ more) ∧
      ((client.line python char text).eventName = client.eventName ∨
        (client.line python char text).eventName = some (strip char (text.drop 6))) := by
  have running : client.ending.isSome = false := by rw [live]; rfl
  have some : text.isEmpty = false := by simpa using filled
  simp only [Client.line, running, some, Bool.false_eq_true, if_false]
  split
  · exact ⟨live, rfl, rfl, ⟨[], by simp⟩, Or.inr rfl⟩
  · split
    · exact ⟨live, rfl, rfl, ⟨_, rfl⟩, Or.inl rfl⟩
    · exact ⟨live, rfl, rfl, ⟨[], by simp⟩, Or.inl rfl⟩

/-- What has been delivered stays so. -/
theorem Client.delivered_prefix {σ : Type} (char : σ → Char) (client : Client σ)
    (texts : List (List σ)) : client.delivered <+: (client.lines python char texts).delivered := by
  induction texts generalizing client with
  | nil => exact List.prefix_rfl
  | cons text rest ih =>
    have first : client.delivered <+: (client.line python char text).delivered := by
      rw [Client.line]
      split
      · exact List.prefix_rfl
      · split
        · split
          · exact List.prefix_rfl
          · exact List.prefix_append _ _
        · split
          · exact List.prefix_rfl
          · split <;> exact List.prefix_rfl
    exact first.trans (ih _)

theorem Session.delivered_prefix {σ : Type} (char : σ → Char) (session : Session σ)
    (text : List σ) :
    session.client.delivered <+:
      ((session.read python char text).close python char).delivered :=
  (Client.delivered_prefix python char _ _).trans (Client.delivered_prefix python char _ _)

/-- A client that has ended stays as it is. -/
theorem Session.close_ended {σ : Type} {char : σ → Char} {session : Session σ}
    (ended : session.client.ending.isSome) (more : List σ) :
    (session.read python char more).close python char = session.client := by
  have stays : (session.read python char more).client = session.client :=
    Client.lines_ended python ended _
  rw [Session.close, stays, Client.lines_ended python ended]

/-! ### What symbols carry does not matter -/

section Symbols

variable {σ : Type} (char : σ → Char)

theorem lstrip_map (text : List σ) : lstrip id (text.map char) = (lstrip char text).map char :=
  trimLeft_map char text

theorem strip_map (text : List σ) : strip id (text.map char) = (strip char text).map char :=
  trim_map char text

theorem startsWith_map (first : String) (text : List σ) :
    startsWith id first (text.map char) = startsWith char first text := by
  simp [startsWith]

variable {python}

theorem Client.line_map (client : Client σ) (text : List σ) :
    (client.line python char text).map char = (client.map char).line python id (text.map char) := by
  have raw : (client.map char).raw id = client.raw char := by simp [Client.raw, Client.map]
  have name : (client.map char).name id = client.name char := by
    cases named : client.eventName <;> simp [Client.name, Client.map, named]
  simp only [Client.line, startsWith_map, List.isEmpty_map]
  have same : (client.map char).ending = client.ending := rfl
  have empty : (client.map char).data.isEmpty = client.data.isEmpty := List.isEmpty_map
  rw [same, empty]
  split
  · rfl
  · split
    · split
      · rfl
      · simp only [Client.dispatch, raw, name]
        simp [Client.map, Block.map]
    · split
      · simp [Client.map, ← strip_map]
      · split
        · simp [Client.map, ← lstrip_map]
        · rfl

theorem Client.lines_map (client : Client σ) (texts : List (List σ)) :
    (client.lines python char texts).map char =
      (client.map char).lines python id (texts.map (List.map char)) := by
  induction texts generalizing client with
  | nil => rfl
  | cons text rest ih =>
    have step := ih (client.line python char text)
    rw [Client.line_map] at step
    exact step

/-- What symbols carry besides their characters does not matter. -/
theorem streamEvents_char (text : List σ) :
    streamEvents python char text = streamEvents python id (text.map char) := by
  have mapped : (reading python char text).map char = reading python id (text.map char) := by
    rw [reading, reading, Client.lines_map, splitLines_map]
    rfl
  simp only [streamEvents]
  rw [← mapped]
  simp only [Client.events, Client.map, List.flatMap_map]

end Symbols

end IntramindRuntime.Proxy
