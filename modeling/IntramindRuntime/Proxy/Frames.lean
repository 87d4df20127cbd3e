import IntramindRuntime.Proxy.StreamEvents

/-!
# The frames of a response

The frames that a response to a direct request is made of: completion chunks of the engine,
comments, and the frames of the proxy itself, which name their event `intramind.control` or
`intramind.error`.

## Main definitions

* `controlBody`, `ErrorFrame`, `Evidence` — what the proxy writes
* `Chunk` — a completion chunk with its text
* `Frame`, `Frame.text` — a frame and its text
* `expected` — the events that frames stand for
-/

namespace IntramindRuntime.Proxy

open Library

/-! ### What the proxy writes -/

/-- `_evidence` -/
structure Evidence where
  attemptId : String
  logicalRequestId : Option String
  generation : ℤ
  computeState : String

/-- A text or `None`. -/
def textOrNull : Option String → Json
  | some text => .str text
  | none => .null

/-- The members of `_evidence`. -/
def Evidence.members (evidence : Evidence) : List (String × Json) :=
  [("attempt_id", .str evidence.attemptId),
    ("logical_request_id", textOrNull evidence.logicalRequestId),
    ("generation", .int evidence.generation), ("compute_state", .str evidence.computeState)]

/-- The kinds that `_control` is called with. -/
inductive ControlKind
  | waiting | resumed | recovering | generationReset
  deriving DecidableEq

/-- The text of a kind. -/
def ControlKind.text : ControlKind → String
  | .waiting => "waiting"
  | .resumed => "resumed"
  | .recovering => "recovering"
  | .generationReset => "generation_reset"

/-- The event of a kind. -/
def ControlKind.event : ControlKind → EventKind
  | .waiting => .waiting
  | .resumed => .resumed
  | .recovering => .recovering
  | .generationReset => .generationReset

/-- The body of `_control`. An empty reason is left out like none. -/
def controlBody (kind : ControlKind) (generation : ℤ) (reason : Option String) :
    List (String × Json) :=
  [("type", .str kind.text), ("generation", .int generation)] ++
    match reason with
    | none => []
    | some text => if text = "" then [] else [("reason", .str text)]

/-- The body of the frame that tells that an attempt has been sent. -/
def startedBody (evidence : Evidence) : List (String × Json) :=
  ("type", .str "started") :: evidence.members

/-- A frame of an error. The reason may be left out, and the evidence is in the frames of
attempts only. -/
structure ErrorFrame where
  message : String
  errorType : String
  reason : Option (Option String)
  evidence : Option Evidence

namespace ErrorFrame

/-- The body of the frame. -/
def body (error : ErrorFrame) : List (String × Json) :=
  [("message", .str error.message), ("type", .str error.errorType)] ++
    (match error.evidence with
      | none => []
      | some evidence => evidence.members) ++
    match error.reason with
      | none => []
      | some reason => [("reason", textOrNull reason)]

/-- `_error_frame` -/
def plain (message errorType : String) (reason : Option String) : ErrorFrame :=
  ⟨message, errorType, reason.map some, none⟩

/-- The reason that a reader finds. -/
def reasonRead (error : ErrorFrame) : Json := textOrNull (error.reason.getD none)

end ErrorFrame

/-- A frame with a name: the name, and its data on one line. -/
def namedText (name : String) (body : List (String × Json)) : List Char :=
  "event: ".toList ++ name.toList ++ '\n' ::
    ("data: ".toList ++ (Json.obj body).encode ++ ['\n', '\n'])

/-! ### Completion chunks -/

/-- A choice of a completion chunk: its content is a text, or there is none. -/
def isChoice (choice : Json) : Bool :=
  choice.isObj &&
    match choice.get? "delta" with
    | none => true
    | some delta =>
      delta.isObj &&
        match delta.get? "content" with
        | none | some .null | some (.str _) => true
        | _ => false

/-- The choices of a frame. -/
def choices (frame : Json) : List Json :=
  match frame.get? "choices" with
  | some (.arr items) => items
  | _ => []

/-- The frame is a completion chunk. -/
def isCompletion (frame : Json) : Bool :=
  frame.isObj &&
    (match frame.get? "choices" with
      | none => true
      | some (.arr items) => items.all isChoice
      | _ => false) &&
    match frame.get? "intramind_generation" with
    | none | some (.int _) => true
    | _ => false

/-- The content of a choice. -/
def content (choice : Json) : String :=
  match ((choice.get? "delta").getD .null).get? "content" with
  | some (.str text) => text
  | _ => ""

/-- The generation of a chunk: its own one, or else the one of the stream. -/
def chunkGeneration (frame : Json) (generation : ℤ) : ℤ :=
  match frame.get? "intramind_generation" with
  | some (.int own) => own
  | _ => generation

/-- A completion chunk on one line. Its text is any text that is read as the chunk. -/
structure Chunk where
  text : List Char
  frame : Json
  loads : Json.loads text = some frame
  completion : isCompletion frame
  oneLine : '\n' ∉ text ∧ '\r' ∉ text

/-! ### Frames -/

/-- The frames of a response. -/
inductive Frame
  | chunk (chunk : Chunk)
  /-- A comment, on one line. -/
  | comment (text : List Char) (oneLine : ∀ c ∈ text, charMark c = .inside)
  | control (kind : ControlKind) (generation : ℤ) (reason : Option String)
  | started (evidence : Evidence)
  | error (error : ErrorFrame)

namespace Frame

/-- The text of a frame. -/
def text : Frame → List Char
  | .chunk c => "data: ".toList ++ c.text ++ ['\n', '\n']
  | .comment text _ => ':' :: text ++ ['\n', '\n']
  | .control kind generation reason =>
    namedText "intramind.control" (controlBody kind generation reason)
  | .started evidence => namedText "intramind.control" (startedBody evidence)
  | .error failure => namedText "intramind.error" failure.body

/-- The events that a frame stands for. -/
def events (generation : ℤ) : Frame → List Event
  | .chunk c =>
    (((choices c.frame).map content).filter fun text => text ≠ "").map fun text =>
      { kind := .token, text := .str text, generation := chunkGeneration c.frame generation }
  | .control kind own reason =>
    [{ kind := kind.event
       generation := own
       reason := textOrNull (reason.filter fun text => text ≠ "") }]
  | _ => []

/-- The generation behind a frame. -/
def next (generation : ℤ) : Frame → ℤ
  | .control .generationReset own _ => own
  | _ => generation

end Frame

/-- The text of a complete response. -/
def response (frames : List Frame) : List Char :=
  frames.flatMap Frame.text ++ "data: [DONE]\n\n".toList

/-- The events that frames stand for, and how reading ends. -/
def expected (generation : ℤ) : List Frame → List Event × Ending
  | [] => ([], .returned)
  | .error failure :: _ =>
    ([], .streamError (.str failure.message) failure.reasonRead (.str failure.errorType))
  | frame :: rest =>
    let more := expected (frame.next generation) rest
    (frame.events generation ++ more.1, more.2)

/-- The frames up to the first error. -/
def reached : List Frame → List Frame
  | [] => []
  | .error failure :: _ => [.error failure]
  | frame :: rest => frame :: reached rest

/-- The line ends that JSON texts need not escape. -/
def isSeparator (c : Char) : Prop := c = '\x85' ∨ c = '\u2028' ∨ c = '\u2029'

instance (c : Char) : Decidable (isSeparator c) := by
  unfold isSeparator
  infer_instance

/-- No character of the frame is a line end that is not escaped, and an error has a message. -/
def Frame.Clear : Frame → Prop
  | .error failure => (∀ c ∈ (Frame.error failure).text, ¬ isSeparator c) ∧ failure.message ≠ ""
  | frame => ∀ c ∈ frame.text, ¬ isSeparator c

end IntramindRuntime.Proxy
