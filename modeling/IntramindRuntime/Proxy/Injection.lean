import IntramindRuntime.Proxy.RoundTrip
import IntramindRuntime.Proxy.EvidenceStream

/-!
# Frames of the proxy behind upstream bytes

The proxy writes its own frames behind the bytes of the engine, which may break off anywhere.
Both readers get such a frame as an event of its own exactly when the bytes before it end
outside of any event.

To tell what an event is made of, every byte carries whether it belongs to the frame.

## Main definitions

* `Injected` — the frames that the proxy writes itself
* `Block.Is` — an event is the frame, and made of it alone
-/

namespace IntramindRuntime.Proxy

open Library

/-! ### Frames that the proxy writes itself -/

/-- The frames of the proxy. -/
inductive Injected
  | control (kind : ControlKind) (generation : ℤ) (reason : Option String)
  | started (evidence : Evidence)
  | error (failure : ErrorFrame)

namespace Injected

/-- The name of the event. -/
def name : Injected → String
  | .error _ => "intramind.error"
  | _ => "intramind.control"

/-- The body of the data. -/
def body : Injected → List (String × Json)
  | .control kind generation reason => controlBody kind generation reason
  | .started evidence => startedBody evidence
  | .error failure => failure.body

/-- The data. -/
def data (frame : Injected) : List Char := (Json.obj frame.body).encode

/-- The frame as one of a response. -/
def frame : Injected → Frame
  | .control kind generation reason => .control kind generation reason
  | .started evidence => .started evidence
  | .error failure => .error failure

/-- The text of the frame. -/
def text (frame : Injected) : List Char := namedText frame.name frame.body

theorem flat (frame : Injected) : (frame.body.map Prod.fst).Nodup ∧
    ∀ member ∈ frame.body, member.2.isPlain ∧ member.2.sortKeys = member.2 := by
  cases frame with
  | control kind generation reason => exact controlBody_flat kind generation reason
  | started evidence => exact startedBody_flat evidence
  | error failure => exact failure.body_flat

theorem name_cases (frame : Injected) :
    frame.name = "intramind.control" ∨ frame.name = "intramind.error" := by
  cases frame with
  | error failure => exact Or.inr rfl
  | _ => exact Or.inl rfl

end Injected

section Symbols

variable {σ τ : Type} (symbol : σ → τ) (own : σ → Bool)

/-- The event has this name and this one data line, and all of it is own. -/
def Block.Is (name data : List τ) (block : Block σ) : Prop :=
  ∃ given line, block = ⟨some given, [line]⟩ ∧ given.map symbol = name ∧ line.map symbol = data ∧
    (∀ s ∈ given, own s) ∧ ∀ s ∈ line, own s

end Symbols

/-! ### The stream client -/

section StreamClient

variable {python : Builtins} {σ : Type} {char : σ → Char} {own : σ → Bool} {frame : Injected}

/-- An error is the last event, and reading ends with it. -/
def Injected.Ends {α : Type} (after : List α) (ending : Option Ending) : Injected → Prop
  | .error failure => after = [] ∧ ∃ message, ending =
      some (.streamError message failure.reasonRead (.str failure.errorType))
  | _ => True

/-- The client got the frame as an event of its own: it delivered the event, or raised the
error, and no other symbol is part of it. -/
def Client.Got (char : σ → Char) (own : σ → Bool) (frame : Injected) (client : Client σ) : Prop :=
  ∃ before after block,
    client.delivered = before ++ (block, frame.frame.events 0) :: after ∧
      block.Is char own frame.name.toList frame.data ∧ frame.Ends after client.ending

/-- The client can get a frame: it reads, is at the start of a line, and has no data yet. -/
structure Session.Ready (session : Session σ) : Prop where
  live : session.client.ending = none
  line : session.reader.line = []
  data : session.client.data = []

/-- No event is the frame. -/
def Client.Missed (char : σ → Char) (own : σ → Bool) (frame : Injected) (client : Client σ) :
    Prop :=
  ∀ entry ∈ client.delivered, ¬ entry.1.Is char own frame.name.toList frame.data

theorem Client.Got.not_missed {client : Client σ} (got : client.Got char own frame) :
    ¬ client.Missed char own frame := by
  obtain ⟨before, after, block, delivered, is, _⟩ := got
  intro missed
  have member : (block, frame.frame.events 0) ∈ client.delivered := by simp [delivered]
  exact missed _ member is

/-- No symbol is own. -/
def Foreign (own : σ → Bool) (text : List σ) : Prop := ∀ s ∈ text, own s = false

theorem Injected.data_cons (frame : Injected) : ∃ rest, frame.data = '{' :: rest := ⟨_, rfl⟩

/-- Data without own symbols is not the frame. -/
theorem Block.not_is_of_foreign {block : Block σ} (foreign : ∀ d ∈ block.data, Foreign own d) :
    ¬ block.Is char own frame.name.toList frame.data := by
  rintro ⟨given, line, rfl, _, same, _, all⟩
  obtain ⟨rest, shape⟩ := frame.data_cons
  rw [shape] at same
  obtain ⟨s, tail, rfl, _⟩ := List.map_eq_cons_iff.mp same
  have yes : own s = true := all s (by simp)
  have no : own s = false := foreign (s :: tail) (by simp) s (by simp)
  rw [yes] at no
  cases no

/-- A line without own symbols makes no event the frame. -/
theorem Client.line_foreign {client : Client σ} (data : ∀ d ∈ client.data, Foreign own d)
    {text : List σ} (foreign : Foreign own text) :
    (∀ d ∈ (client.line python char text).data, Foreign own d) ∧
      (client.Missed char own frame → (client.line python char text).Missed char own frame) := by
  rw [Client.line]
  split
  · exact ⟨data, id⟩
  · split
    · split
      · exact ⟨data, id⟩
      · refine ⟨by simp [Client.dispatch], fun missed entry member => ?_⟩
        rcases List.mem_append.mp member with old | new
        · exact missed entry old
        · rw [List.mem_singleton.mp new]
          exact Block.not_is_of_foreign data
    · split
      · exact ⟨data, id⟩
      · split
        · refine ⟨fun d member => ?_, id⟩
          rcases List.mem_append.mp member with old | new
          · exact data d old
          · rw [List.mem_singleton.mp new]
            exact fun s here => foreign s
              (List.mem_of_mem_drop ((trimLeft_sublist _).subset here))
        · exact ⟨data, id⟩

theorem Client.lines_foreign {client : Client σ} (data : ∀ d ∈ client.data, Foreign own d)
    {texts : List (List σ)} (foreign : ∀ text ∈ texts, Foreign own text) :
    (∀ d ∈ (client.lines python char texts).data, Foreign own d) ∧
      (client.Missed char own frame → (client.lines python char texts).Missed char own frame) := by
  induction texts generalizing client with
  | nil => exact ⟨data, id⟩
  | cons text rest ih =>
    have first := @Client.line_foreign python σ char own frame client data text
      (foreign text (by simp))
    have more := ih first.1 fun text member => foreign text (by simp [member])
    exact ⟨more.1, fun missed => more.2 (first.2 missed)⟩

/-- A text without own symbols makes no event the frame. -/
theorem Session.close_missed {session : Session σ} (line : Foreign own session.reader.line)
    (data : ∀ d ∈ session.client.data, Foreign own d)
    (missed : session.client.Missed char own frame) {text : List σ} (foreign : Foreign own text) :
    ((session.read python char text).close python char).Missed char own frame := by
  have fed := @LineReader.forall_mem_feed σ (charMark ∘ char) (fun s => own s = false)
    session.reader text line fun s member _ => foreign s member
  have read := @Client.lines_foreign python σ char own frame session.client data _ fed.1
  have last : ∀ one ∈ (session.read python char text).reader.remaining, Foreign own one := by
    intro one member
    rw [LineReader.remaining] at member
    split at member
    · cases member
    · rw [List.mem_singleton.mp member]
      exact fed.2
  exact (Client.lines_foreign read.1 last).2 (read.2 missed)

/-! #### The symbols of a frame -/

/-- The symbols of a frame: its lines, and what ends them. -/
structure Injected.Symbols (char : σ → Char) (frame : Injected) where
  first : List σ
  second : List σ
  a : σ
  b : σ
  c : σ
  name : first.map char = "event: ".toList ++ frame.name.toList
  data : second.map char = "data: ".toList ++ frame.data
  newline : char a = '\n' ∧ char b = '\n' ∧ char c = '\n'

/-- All the symbols. -/
def Injected.Symbols.text (symbols : frame.Symbols char) : List σ :=
  symbols.first ++ symbols.a :: (symbols.second ++ [symbols.b, symbols.c])

theorem Injected.symbols {text : List σ} (frame : Injected) (same : text.map char = frame.text) :
    ∃ symbols : frame.Symbols char, symbols.text = text := by
  have shape : frame.text = ("event: ".toList ++ frame.name.toList) ++ '\n' ::
      (("data: ".toList ++ frame.data) ++ ['\n', '\n']) := by
    have := namedText_append frame.name frame.body []
    simpa [Injected.text, Injected.data] using this
  rw [shape] at same
  obtain ⟨first, rest, rfl, name, same⟩ := List.map_eq_append_iff.mp same
  obtain ⟨a, rest, rfl, one, same⟩ := List.map_eq_cons_iff.mp same
  obtain ⟨second, rest, rfl, data, same⟩ := List.map_eq_append_iff.mp same
  obtain ⟨b, rest, rfl, two, same⟩ := List.map_eq_cons_iff.mp same
  obtain ⟨c, rfl, three⟩ := List.map_eq_singleton_iff.mp same
  exact ⟨⟨first, second, a, b, c, name, data, one, two, three⟩, rfl⟩

/-- The lines of a frame, behind the unfinished line before it. -/
theorem Session.read_injected (symbols : frame.Symbols char)
    (clear : ∀ c ∈ frame.text, ¬ isSeparator c) (session : Session σ) (more : List σ) :
    session.read python char (symbols.text ++ more) =
      Session.read python char ⟨{}, ((session.client.line python char
        (session.reader.line ++ symbols.first)).line python char symbols.second).line
          python char []⟩ more := by
  have breaks {s : σ} (newline : char s = '\n') :
      charMark (char s) = .newline ∨ charMark (char s) = .other := by
    rw [newline]
    exact Or.inl rfl
  have first : ∀ s ∈ symbols.first, charMark (char s) = .inside := by
    intro s member
    have there : char s ∈ "event: ".toList ++ frame.name.toList := by
      rw [← symbols.name]
      exact List.mem_map_of_mem member
    rcases frame.name_cases with named | named <;> rw [named] at there <;>
      exact (List.all_iff_forall_prop (p := (charMark · = .inside))).mp (by decide) _ there
  have second : ∀ s ∈ symbols.second, charMark (char s) = .inside := by
    intro s member
    have there : char s ∈ "data: ".toList ++ frame.data := by
      rw [← symbols.data]
      exact List.mem_map_of_mem member
    rcases List.mem_append.mp there with head | here
    · exact data_plain _ head
    · have plain : (Json.obj frame.body).isPlain :=
        (Json.memberPlain_iff _).mpr fun each member => (frame.flat.2 each member).1
      exact charMark_inside (Json.encode_printable plain here)
        (clear _ ((mem_namedText _ _).mpr (by
          right; right; right; right
          exact here)))
  have lead : session.read python char symbols.first =
      ⟨⟨session.reader.line ++ symbols.first, false⟩, session.client⟩ := by
    have some : symbols.first ≠ [] := by
      intro none
      have := symbols.name
      rw [none] at this
      cases this
    obtain ⟨s, rest, cons⟩ := List.exists_cons_of_ne_nil some
    have plain : ∀ t ∈ s :: rest, (charMark ∘ char) t = .inside := by
      rw [← cons]
      exact first
    have fed := LineReader.feed_inside plain session.reader
    rw [Session.read, cons, fed]
    rfl
  have parts : symbols.text ++ more = symbols.first ++
      ([] ++ symbols.a :: (symbols.second ++ symbols.b :: ([] ++ symbols.c :: more))) := by
    simp [Injected.Symbols.text]
  rw [parts, Session.read_append, lead,
    Session.read_line_from (by simp) (breaks symbols.newline.1), List.append_nil,
    Session.read_line second (breaks symbols.newline.2.1),
    Session.read_line (by simp) (breaks symbols.newline.2.2)]

/-- What the lines of a frame do to a client that reads: they deliver an event with the data of
the frame, behind the data that the client has already. -/
theorem Client.line_injected (symbols : frame.Symbols char) {client : Client σ}
    (live : client.ending = none) (sofar : List σ) : ∃ name data,
      (name = client.eventName ∨ name = some (strip char ((sofar ++ symbols.first).drop 6))) ∧
      (sofar = [] → name = some (strip char (symbols.first.drop 6)) ∧ data = client.data) ∧
      (∃ more, data = client.data ++ more) ∧
      (((client.line python char (sofar ++ symbols.first)).line python char
        symbols.second).line python char []) =
        ({ client with
          eventName := name
          data := data ++ [lstrip char (symbols.second.drop 5)] } : Client σ).dispatch
            python char := by
  have some : sofar ++ symbols.first ≠ [] := by
    intro none
    have := symbols.name
    rw [(List.append_eq_nil_iff.mp none).2] at this
    cases this
  obtain ⟨stays, delivered, generation, ⟨more, grown⟩, named⟩ :=
    Client.line_grows python char live some
  refine ⟨_, _, named, ?_, ⟨more, grown⟩, ?_⟩
  · rintro rfl
    have starts : startsWith char "event:" symbols.first := by
      rw [startsWith, symbols.name]
      rfl
    have filled : symbols.first.isEmpty = false := by simpa using some
    rw [List.nil_append, Client.line, live]
    simp [starts, filled]
  · have filled : symbols.second.isEmpty = false := by
      have := symbols.data
      cases same : symbols.second with
      | nil => rw [same] at this; cases this
      | cons s rest => rfl
    have other : startsWith char "event:" symbols.second = false := by
      rw [startsWith, symbols.data]
      rfl
    have starts : startsWith char "data:" symbols.second := by
      rw [startsWith, symbols.data]
      rfl
    generalize client.line python char (sofar ++ symbols.first) = behind at *
    have second : behind.line python char symbols.second =
        { behind with data := behind.data ++ [lstrip char (symbols.second.drop 5)] } := by
      simp [Client.line, stays, filled, other, starts]
    have third : ({ behind with
        data := behind.data ++ [lstrip char (symbols.second.drop 5)] } : Client σ).line
          python char [] = ({ behind with
        data := behind.data ++ [lstrip char (symbols.second.drop 5)] } : Client σ).dispatch
          python char := by
      simp [Client.line, stays]
    rw [second, third]
    simp only [Client.dispatch, Client.name, Client.raw, delivered, generation]

/-- Behind an unfinished line, the line with the name of the event names no event of that
name. -/
theorem Injected.Symbols.long (symbols : frame.Symbols char) {sofar : List σ}
    (some : sofar ≠ []) :
    frame.name.toList.length < (strip char ((sofar ++ symbols.first).drop 6)).length := by
  have shape : symbols.first.map char = "event:".toList ++ (' ' :: frame.name.toList) :=
    symbols.name
  obtain ⟨field, rest, whole, head, tail⟩ := List.map_eq_append_iff.mp shape
  obtain ⟨blank, name, rfl, space, same⟩ := List.map_eq_cons_iff.mp tail
  have size : field.length = 6 := by simpa using congrArg List.length head
  have solid : ∀ s ∈ field, isSpace (char s) = false := by
    intro s member
    have there : char s ∈ "event:".toList := by
      rw [← head]
      exact List.mem_map_of_mem member
    exact (List.all_iff_forall_prop (p := (isSpace · = false))).mp (by decide) _ there
  have others : ∀ s ∈ name, isSpace (char s) = false := by
    intro s member
    have there : char s ∈ frame.name.toList := by
      rw [← same]
      exact List.mem_map_of_mem member
    rcases frame.name_cases with named | named <;> rw [named] at there <;>
      exact (List.all_iff_forall_prop (p := (isSpace · = false))).mp (by decide) _ there
  have filled : name ≠ [] := by
    rintro rfl
    rcases frame.name_cases with named | named <;> rw [named] at same <;> cases same
  have long := @length_trim_drop σ (fun s => isSpace (char s)) field name blank solid others filled
    sofar some (by omega)
  rw [← same, List.length_map, whole, strip, ← size]
  exact long

/-- The name and the data of a frame, as the client takes them from its lines. -/
theorem Injected.Symbols.read (symbols : frame.Symbols char) :
    (strip char (symbols.first.drop 6)).map char = frame.name.toList ∧
      (lstrip char (symbols.second.drop 5)).map char = frame.data := by
  constructor
  · rw [← strip_map, List.map_drop, symbols.name]
    rcases frame.name_cases with named | named <;> rw [named] <;> decide
  · rw [← lstrip_map, List.map_drop, symbols.data]
    exact lstrip_encode frame.body

/-- The name that is read is not own while the lines are not. -/
theorem Client.name_foreign {client : Client σ} (name : ∀ n ∈ client.eventName, Foreign own n)
    {texts : List (List σ)} (foreign : ∀ text ∈ texts, Foreign own text) :
    ∀ n ∈ (client.lines python char texts).eventName, Foreign own n := by
  induction texts generalizing client with
  | nil => exact name
  | cons text rest ih =>
    refine ih ?_ fun text member => foreign text (by simp [member])
    rw [Client.line]
    split
    · exact name
    · split
      · split
        · simp
        · simp [Client.dispatch]
      · split
        · intro n member
          rw [Option.mem_some_iff.mp member |>.symm]
          exact fun s here => foreign text (by simp) s
            (List.mem_of_mem_drop ((trim_sublist _).subset here))
        · split
          · exact name
          · exact name

/-- The data of events has a property that all lines have. -/
theorem Client.lines_data {p : σ → Prop} {texts : List (List σ)}
    (holds : ∀ text ∈ texts, ∀ s ∈ text, p s) {client : Client σ}
    (data : ∀ d ∈ client.data, ∀ s ∈ d, p s)
    (delivered : ∀ entry ∈ client.delivered, ∀ d ∈ entry.1.data, ∀ s ∈ d, p s) :
    ∀ entry ∈ (client.lines python char texts).delivered, ∀ d ∈ entry.1.data, ∀ s ∈ d, p s := by
  induction texts generalizing client with
  | nil => exact delivered
  | cons line rest ih =>
    refine ih (fun text member => holds text (List.mem_cons_of_mem _ member)) ?_ ?_
    · rw [Client.line]
      split
      · exact data
      · split
        · split
          · exact data
          · simp [Client.dispatch]
        · split
          · exact data
          · split
            · intro d member
              rcases List.mem_append.mp member with old | new
              · exact data d old
              · rw [List.mem_singleton.mp new]
                exact fun s here => holds line (by simp) s
                  (List.mem_of_mem_drop ((trimLeft_sublist _).subset here))
            · exact data
    · rw [Client.line]
      split
      · exact delivered
      · split
        · split
          · exact delivered
          · intro entry member
            rcases List.mem_append.mp member with old | new
            · exact delivered entry old
            · rw [List.mem_singleton.mp new]
              exact data
        · split
          · exact delivered
          · split <;> exact delivered

/-- What the data of a frame does: it delivers the event of the frame, and an error ends
reading. -/
theorem Injected.deliver (python : Builtins) (frame : Injected) (generation : ℤ) :
    ∃ next ending, Proxy.deliver python frame.name.toList frame.data generation =
        ⟨frame.frame.events 0, next, ending⟩ ∧
      match frame with
      | .error failure => ∃ message, ending =
          some (.streamError message failure.reasonRead (.str failure.errorType))
      | _ => ending = none := by
  cases frame with
  | control kind own reason => exact ⟨_, _, deliver_control python kind own reason generation, rfl⟩
  | started evidence => exact ⟨_, _, deliver_started python evidence generation, rfl⟩
  | error failure => exact ⟨_, _, deliver_error python failure generation, _, rfl⟩

/-- No line of an event has a character that ends lines, so a frame with one is missed. -/
theorem reading_missed {text : List σ} (unclear : ∃ c ∈ frame.text, isSeparator c) :
    (reading python char text).Missed char own frame := by
  have lines : ∀ line ∈ splitLines (charMark ∘ char) text, ∀ s ∈ line,
      charMark (char s) = .inside := forall_mem_splitLines fun s _ inside => inside
  intro entry member
  have inside := Client.lines_data lines (by simp) (by simp) entry member
  rintro ⟨given, line, block, _, same, _, _⟩
  obtain ⟨c, here, separator⟩ := unclear
  have mark : charMark c ≠ .inside := by
    rcases separator with rfl | rfl | rfl <;> decide
  have there : c ∈ frame.data := by
    rcases (mem_namedText frame.name frame.body).mp here with head | name | newline | head | data
    · exact absurd (event_plain c head) mark
    · exfalso
      rcases frame.name_cases with named | named <;> rw [named] at name
      · exact mark (control_plain c name)
      · exact mark (error_plain c name)
    · rw [newline] at separator
      exact absurd separator (by decide)
    · exact absurd (data_plain c head) mark
    · exact data
  rw [← same] at there
  obtain ⟨s, member, rfl⟩ := List.mem_map.mp there
  exact mark (inside line (by simp [block]) s member)

/-- The client gets a frame exactly when it is ready for it, and no character of the frame
ends a line. -/
theorem reading_got_iff {before text after : List σ} (outside : Foreign own before)
    (mine : ∀ s ∈ text, own s) (behind : Foreign own after) (same : text.map char = frame.text) :
    (reading python char (before ++ (text ++ after))).Got char own frame ↔
      (Session.read python char {} before).Ready ∧ ∀ c ∈ frame.text, ¬ isSeparator c := by
  obtain ⟨symbols, rfl⟩ := frame.symbols same
  have fed := @LineReader.forall_mem_feed σ (charMark ∘ char) (fun s => own s = false)
    {} before (by simp) fun s member _ => outside s member
  have read := @Client.lines_foreign python σ char own frame {} (by simp) _ fed.1
  have data : ∀ d ∈ (Session.read python char {} before).client.data, Foreign own d := read.1
  have missed : (Session.read python char {} before).client.Missed char own frame :=
    read.2 (by simp [Client.Missed])
  have name : ∀ n ∈ (Session.read python char {} before).client.eventName, Foreign own n :=
    @Client.name_foreign python σ char own {} (by simp) _ fed.1
  clear fed read
  constructor
  · intro got
    have clear : ∀ c ∈ frame.text, ¬ isSeparator c := by
      intro c member separator
      exact got.not_missed (reading_missed ⟨c, member, separator⟩)
    refine ⟨?_, clear⟩
    by_contra unready
    apply got.not_missed
    rw [Session.reading_eq, Session.read_append, Session.read_injected symbols clear]
    generalize Session.read python char {} before = session at *
    obtain ⟨reader, client⟩ := session
    dsimp only at data missed name unready ⊢
    by_cases live : client.ending = none
    · obtain ⟨eventName, lines, named, _, ⟨more, grown⟩, delivers⟩ :=
        Client.line_injected symbols live reader.line
      rw [delivers]
      refine Session.close_missed (by simp [Foreign]) (by simp [Client.dispatch]) ?_ behind
      intro entry member
      rcases List.mem_append.mp member with old | new
      · exact missed entry old
      · -- the event of the frame has an unfinished line or data before it
        rw [List.mem_singleton.mp new]
        rintro ⟨given, line, block, called, _, all, _⟩
        obtain ⟨rfl, single⟩ : eventName = some given ∧
            lines ++ [lstrip char (symbols.second.drop 5)] = [line] := by
          simpa using block
        have none : lines = [] := by
          have size := congrArg List.length single
          simpa using size
        rw [none] at grown
        apply unready
        refine ⟨live, ?_, (List.append_eq_nil_iff.mp grown.symm).1⟩
        by_contra other
        have some : reader.line ≠ [] := other
        rcases named with old | new
        · -- the name is one from before
          have filled : given ≠ [] := by
            rintro rfl
            rcases frame.name_cases with which | which <;> rw [which] at called <;> cases called
          obtain ⟨s, rest, rfl⟩ := List.exists_cons_of_ne_nil filled
          have no := name _ old.symm s (by simp)
          rw [all s (by simp)] at no
          cases no
        · -- the name begins in the unfinished line
          have long := symbols.long some
          have short := congrArg List.length called
          rw [Option.some.inj new, List.length_map] at short
          omega
    · have ended : client.ending.isSome := by
        cases ending : client.ending with
        | none => exact absurd ending live
        | some _ => rfl
      have stays (text : List σ) : client.line python char text = client :=
        Client.lines_ended python ended [text]
      rw [stays, stays, stays]
      exact Session.close_missed (by simp [Foreign]) data missed behind
  · rintro ⟨ready, clear⟩
    rw [Session.reading_eq, Session.read_append, Session.read_injected symbols clear]
    generalize Session.read python char {} before = session at *
    obtain ⟨reader, client⟩ := session
    obtain ⟨live, line, none⟩ := ready
    dsimp only at live line none ⊢
    obtain ⟨eventName, lines, _, exact', _, delivers⟩ :=
      Client.line_injected symbols live reader.line
    obtain ⟨rfl, rfl⟩ := exact' line
    rw [delivers, none, List.nil_append]
    obtain ⟨nameRead, dataRead⟩ := symbols.read
    have whole : (Block.mk (some (strip char (symbols.first.drop 6)))
        [lstrip char (symbols.second.drop 5)]).Is char own frame.name.toList frame.data := by
      refine ⟨_, _, rfl, nameRead, dataRead, fun s member => ?_, fun s member => ?_⟩
      · exact mine s (List.mem_append_left _ (List.mem_of_mem_drop ((trim_sublist _).subset member)))
      · refine mine s (List.mem_append_right _ (List.mem_cons_of_mem _ (List.mem_append_left _ ?_)))
        exact List.mem_of_mem_drop ((trimLeft_sublist _).subset member)
    obtain ⟨next, ending, delivery, ends⟩ := frame.deliver python client.generation
    rw [← nameRead, ← dataRead] at delivery
    have step : ({ client with
        eventName := some (strip char (symbols.first.drop 6))
        data := [lstrip char (symbols.second.drop 5)] } : Client σ).dispatch python char =
          { generation := next
            delivered := client.delivered ++ [(⟨some (strip char (symbols.first.drop 6)),
              [lstrip char (symbols.second.drop 5)]⟩, frame.frame.events 0)]
            ending := ending } := by
      have raw : ({ client with
          eventName := some (strip char (symbols.first.drop 6))
          data := [lstrip char (symbols.second.drop 5)] } : Client σ).raw char =
            (lstrip char (symbols.second.drop 5)).map char := by
        simp [Client.raw, List.intercalate]
      rw [Client.dispatch, raw]
      simp only [Client.name, delivery]
    rw [step]
    have kept := Session.delivered_prefix python char
      ⟨{}, { generation := next
             delivered := client.delivered ++ [(⟨some (strip char (symbols.first.drop 6)),
               [lstrip char (symbols.second.drop 5)]⟩, frame.frame.events 0)]
             ending := ending }⟩ after
    obtain ⟨later, kept⟩ := kept
    refine ⟨client.delivered, later, _, ?_, whole, ?_⟩
    · rw [← kept]
      simp
    · cases frame with
      | error failure =>
        -- nothing is delivered behind an error
        obtain ⟨message, rfl⟩ := ends
        rw [Session.close_ended python rfl] at kept ⊢
        refine ⟨?_, message, rfl⟩
        simpa using kept
      | _ => trivial

end StreamClient

/-! ### The evidence stream -/

section Evidence

variable {python : Builtins} {other : List UInt8 → Option Json}
variable {σ : Type} {byte : σ → UInt8} {own : σ → Bool} {frame : Injected}

/-- The stream recognized the frame as an event of its own. -/
def EvidenceStream.Got (byte : σ → UInt8) (own : σ → Bool) (frame : Injected)
    (stream : EvidenceStream σ) : Prop :=
  ∃ block given, (block, given) ∈ stream.recognized ∧
    block.Is byte own (ascii frame.name) (Utf8.encode frame.data) ∧
    ∀ name, given.get? name = (Json.obj frame.body).get? name

/-- No event is the frame. -/
def EvidenceStream.Missed (byte : σ → UInt8) (own : σ → Bool) (frame : Injected)
    (stream : EvidenceStream σ) : Prop :=
  ∀ entry ∈ stream.recognized, ¬ entry.1.Is byte own (ascii frame.name) (Utf8.encode frame.data)

/-- The stream can get a frame: it reads, and what waits is at the start of a line and has
neither a name of an event nor data. -/
structure EvidenceStream.Ready (byte : σ → UInt8) (stream : EvidenceStream σ) : Prop where
  live : stream.ending = none
  line : (({} : LineReader σ).feed (byteMark ∘ byte) stream.pending).2.line = []
  fields : ∀ line ∈ (({} : LineReader σ).feed (byteMark ∘ byte) stream.pending).1,
    EvidenceStream.begins byte "event:" line = false ∧
      EvidenceStream.begins byte "data:" line = false

theorem EvidenceStream.Got.not_missed {stream : EvidenceStream σ}
    (got : stream.Got byte own frame) : ¬ stream.Missed byte own frame := by
  obtain ⟨block, given, member, is, _⟩ := got
  exact fun missed => missed _ member is

theorem EvidenceStream.Missed.mono {first second : EvidenceStream σ}
    (missed : second.Missed byte own frame) (sub : first.recognized <+: second.recognized) :
    first.Missed byte own frame :=
  fun entry member => missed entry (sub.subset member)

theorem Injected.encode_data_cons (frame : Injected) :
    ∃ rest, Utf8.encode frame.data = 0x7B :: rest := ⟨_, rfl⟩

theorem Block.not_is_of_foreign_bytes {block : Block σ}
    (foreign : ∀ d ∈ block.data, Foreign own d) :
    ¬ block.Is byte own (ascii frame.name) (Utf8.encode frame.data) := by
  rintro ⟨given, line, rfl, _, same, _, all⟩
  obtain ⟨rest, shape⟩ := frame.encode_data_cons
  rw [shape] at same
  obtain ⟨s, tail, rfl, _⟩ := List.map_eq_cons_iff.mp same
  have yes : own s = true := all s (by simp)
  have no : own s = false := foreign (s :: tail) (by simp) s (by simp)
  rw [yes] at no
  cases no

/-- Symbols that are not own make no event the frame. -/
theorem EvidenceStream.feed_missed {stream : EvidenceStream σ} (pending : Foreign own stream.pending)
    (missed : stream.Missed byte own frame) {bytes : List σ} (foreign : Foreign own bytes) :
    Foreign own (stream.feed python other byte bytes).pending ∧
      (stream.feed python other byte bytes).Missed byte own frame := by
  induction bytes generalizing stream with
  | nil => exact ⟨pending, missed⟩
  | cons s rest ih =>
    have later : Foreign own rest := fun t member => foreign t (List.mem_cons_of_mem _ member)
    have step : Foreign own (stream.next python other byte s).pending ∧
        (stream.next python other byte s).Missed byte own frame := by
      rw [EvidenceStream.next]
      split
      · have cases := @EvidenceStream.frame_cases σ python other byte
          { stream with pending := [] } stream.pending.dropLast
        refine ⟨by simp [cases.1, Foreign], ?_⟩
        rcases cases.2 with same | ⟨_, given, more⟩
        · intro entry member
          rw [same] at member
          exact missed entry member
        · intro entry member
          rw [more] at member
          rcases List.mem_append.mp member with old | new
          · exact missed entry old
          · rw [List.mem_singleton.mp new]
            apply Block.not_is_of_foreign_bytes
            intro d member
            obtain ⟨line, here, rfl⟩ := List.mem_map.mp member
            have lines : ∀ line ∈ splitLines (byteMark ∘ byte) stream.pending.dropLast,
                ∀ s ∈ line, own s = false :=
              forall_mem_splitLines fun s there _ => pending s (List.dropLast_subset _ there)
            exact fun s there => lines line (List.mem_filter.mp here).1 s
              (List.mem_of_mem_drop ((trimLeft_sublist _).subset there))
      · refine ⟨fun t member => ?_, missed⟩
        rcases List.mem_append.mp member with old | new
        · exact pending t old
        · rw [List.mem_singleton.mp new]
          exact foreign s (by simp)
    exact ih step.1 step.2 later

/-! #### The symbols of a frame -/

/-- The bytes of a frame: its lines, and what ends them. -/
structure Injected.Bytes (byte : σ → UInt8) (frame : Injected) where
  first : List σ
  second : List σ
  a : σ
  b : σ
  c : σ
  name : first.map byte = ascii "event:" ++ 32 :: ascii frame.name
  data : second.map byte = ascii "data:" ++ 32 :: Utf8.encode frame.data
  newline : byte a = 10 ∧ byte b = 10 ∧ byte c = 10

/-- All but the last one. -/
def Injected.Bytes.open' (bytes : frame.Bytes byte) : List σ :=
  bytes.first ++ bytes.a :: (bytes.second ++ [bytes.b])

/-- All the bytes. -/
def Injected.Bytes.text (bytes : frame.Bytes byte) : List σ := bytes.open' ++ [bytes.c]

theorem Injected.bytes {text : List σ} (frame : Injected)
    (same : text.map byte = Utf8.encode frame.text) :
    ∃ bytes : frame.Bytes byte, bytes.text = text := by
  have shape : frame.text = ("event: ".toList ++ frame.name.toList) ++ ['\n'] ++
      (("data: ".toList ++ frame.data) ++ ['\n'] ++ ['\n']) := by
    have := namedText_append frame.name frame.body []
    simpa [Injected.text, Injected.data] using this
  have parts (first second : List Char) :
      Utf8.encode (first ++ second) = Utf8.encode first ++ Utf8.encode second :=
    List.flatMap_append
  have newline : Utf8.encode ['\n'] = [10] := rfl
  rw [shape, parts, parts, parts, parts _ ['\n'], newline] at same
  obtain ⟨front, rest, rfl, one, two⟩ := List.map_eq_append_iff.mp same
  obtain ⟨first, rest', rfl, name, one⟩ := List.map_eq_append_iff.mp one
  obtain ⟨a, rfl, newline_a⟩ := List.map_eq_singleton_iff.mp one
  obtain ⟨middle, rest', rfl, inner, three⟩ := List.map_eq_append_iff.mp two
  obtain ⟨c, rfl, newline_c⟩ := List.map_eq_singleton_iff.mp three
  rw [parts ("data: ".toList ++ frame.data), newline] at inner
  obtain ⟨second, rest', rfl, data, four⟩ := List.map_eq_append_iff.mp inner
  obtain ⟨b, rfl, newline_b⟩ := List.map_eq_singleton_iff.mp four
  refine ⟨⟨first, second, a, b, c, ?_, ?_, newline_a, newline_b, newline_c⟩, ?_⟩
  · rw [name]
    rfl
  · rw [data, parts]
    rfl
  · simp [Injected.Bytes.text, Injected.Bytes.open']

theorem Injected.Bytes.printable (bytes : frame.Bytes byte) :
    (∀ s ∈ bytes.first, 0x20 ≤ (byte s).toNat) ∧ ∀ s ∈ bytes.second, 0x20 ≤ (byte s).toNat := by
  constructor
  · intro s member
    have here : byte s ∈ ascii "event:" ++ 32 :: ascii frame.name := by
      rw [← bytes.name]
      exact List.mem_map_of_mem member
    rcases frame.name_cases with named | named <;> rw [named] at here <;>
      exact (List.all_iff_forall_prop (p := (0x20 ≤ UInt8.toNat ·))).mp (by decide) _ here
  · intro s member
    have here : byte s ∈ ascii "data:" ++ 32 :: Utf8.encode frame.data := by
      rw [← bytes.data]
      exact List.mem_map_of_mem member
    rcases List.mem_append.mp here with head | rest
    · exact (List.all_iff_forall_prop (p := (0x20 ≤ UInt8.toNat ·))).mp (by decide) _ head
    · rcases List.mem_cons.mp rest with blank | there
      · rw [blank]
        decide
      · have plain : (Json.obj frame.body).isPlain :=
          (Json.memberPlain_iff _).mpr fun each member => (frame.flat.2 each member).1
        exact Utf8.printable_encode (fun c => Json.encode_printable plain) _ there

theorem byteMark_inside {b : UInt8} (printable : 0x20 ≤ b.toNat) : byteMark b = .inside := by
  have ne (d : UInt8) (control : d.toNat < 0x20) : b ≠ d := by
    rintro rfl
    omega
  rw [byteMark, if_neg (ne 10 (by decide)), if_neg (ne 13 (by decide))]

theorem ne_newline {b : UInt8} (printable : 0x20 ≤ b.toNat) : b ≠ 10 := by
  rintro rfl
  revert printable
  decide

theorem Injected.Bytes.filled (bytes : frame.Bytes byte) :
    (∃ s rest, bytes.first = s :: rest) ∧ ∃ s rest, bytes.second = s :: rest := by
  constructor
  · refine List.exists_cons_of_ne_nil fun none => ?_
    have := bytes.name
    rw [none] at this
    cases this
  · refine List.exists_cons_of_ne_nil fun none => ?_
    have := bytes.data
    rw [none] at this
    cases this

/-- The last byte of some that are printable is no newline. -/
theorem getLast?_ne {text before : List σ} {s : σ} {rest : List σ} (shape : text = s :: rest)
    (printable : ∀ s ∈ text, 0x20 ≤ (byte s).toNat) :
    (before ++ text).getLast?.map byte ≠ some 10 := by
  have filled : text ≠ [] := by simp [shape]
  rw [List.getLast?_append_of_ne_nil _ filled, List.getLast?_eq_getLast_of_ne_nil filled]
  intro same
  exact ne_newline (printable _ (List.getLast_mem filled)) (Option.some.inj same)

/-- All but the last byte of a frame wait. -/
theorem EvidenceStream.feed_open (bytes : frame.Bytes byte) (stream : EvidenceStream σ) :
    stream.feed python other byte bytes.open' =
      { stream with pending := stream.pending ++ bytes.open' } := by
  obtain ⟨⟨s, rest, one⟩, ⟨t, more, two⟩⟩ := bytes.filled
  obtain ⟨first, second⟩ := bytes.printable
  have line (part : List σ) (printable : ∀ s ∈ part, 0x20 ≤ (byte s).toNat)
      (stream : EvidenceStream σ) : stream.feed python other byte part =
        { stream with pending := stream.pending ++ part } :=
    feed_line fun s member => ne_newline (printable s member)
  have newline (stream : EvidenceStream σ) (s : σ)
      (inside : stream.pending.getLast?.map byte ≠ some 10) :
      stream.feed python other byte [s] = { stream with pending := stream.pending ++ [s] } :=
    next_inside (Or.inr inside)
  have shape : bytes.open' = bytes.first ++ ([bytes.a] ++ (bytes.second ++ [bytes.b])) := rfl
  rw [shape, feed_append, line _ first, feed_append,
    newline _ bytes.a (getLast?_ne one first), feed_append, line _ second,
    newline _ bytes.b (getLast?_ne two second)]
  simp

/-- The last byte of a frame completes what waits. -/
theorem EvidenceStream.feed_text (bytes : frame.Bytes byte) (stream : EvidenceStream σ) :
    stream.feed python other byte bytes.text =
      ({ stream with pending := [] } : EvidenceStream σ).frame python other byte
        (stream.pending ++ (bytes.first ++ bytes.a :: bytes.second)) := by
  have last : (stream.pending ++ bytes.open') =
      (stream.pending ++ (bytes.first ++ bytes.a :: bytes.second)) ++ [bytes.b] := by
    simp [Injected.Bytes.open']
  rw [Injected.Bytes.text, feed_append, feed_open]
  exact next_newline bytes.newline.2.2 bytes.newline.2.1 last

/-- The lines of a complete frame, behind what waits before it. -/
theorem Injected.Bytes.lines (bytes : frame.Bytes byte) (waiting : List σ) :
    splitLines (byteMark ∘ byte) (waiting ++ (bytes.first ++ bytes.a :: bytes.second)) =
      (({} : LineReader σ).feed (byteMark ∘ byte) waiting).1 ++
        [(({} : LineReader σ).feed (byteMark ∘ byte) waiting).2.line ++ bytes.first,
          bytes.second] := by
  obtain ⟨⟨s, rest, one⟩, ⟨t, more, two⟩⟩ := bytes.filled
  obtain ⟨first, second⟩ := bytes.printable
  have inside : ∀ s ∈ bytes.first, (byteMark ∘ byte) s = .inside :=
    fun s member => byteMark_inside (first s member)
  have inside' : ∀ s ∈ bytes.second, (byteMark ∘ byte) s = .inside :=
    fun s member => byteMark_inside (second s member)
  have newline : (byteMark ∘ byte) bytes.a = .newline := by
    simp [byteMark, bytes.newline.1]
  have head (reader : LineReader σ) : reader.feed (byteMark ∘ byte) bytes.first =
      ([], ⟨reader.line ++ bytes.first, false⟩) := by
    rw [one] at inside ⊢
    exact LineReader.feed_inside inside reader
  have tail : ({} : LineReader σ).feed (byteMark ∘ byte) bytes.second =
      ([], ⟨bytes.second, false⟩) := by
    simpa using LineReader.feed_plain inside' []
  have middle (line : List σ) : (⟨line, false⟩ : LineReader σ).feed (byteMark ∘ byte)
      (bytes.a :: bytes.second) = ([line], ⟨bytes.second, false⟩) := by
    have fed := LineReader.feed_line (by simp : ∀ s ∈ ([] : List σ), (byteMark ∘ byte) s = .inside)
      (Or.inl newline) line bytes.second
    simp only [List.nil_append, List.append_nil] at fed
    rw [fed, tail]
  have some : bytes.second.isEmpty = false := by rw [two]; rfl
  simp only [splitLines, LineReader.feed_append, head, middle, LineReader.remaining, some,
    Bool.false_eq_true, if_false, List.nil_append, List.append_assoc, List.cons_append]

/-- Behind an unfinished line, the line with the name of the event names no event of that
name. -/
theorem Injected.Bytes.long (bytes : frame.Bytes byte) {sofar : List σ} (some : sofar ≠ []) :
    (ascii frame.name).length <
      (EvidenceStream.field byte 6 (sofar ++ bytes.first)).length := by
  obtain ⟨field, rest, whole, head, tail⟩ := List.map_eq_append_iff.mp bytes.name
  obtain ⟨blank, name, rfl, space, same⟩ := List.map_eq_cons_iff.mp tail
  have size : field.length = 6 := by
    rw [← List.length_map byte, head]
    rfl
  have solid : ∀ s ∈ field, isSpaceByte (byte s) = false := by
    intro s member
    have there : byte s ∈ ascii "event:" := by
      rw [← head]
      exact List.mem_map_of_mem member
    exact (List.all_iff_forall_prop (p := (isSpaceByte · = false))).mp (by decide) _ there
  have others : ∀ s ∈ name, isSpaceByte (byte s) = false := by
    intro s member
    have there : byte s ∈ ascii frame.name := by
      rw [← same]
      exact List.mem_map_of_mem member
    rcases frame.name_cases with named | named <;> rw [named] at there <;>
      exact (List.all_iff_forall_prop (p := (isSpaceByte · = false))).mp (by decide) _ there
  have filled : name ≠ [] := by
    rintro rfl
    rcases frame.name_cases with named | named <;> rw [named] at same <;> cases same
  have long := @length_trim_drop σ (fun s => isSpaceByte (byte s)) field name blank solid others
    filled sofar some (by omega)
  rw [← same, List.length_map, whole, EvidenceStream.field, ← size]
  exact long

/-- The fields that the lines of a frame begin with. -/
theorem Injected.Bytes.fields (bytes : frame.Bytes byte) :
    EvidenceStream.begins byte "event:" bytes.first ∧
      EvidenceStream.begins byte "data:" bytes.first = false ∧
      EvidenceStream.begins byte "event:" bytes.second = false ∧
      EvidenceStream.begins byte "data:" bytes.second := by
  simp only [EvidenceStream.begins, bytes.name, bytes.data]
  exact ⟨rfl, rfl, rfl, rfl⟩

/-- The name and the data of a frame, as the stream takes them from its lines. -/
theorem Injected.Bytes.read (bytes : frame.Bytes byte) :
    (EvidenceStream.field byte 6 bytes.first).map byte = ascii frame.name ∧
      (trimLeft (fun s => isSpaceByte (byte s)) (bytes.second.drop 5)).map byte =
        Utf8.encode frame.data := by
  constructor
  · have trimmed := @trim_map UInt8 isSpaceByte σ byte (bytes.first.drop 6)
    rw [EvidenceStream.field]
    refine trimmed.symm.trans ?_
    rw [List.map_drop, bytes.name]
    rcases frame.name_cases with named | named <;> rw [named] <;> decide
  · have trimmed := @trimLeft_map UInt8 isSpaceByte σ byte (bytes.second.drop 5)
    refine trimmed.symm.trans ?_
    rw [List.map_drop, bytes.data]
    obtain ⟨rest, shape⟩ := frame.encode_data_cons
    rw [shape]
    rfl

/-- The event of a frame is made of it alone exactly when nothing that waits before it belongs
to an event. -/
theorem Injected.Bytes.is_iff (bytes : frame.Bytes byte) (mine : ∀ s ∈ bytes.text, own s)
    {waiting : List σ} (foreign : Foreign own waiting) :
    (EvidenceStream.block byte (splitLines (byteMark ∘ byte)
        (waiting ++ (bytes.first ++ bytes.a :: bytes.second)))).Is byte own (ascii frame.name)
          (Utf8.encode frame.data) ↔
      (({} : LineReader σ).feed (byteMark ∘ byte) waiting).2.line = [] ∧
        ∀ line ∈ (({} : LineReader σ).feed (byteMark ∘ byte) waiting).1,
          EvidenceStream.begins byte "event:" line = false ∧
            EvidenceStream.begins byte "data:" line = false := by
  obtain ⟨eventFirst, dataFirst, eventSecond, dataSecond⟩ := bytes.fields
  have read := @LineReader.forall_mem_feed σ (byteMark ∘ byte) (fun s => own s = false) {}
    waiting (by simp) fun s member _ => foreign s member
  rw [bytes.lines]
  generalize (({} : LineReader σ).feed (byteMark ∘ byte) waiting).2.line = sofar at *
  generalize (({} : LineReader σ).feed (byteMark ∘ byte) waiting).1 = before at *
  constructor
  · rintro ⟨given, line, same, called, _, all, _⟩
    have name := congrArg Block.name same
    have data := congrArg Block.data same
    simp only [EvidenceStream.block, List.find?_append, List.filter_append,
      List.map_append] at name data
    -- a name from before is not own
    have noEvent : before.find? (EvidenceStream.begins byte "event:") = none := by
      cases found : before.find? (EvidenceStream.begins byte "event:") with
      | none => rfl
      | some old =>
        exfalso
        rw [found, Option.some_or, Option.map_some] at name
        have member : old ∈ before := List.mem_of_find?_eq_some found
        have filled : given ≠ [] := by
          rintro rfl
          rcases frame.name_cases with which | which <;> rw [which] at called <;> cases called
        obtain ⟨s, rest, rfl⟩ := List.exists_cons_of_ne_nil filled
        have here : s ∈ EvidenceStream.field byte 6 old := by
          rw [Option.some.inj name]
          simp
        have no := read.1 old member s (List.mem_of_mem_drop ((trim_sublist _).subset here))
        rw [all s (by simp)] at no
        cases no
    have events : ∀ line ∈ before, EvidenceStream.begins byte "event:" line = false := by
      simpa using noEvent
    rw [noEvent, Option.none_or] at name
    constructor
    · by_contra some
      have long := bytes.long some
      cases starts : EvidenceStream.begins byte "event:" (sofar ++ bytes.first) with
      | true =>
        rw [List.find?_cons_of_pos starts, Option.map_some] at name
        have short := congrArg List.length called
        rw [← Option.some.inj name, List.length_map] at short
        omega
      | false => simp [starts, eventSecond] at name
    · intro line member
      refine ⟨events line member, ?_⟩
      by_contra starts
      have both := congrArg List.length data
      have here : line ∈ before.filter (EvidenceStream.begins byte "data:") :=
        List.mem_filter.mpr ⟨member, by simpa using starts⟩
      have one := List.length_pos_of_mem here
      have two : bytes.second ∈ [sofar ++ bytes.first, bytes.second].filter
          (EvidenceStream.begins byte "data:") := by
        simp [List.mem_filter, dataSecond]
      have more := List.length_pos_of_mem two
      simp only [List.length_append, List.length_map, List.length_singleton] at both
      omega
  · rintro ⟨rfl, none⟩
    obtain ⟨nameRead, dataRead⟩ := bytes.read
    have noEvent : before.find? (EvidenceStream.begins byte "event:") = Option.none := by
      simpa using fun line member => (none line member).1
    have noData : before.filter (EvidenceStream.begins byte "data:") = [] := by
      simpa using fun line member => (none line member).2
    have shape : EvidenceStream.block byte (before ++ [[] ++ bytes.first, bytes.second]) =
        ⟨some (EvidenceStream.field byte 6 bytes.first),
          [trimLeft (fun s => isSpaceByte (byte s)) (bytes.second.drop 5)]⟩ := by
      simp only [EvidenceStream.block, List.find?_append, List.filter_append, noEvent, noData,
        List.nil_append, Option.none_or, List.find?_cons_of_pos eventFirst, Option.map_some]
      simp [dataFirst, dataSecond]
    refine ⟨_, _, shape, nameRead, dataRead, fun s member => ?_, fun s member => ?_⟩
    · have there := List.mem_of_mem_drop ((trim_sublist _).subset member)
      exact mine s (by simp [Injected.Bytes.text, Injected.Bytes.open', there])
    · have there := List.mem_of_mem_drop ((trimLeft_sublist _).subset member)
      exact mine s (by simp [Injected.Bytes.text, Injected.Bytes.open', there])

theorem Injected.encode_data_quote (frame : Injected) :
    ∃ rest, Utf8.encode frame.data = 0x7B :: 0x22 :: rest := by
  have filled : frame.body ≠ [] := by
    cases frame with
    | control kind generation reason => simp [Injected.body, controlBody]
    | started evidence => simp [Injected.body, startedBody]
    | error failure => simp [Injected.body, ErrorFrame.body]
  have size : (Json.sortNames (Json.sortMembers frame.body)).length = frame.body.length := by
    rw [Json.sortNames, List.length_insertionSort, Json.sortMembers_eq, List.length_map]
  have shape : frame.data =
      '{' :: (Json.dumpsMembers (Json.sortNames (Json.sortMembers frame.body)) ++ ['}']) := rfl
  cases sorted : Json.sortNames (Json.sortMembers frame.body) with
  | nil =>
    rw [sorted] at size
    exact absurd (List.length_eq_zero_iff.mp size.symm) filled
  | cons member rest =>
    rw [sorted] at shape
    exact ⟨_, by rw [shape]; rfl⟩

/-- The data of a frame is read back from its bytes. -/
theorem Injected.loadsBytes (other : List UInt8 → Option Json) (frame : Injected) :
    ∃ given, Proxy.loadsBytes other (Utf8.encode frame.data) = some given ∧ given.isObj ∧
      ∀ name, given.get? name = (Json.obj frame.body).get? name := by
  obtain ⟨given, loads, object, same⟩ := loads_body frame.flat.1 frame.flat.2
  refine ⟨given, ?_, object, same⟩
  have plain : otherEncoding (Utf8.encode frame.data) = false := by
    obtain ⟨rest, shape⟩ := frame.encode_data_quote
    rw [shape]
    match rest with
    | [] => rfl
    | [_] => rfl
    | _ :: _ :: _ => rfl
  have strict : Utf8.strict id (Utf8.encode frame.data) = some frame.data :=
    Utf8.strict_encode (List.map_id _)
  simp only [Proxy.loadsBytes, plain, strict, Bool.false_eq_true, if_false]
  exact loads

/-- A complete frame whose event is this one is recognized. -/
theorem EvidenceStream.frame_is {stream : EvidenceStream σ} (live : stream.ending = none)
    {raw : List σ} (is : (EvidenceStream.block byte (splitLines (byteMark ∘ byte) raw)).Is byte own
      (ascii frame.name) (Utf8.encode frame.data)) :
    (stream.frame python other byte raw).Got byte own frame := by
  obtain ⟨given, loads, object, same⟩ := frame.loadsBytes other
  obtain ⟨name, line, shape, called, text, _, _⟩ := is
  have eventName : EvidenceStream.eventName byte
      (EvidenceStream.block byte (splitLines (byteMark ∘ byte) raw)) = ascii frame.name := by
    rw [shape]
    exact called
  have known : ascii frame.name ∈ [ascii "intramind.control", ascii "intramind.error"] := by
    rcases frame.name_cases with named | named <;> rw [named] <;> simp
  have data : [10].intercalate ((EvidenceStream.block byte (splitLines (byteMark ∘ byte)
      raw)).data.map (List.map byte)) = Utf8.encode frame.data := by
    rw [shape, ← text]
    simp [List.intercalate]
  refine ⟨EvidenceStream.block byte (splitLines (byteMark ∘ byte) raw), given, ?_,
    ⟨name, line, shape, called, text, ‹_›, ‹_›⟩, same⟩
  simp only [EvidenceStream.frame, live, Option.isSome_none, Bool.false_eq_true, if_false,
    eventName, if_pos known, EvidenceStream.recognize, data, loads, object, Bool.not_true]
  split_ifs <;> simp

/-- The stream gets a frame exactly when it is ready for it. -/
theorem EvidenceStream.feed_got_iff {before text after : List σ} (outside : Foreign own before)
    (mine : ∀ s ∈ text, own s) (behind : Foreign own after)
    (same : text.map byte = Utf8.encode frame.text) :
    (({} : EvidenceStream σ).feed python other byte (before ++ (text ++ after))).Got byte own
        frame ↔
      (({} : EvidenceStream σ).feed python other byte before).Ready byte := by
  obtain ⟨bytes, rfl⟩ := frame.bytes same
  obtain ⟨pending, missed⟩ := @EvidenceStream.feed_missed python other σ byte own frame {}
    (by simp [Foreign]) (by simp [EvidenceStream.Missed]) before outside
  rw [EvidenceStream.feed_append, EvidenceStream.feed_append]
  generalize ({} : EvidenceStream σ).feed python other byte before = stream at *
  have is := bytes.is_iff mine pending
  rw [EvidenceStream.feed_text]
  constructor
  · intro got
    by_contra unready
    apply got.not_missed
    have cases := @EvidenceStream.frame_cases σ python other byte { stream with pending := [] }
      (stream.pending ++ (bytes.first ++ bytes.a :: bytes.second))
    refine (EvidenceStream.feed_missed ?_ ?_ behind).2
    · simp [cases.1, Foreign]
    · rcases cases.2 with same | ⟨live, given, more⟩
      · intro entry member
        rw [same] at member
        exact missed entry member
      · intro entry member
        rw [more] at member
        rcases List.mem_append.mp member with old | new
        · exact missed entry old
        · rw [List.mem_singleton.mp new]
          intro here
          obtain ⟨line, fields⟩ := is.mp here
          exact unready ⟨live, line, fields⟩
  · rintro ⟨live, line, fields⟩
    obtain ⟨block, given, member, here⟩ := @EvidenceStream.frame_is python other σ byte own frame
      { stream with pending := [] } live _ (is.mpr ⟨line, fields⟩)
    exact ⟨block, given, (EvidenceStream.feed_recognized _ _).subset member, here⟩

/-- Before the last byte of a frame, nothing is recognized of it. -/
theorem EvidenceStream.feed_before {before text part : List σ} (outside : Foreign own before)
    (same : text.map byte = Utf8.encode frame.text) (sub : part <+: before ++ text)
    (proper : part.length < (before ++ text).length) :
    (({} : EvidenceStream σ).feed python other byte part).Missed byte own frame := by
  obtain ⟨bytes, rfl⟩ := frame.bytes same
  have missed := (@EvidenceStream.feed_missed python other σ byte own frame {}
    (by simp [Foreign]) (by simp [EvidenceStream.Missed]) before outside).2
  have front : part <+: before ++ bytes.open' := by
    refine List.prefix_of_prefix_length_le sub ?_ ?_
    · rw [Injected.Bytes.text, ← List.append_assoc]
      exact List.prefix_append _ _
    · simp only [Injected.Bytes.text, List.length_append, List.length_singleton] at proper ⊢
      omega
  obtain ⟨rest, whole⟩ := front
  have all : (({} : EvidenceStream σ).feed python other byte (before ++ bytes.open')).Missed byte
      own frame := by
    rw [EvidenceStream.feed_append, EvidenceStream.feed_open]
    exact missed
  rw [← whole, EvidenceStream.feed_append] at all
  exact all.mono (EvidenceStream.feed_recognized _ _)

/-! #### Chunks -/

/-- Some chunk is the first one that reaches a length. -/
theorem exists_reach {chunks : List (List σ)} {n : ℕ} (positive : 0 < n)
    (long : n ≤ chunks.flatten.length) : ∃ front last rear, chunks = front ++ last :: rear ∧
      front.flatten.length < n ∧ n ≤ (front ++ [last]).flatten.length := by
  induction chunks generalizing n with
  | nil =>
    simp at long
    omega
  | cons chunk rest ih =>
    by_cases here : n ≤ chunk.length
    · exact ⟨[], chunk, rest, rfl, by simpa using positive, by simpa using here⟩
    · simp only [List.flatten_cons, List.length_append] at long
      obtain ⟨front, last, rear, whole, less, more⟩ :=
        @ih (n - chunk.length) (by omega) (by omega)
      refine ⟨chunk :: front, last, rear, by rw [whole]; rfl, ?_, ?_⟩
      · simp only [List.flatten_cons, List.length_append]
        omega
      · simp only [List.cons_append, List.flatten_cons, List.length_append] at more ⊢
        omega

/-- What waits behind the chunks that end before a length stays within the bound. -/
def Within (python : Builtins) (other : List UInt8 → Option Json) (byte : σ → UInt8)
    (chunks : List (List σ)) (n : ℕ) : Prop :=
  ∀ front, front <+: chunks → front.flatten.length < n →
    (({} : EvidenceStream σ).feed python other byte front.flatten).pending.length ≤ 1024 * 1024

/-- The stream gets a frame exactly when it is ready for it and no rest exceeds the bound
before the frame is complete. -/
theorem EvidenceStream.run_got_iff {before text after : List σ} {chunks : List (List σ)}
    (whole : chunks.flatten = before ++ (text ++ after)) (outside : Foreign own before)
    (mine : ∀ s ∈ text, own s) (behind : Foreign own after)
    (same : text.map byte = Utf8.encode frame.text) :
    (EvidenceStream.run python other byte chunks).Got byte own frame ↔
      (({} : EvidenceStream σ).feed python other byte before).Ready byte ∧
        Within python other byte chunks (before ++ text).length := by
  have mono {first second : EvidenceStream σ} (got : first.Got byte own frame)
      (sub : first.recognized <+: second.recognized) : second.Got byte own frame := by
    obtain ⟨block, given, member, here⟩ := got
    exact ⟨block, given, sub.subset member, here⟩
  constructor
  · intro got
    constructor
    · rw [← @EvidenceStream.feed_got_iff python other σ byte own frame before text after outside
        mine behind same, ← whole]
      rcases EvidenceStream.run_or chunks with run | ⟨_, sub⟩
      · rwa [← run]
      · exact mono got sub
    · intro front sub short
      by_contra large
      obtain ⟨rear, rfl⟩ := sub
      -- the bound has ended the stream before the frame is complete
      have ended : (EvidenceStream.run python other byte front).ending.isSome := by
        have waiting := @EvidenceStream.run_pending σ python other byte front
        induction front using List.reverseRecOn with
        | nil => exact absurd (Nat.zero_le _) large
        | append_singleton init last _ =>
          rw [EvidenceStream.run_concat] at waiting ⊢
          rcases EvidenceStream.chunk_bound (EvidenceStream.run python other byte init) last
            with isOver | within
          · exact isOver
          · rw [waiting] at within
            exact absurd within large
      have part : front.flatten <+: before ++ text := by
        refine List.prefix_of_prefix_length_le ?_ (List.prefix_append _ after) short.le
        rw [List.append_assoc, ← whole, List.flatten_append]
        exact List.prefix_append _ _
      have missed := @EvidenceStream.feed_before python other σ byte own frame before text
        front.flatten outside same part short
      have early : (EvidenceStream.run python other byte front).Missed byte own frame := by
        rcases EvidenceStream.run_or front with run | ⟨_, sub⟩
        · rwa [run]
        · exact missed.mono sub
      have stays := EvidenceStream.run_ended ended rear
      exact got.not_missed (early.mono (stays ▸ List.prefix_rfl))
  · rintro ⟨ready, within⟩
    have filled : text ≠ [] := by
      rintro rfl
      obtain ⟨bytes, text⟩ := frame.bytes same
      simp [Injected.Bytes.text] at text
    have positive : 0 < (before ++ text).length := by
      have := List.length_pos_of_ne_nil filled
      simp only [List.length_append]
      omega
    have long : (before ++ text).length ≤ chunks.flatten.length := by
      simp only [whole, List.length_append]
      omega
    obtain ⟨front, last, rear, rfl, short, reach⟩ := exists_reach positive long
    have fed : EvidenceStream.run python other byte front =
        ({} : EvidenceStream σ).feed python other byte front.flatten := by
      refine EvidenceStream.run_eq fun part sub => within part ?_ ?_
      · exact sub.trans (List.prefix_append _ _)
      · obtain ⟨rest, rfl⟩ := sub
        rw [List.flatten_append, List.length_append] at short
        omega
    have parts : front ++ last :: rear = (front ++ [last]) ++ rear := by simp
    have flat : ((front ++ [last]) ++ rear).flatten = (front ++ [last]).flatten ++ rear.flatten :=
      List.flatten_append
    -- the chunk that completes the frame
    obtain ⟨more, shape⟩ : before ++ text <+: (front ++ [last]).flatten := by
      refine List.prefix_of_prefix_length_le (List.prefix_append _ after) ?_ reach
      rw [List.append_assoc, ← whole, parts, flat]
      exact List.prefix_append _ _
    have outside' : Foreign own more := by
      rw [parts, flat, ← shape, ← List.append_assoc, List.append_assoc] at whole
      have tail := List.append_cancel_left whole
      exact fun s member => behind s (tail ▸ List.mem_append_left _ member)
    have here : (EvidenceStream.run python other byte (front ++ [last])).Got byte own frame := by
      have complete := (@EvidenceStream.feed_got_iff python other σ byte own frame before text
        more outside mine outside' same).mpr ready
      rw [← List.append_assoc, shape, List.flatten_append, EvidenceStream.feed_append,
        List.flatten_singleton, ← fed] at complete
      rw [EvidenceStream.run_concat]
      exact mono complete
        ⟨[], by rw [EvidenceStream.chunk_recognized, List.append_nil]⟩
    rw [parts]
    exact mono here (EvidenceStream.run_recognized _ _)

end Evidence

/-! ### Both readers -/

section Both

variable (python : Builtins) (other : List UInt8 → Option Json)

/-- The bytes on the channel, each with whether it belongs to the frame. -/
def marked (before : List UInt8) (frame : Injected) (after : List UInt8) : List (UInt8 × Bool) :=
  before.map (fun b => (b, false)) ++ ((Utf8.encode frame.text).map (fun b => (b, true)) ++
    after.map fun b => (b, false))

/-- All bytes of the character belong to the frame. -/
def ownCharacter (s : Char × List (UInt8 × Bool)) : Bool := s.2.all Prod.snd

/-- The stream client, behind these bytes, can get a frame. -/
def ClientReady (before : List UInt8) : Prop :=
  (Session.read python id {} ((Utf8.decode id before).map Prod.fst)).Ready

/-- The evidence stream, behind these bytes, can get a frame. -/
def EvidenceReady (before : List UInt8) : Prop :=
  (({} : EvidenceStream UInt8).feed python other id before).Ready id

/-- Both readers get the frame as an event of its own. -/
structure BothGot (before : List UInt8) (frame : Injected) (after : List UInt8)
    (chunks : List (List (UInt8 × Bool))) : Prop where
  client : (reading python Prod.fst (Utf8.decode Prod.fst (marked before frame after))).Got
    Prod.fst ownCharacter frame
  evidence : (EvidenceStream.run python other Prod.fst chunks).Got Prod.fst Prod.snd frame

variable {python other}

theorem Session.ready_map {σ : Type} (char : σ → Char) (text : List σ) :
    (Session.read python id {} (text.map char)).Ready ↔
      (Session.read python char {} text).Ready := by
  have fed := LineReader.feed_map char charMark {} text
  have fresh : ({} : LineReader σ).map char = {} := rfl
  rw [fresh] at fed
  have same : Session.read python id {} (text.map char) =
      ⟨(Session.read python char {} text).reader.map char,
        (Session.read python char {} text).client.map char⟩ := by
    simp only [Session.read, Function.comp_id, fed, Client.lines_map]
    rfl
  rw [same]
  generalize Session.read python char {} text = session
  constructor
  · rintro ⟨live, line, data⟩
    exact ⟨live, List.map_eq_nil_iff.mp line, List.map_eq_nil_iff.mp data⟩
  · rintro ⟨live, line, data⟩
    exact ⟨live, List.map_eq_nil_iff.mpr line, List.map_eq_nil_iff.mpr data⟩

theorem EvidenceStream.ready_map {σ τ : Type} (f : σ → τ) (byte : τ → UInt8)
    (stream : EvidenceStream σ) : (stream.map f).Ready byte ↔ stream.Ready (byte ∘ f) := by
  have fed := LineReader.feed_map f (byteMark ∘ byte) {} stream.pending
  have fresh : ({} : LineReader σ).map f = {} := rfl
  rw [fresh] at fed
  have pending : (stream.map f).pending = stream.pending.map f := rfl
  constructor
  · rintro ⟨live, line, fields⟩
    rw [pending, fed] at line fields
    refine ⟨live, List.map_eq_nil_iff.mp line, fun one member => ?_⟩
    have here := fields _ (List.mem_map_of_mem member)
    rwa [EvidenceStream.begins_map, EvidenceStream.begins_map] at here
  · rintro ⟨live, line, fields⟩
    refine ⟨live, ?_, ?_⟩
    · rw [pending, fed]
      exact List.map_eq_nil_iff.mpr line
    · rw [pending, fed]
      intro one member
      obtain ⟨old, here, rfl⟩ := List.mem_map.mp member
      rw [EvidenceStream.begins_map, EvidenceStream.begins_map]
      exact fields old here

/-- What waits does not depend on marks. -/
theorem within_map (chunks : List (List (UInt8 × Bool))) (n : ℕ) :
    Within python other id (chunks.map (List.map Prod.fst)) n ↔
      Within python other Prod.fst chunks n := by
  have size (part : List (UInt8 × Bool)) :
      (({} : EvidenceStream UInt8).feed python other id (part.map Prod.fst)).pending.length =
        (({} : EvidenceStream (UInt8 × Bool)).feed python other Prod.fst part).pending.length := by
    have mapped := @EvidenceStream.feed_map (UInt8 × Bool) python other UInt8 Prod.fst id
      ({} : EvidenceStream (UInt8 × Bool)) part
    have fresh : ({} : EvidenceStream (UInt8 × Bool)).map Prod.fst = ({} : EvidenceStream UInt8) :=
      rfl
    rw [fresh] at mapped
    rw [mapped]
    simp [EvidenceStream.map]
  constructor
  · intro within front sub short
    have here := within (front.map (List.map Prod.fst)) (sub.map _)
    rw [← List.map_flatten, List.length_map, size] at here
    exact here short
  · intro within front sub short
    obtain ⟨old, inner, rfl⟩ := List.prefix_map_iff.mp sub
    rw [← List.map_flatten] at short ⊢
    rw [List.length_map] at short
    rw [size]
    exact within old inner short

/-- Both readers get a frame of the proxy as an event of its own exactly when no character of the
frame ends a line, both are ready for it, and the evidence stream keeps within its bound. -/
theorem bothGot_iff {before : List UInt8} {frame : Injected} {after : List UInt8}
    {chunks : List (List (UInt8 × Bool))} (whole : chunks.flatten = marked before frame after) :
    BothGot python other before frame after chunks ↔
      (∀ c ∈ frame.text, ¬ isSeparator c) ∧ ClientReady python before ∧
        EvidenceReady python other before ∧
        Within python other id (chunks.map (List.map Prod.fst))
          (before.length + (Utf8.encode frame.text).length) := by
  have outside (bytes : List UInt8) :
      Foreign Prod.snd (bytes.map fun b => (b, false)) := by
    intro s member
    obtain ⟨b, _, rfl⟩ := List.mem_map.mp member
    rfl
  have mine : ∀ s ∈ (Utf8.encode frame.text).map (fun b => (b, true)), Prod.snd s = true := by
    intro s member
    obtain ⟨b, _, rfl⟩ := List.mem_map.mp member
    rfl
  have plain (bytes : List UInt8) (mark : Bool) :
      (bytes.map fun b => (b, mark)).map Prod.fst = bytes := by
    simp [Function.comp_def]
  -- the stream client
  have client : (reading python Prod.fst (Utf8.decode Prod.fst (marked before frame after))).Got
      Prod.fst ownCharacter frame ↔
        ClientReady python before ∧ ∀ c ∈ frame.text, ¬ isSeparator c := by
    obtain ⟨rest, shape⟩ : ∃ rest, frame.text = 'e' :: rest := ⟨_, rfl⟩
    have encoded : ((Utf8.encode frame.text).map fun b => (b, true)).map Prod.fst =
        Utf8.encode ('e' :: rest) := by rw [plain, shape]
    obtain ⟨reads, decoded, chars, own⟩ := Utf8.decode_encode (by decide) encoded
      (before.map fun b => (b, false)) (after.map fun b => (b, false))
    have foreign (bytes : List UInt8) : Foreign ownCharacter
        (Utf8.decode Prod.fst (bytes.map fun b => (b, false))) := by
      intro s member
      obtain ⟨some, all⟩ := Utf8.made_decode Prod.fst (outside bytes) s member
      obtain ⟨b, tail, cons⟩ := List.exists_cons_of_ne_nil some
      have no := all b (by simp [cons])
      simp [ownCharacter, cons, no]
    have inner : ∀ s ∈ reads, ownCharacter s := by
      rw [own]
      intro s member
      obtain ⟨_, all⟩ := Utf8.made_decode Prod.fst mine s member
      exact List.all_eq_true.mpr all
    rw [marked, decoded, reading_got_iff (foreign before) inner (foreign after)
      (chars.trans shape.symm), ClientReady]
    have text : (Utf8.decode id before).map Prod.fst =
        (Utf8.decode Prod.fst (before.map fun b => (b, false))).map Prod.fst := by
      have mapped := Utf8.decode_map Prod.fst id (before.map fun b => (b, false))
      rw [plain] at mapped
      rw [mapped, List.map_map]
      rfl
    rw [text, Session.ready_map]
  -- the evidence stream
  have evidence : (EvidenceStream.run python other Prod.fst chunks).Got Prod.fst Prod.snd frame ↔
      EvidenceReady python other before ∧ Within python other id (chunks.map (List.map Prod.fst))
        (before.length + (Utf8.encode frame.text).length) := by
    rw [EvidenceStream.run_got_iff whole (outside before) mine (outside after) (plain _ _),
      within_map, EvidenceReady]
    have mapped := @EvidenceStream.feed_map (UInt8 × Bool) python other UInt8 Prod.fst id
      ({} : EvidenceStream (UInt8 × Bool)) (before.map fun b => (b, false))
    have fresh : ({} : EvidenceStream (UInt8 × Bool)).map Prod.fst = ({} : EvidenceStream UInt8) :=
      rfl
    rw [fresh, plain] at mapped
    rw [mapped, EvidenceStream.ready_map]
    simp only [List.length_append, List.length_map]
    rfl
  constructor
  · rintro ⟨first, second⟩
    exact ⟨(client.mp first).2, (client.mp first).1, evidence.mp second⟩
  · rintro ⟨clear, ready, rest⟩
    exact ⟨client.mpr ⟨ready, clear⟩, evidence.mpr rest⟩

/-- Builtins that raise on everything but integers. -/
def strictBuiltins : Builtins := ⟨fun _ => none, fun _ => false⟩

/-- The bound is tested chunk by chunk. -/
theorem within_of_take {chunks : List (List UInt8)} {n : ℕ}
    (short : ∀ k ≤ chunks.length, (chunks.take k).flatten.length < n →
      (({} : EvidenceStream UInt8).feed python other id (chunks.take k).flatten).pending.length ≤
        1024 * 1024) : Within python other id chunks n := by
  intro front sub
  rw [List.prefix_iff_eq_take.mp sub]
  exact short front.length sub.length_le

/-- A chunk of a model. -/
def wholeChunk : List UInt8 :=
  ascii "data: \x7b\"choices\":[\x7b\"index\":0,\"delta\":\x7b\"content\":\"hi\"\x7d\x7d]\x7d\n\n"

/-- The frame of an attempt whose engine has stopped. -/
def recovering : Injected := .control .recovering 1 (some "engine_epoch_stopped")

/-- The frame of an attempt that did not end in time. -/
def overdue : Injected := .error ⟨"direct inference unavailable", "upstream_error",
  some (some "deadline_exceeded"), some ⟨"a", some "q", 1, "unknown"⟩⟩

/-- Both readers get a control frame between two chunks of the model, and the error frame with
which the response ends, however they are cut. -/
theorem bothGot_between :
    BothGot strictBuiltins (fun _ => none) wholeChunk recovering wholeChunk
        ((marked wholeChunk recovering wholeChunk).toChunks 50) ∧
      BothGot strictBuiltins (fun _ => none) wholeChunk overdue []
        ((marked wholeChunk overdue []).toChunks 90) := by
  have client : ClientReady strictBuiltins wholeChunk :=
    ⟨by decide +kernel, by decide +kernel, by decide +kernel⟩
  have evidence : EvidenceReady strictBuiltins (fun _ => none) wholeChunk :=
    ⟨by decide +kernel, by decide +kernel, by decide +kernel⟩
  constructor
  · apply (bothGot_iff (by decide +kernel)).mpr
    refine ⟨List.all_iff_forall_prop.mp (by decide +kernel), client, evidence, ?_⟩
    exact within_of_take (by decide +kernel)
  · apply (bothGot_iff (by decide +kernel)).mpr
    refine ⟨List.all_iff_forall_prop.mp (by decide +kernel), client, evidence, ?_⟩
    exact within_of_take (by decide +kernel)

/-- The start of a chunk that breaks off in its content. -/
def brokenChunk : List UInt8 := ascii "data: \x7b\"choices\":[\x7b\"delta\":\x7b\"content\":\"par"

/-- The frame of an attempt that was not confirmed. -/
def unconfirmed : Injected := .error ⟨"direct backend termination unconfirmed", "upstream_error",
  none, none⟩

/-- Behind a chunk that breaks off, the error frame is read as a part of the chunk. -/
theorem bothGot_broken : ¬ ∀ (python : Builtins) (other : List UInt8 → Option Json)
    (before : List UInt8) (frame : Injected) (after : List UInt8)
    (chunks : List (List (UInt8 × Bool))), chunks.flatten = marked before frame after →
      BothGot python other before frame after chunks := by
  intro all
  have both := all strictBuiltins (fun _ => none) brokenChunk unconfirmed []
    [marked brokenChunk unconfirmed []] (by simp)
  obtain ⟨first, last, block, delivered, ⟨given, line, shape, _⟩, _⟩ := both.client
  have lines : (reading strictBuiltins Prod.fst (Utf8.decode Prod.fst
      (marked brokenChunk unconfirmed []))).delivered.map (fun entry => entry.1.data.length) =
        [2] := by decide +kernel
  have one : 1 ∈ (reading strictBuiltins Prod.fst (Utf8.decode Prod.fst
      (marked brokenChunk unconfirmed []))).delivered.map fun entry => entry.1.data.length := by
    rw [delivered, shape]
    simp
  rw [lines] at one
  simp at one

end Both

end IntramindRuntime.Proxy
