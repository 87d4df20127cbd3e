import IntramindRuntime.Proxy.Frames

/-!
# What the stream client makes of frames

The client gets the events that the frames of a response stand for, provided that no line end
is left in a frame: JSON texts may hold U+0085, U+2028 and U+2029 unescaped, and the client
splits lines there.

## Main results

* `deliver_chunk`, `deliver_control`, `deliver_started`, `deliver_error` — the data of one frame
* `Session.read_clear` — a frame without such line ends
* `Client.lines_cut` — a frame with one is no JSON to the client
* `streamEvents_response` — exactly when a response is read as it is meant
-/

namespace IntramindRuntime.Proxy

open Library

/-! ### Data of one frame -/

section Delivery

variable (python : Builtins)

/-- The client passes over data that is an object. -/
theorem deliver_loaded {raw : List Char} {frame : Json} (loads : Json.loads raw = some frame)
    (object : frame.isObj) (eventName : List Char) (generation : ℤ) :
    deliver python eventName raw generation =
      if eventName = "intramind.error".toList then
        ⟨[], generation, some (.streamError
          (if python.truthy ((frame.get? "message").getD .null)
            then (frame.get? "message").getD .null else .str "managed inference failed")
          ((frame.get? "reason").getD .null) ((frame.get? "type").getD .null))⟩
      else if eventName = "intramind.control".toList then control python frame generation
      else chunk python frame generation := by
  have other : raw ≠ "[DONE]".toList := by
    rintro rfl
    have none : Json.loads "[DONE]".toList = none := by decide
    rw [none] at loads
    cases loads
  simp only [deliver, if_neg other, loads, object, Bool.not_true, Bool.false_eq_true, if_false]

theorem tokens_choices {frame : Json} (generation : ℤ) {items : List Json}
    (all : items.all isChoice)
    (own : (match frame.get? "intramind_generation" with
      | none | some (.int _) => true
      | _ => false) = true) :
    tokens python frame generation items =
      (((items.map content).filter fun text => text ≠ "").map fun text =>
        { kind := .token, text := .str text, generation := chunkGeneration frame generation },
        none) := by
  induction items with
  | nil => rfl
  | cons choice rest ih =>
    simp only [List.all_cons, Bool.and_eq_true] at all
    have more := ih all.2
    have number : python.toInt ((frame.get? "intramind_generation").getD (.int generation)) =
        some (chunkGeneration frame generation) := by
      revert own
      rw [chunkGeneration]
      cases frame.get? "intramind_generation" with
      | none => exact fun _ => rfl
      | some value => cases value <;> simp [Builtins.toInt]
    -- the content of the first choice
    have first := all.1
    simp only [isChoice, Bool.and_eq_true] at first
    obtain ⟨object, inner⟩ := first
    cases choice with
    | obj members =>
      cases delta : (Json.obj members).get? "delta" with
      | none =>
        have blank : content (.obj members) = "" := by
          simp only [content, delta, Option.getD_none]
          rfl
        have nothing : (Json.obj []).get? "content" = none := rfl
        simp only [tokens, delta, Option.getD_none, nothing,
          Builtins.truthy, Bool.false_eq_true, if_false, more]
        simp [blank]
      | some value =>
        simp only [delta, Bool.and_eq_true] at inner
        obtain ⟨object, typed⟩ := inner
        cases value with
        | obj members' =>
          cases text : (Json.obj members').get? "content" with
          | none =>
            have blank : content (.obj members) = "" := by
              simp only [content, delta, Option.getD_some, text]
            simp only [tokens, delta, Option.getD_some, text, Option.getD_none, Builtins.truthy,
              Bool.false_eq_true, if_false, more]
            simp [blank]
          | some token =>
            cases token with
            | null =>
              have blank : content (.obj members) = "" := by
                simp only [content, delta, Option.getD_some, text]
              simp only [tokens, delta, Option.getD_some, text, Builtins.truthy,
                Bool.false_eq_true, if_false, more]
              simp [blank]
            | str token =>
              have here : content (.obj members) = token := by
                simp only [content, delta, Option.getD_some, text]
              by_cases blank : token = ""
              · subst blank
                simp only [tokens, delta, Option.getD_some, text, Builtins.truthy, ne_eq,
                  not_true_eq_false, decide_false, Bool.false_eq_true, if_false, more]
                simp [here]
              · simp only [tokens, delta, Option.getD_some, text, Builtins.truthy, ne_eq, blank,
                  not_false_eq_true, decide_true, if_true, number, more]
                simp [here, blank]
            | _ => simp [text] at typed
        | _ => simp [Json.isObj] at object
    | _ => simp [Json.isObj] at object

/-- A completion chunk delivers its tokens. -/
theorem deliver_chunk (c : Chunk) {raw : List Char} (loads : Json.loads raw = some c.frame)
    (generation : ℤ) :
    deliver python "message".toList raw generation =
      ⟨(Frame.chunk c).events generation, generation, none⟩ := by
  have completion := c.completion
  simp only [isCompletion, Bool.and_eq_true] at completion
  obtain ⟨⟨object, all⟩, own⟩ := completion
  rw [deliver_loaded python loads object, if_neg (by decide), if_neg (by decide)]
  simp only [chunk, Frame.events]
  cases items : c.frame.get? "choices" with
  | none => simp [choices, items, tokens]
  | some value =>
    cases value with
    | arr list =>
      simp only [items] at all
      have delivered := tokens_choices python generation all own
      simp only [Option.getD_some, delivered, choices, items]
    | _ => simp [items] at all

/-- A body with distinct names and scalar values is read back by its names. -/
theorem loads_body {body : List (String × Json)} (distinct : (body.map Prod.fst).Nodup)
    (flat : ∀ member ∈ body, member.2.isPlain ∧ member.2.sortKeys = member.2) :
    ∃ frame, Json.loads (Json.obj body).encode = some frame ∧ frame.isObj ∧
      ∀ name, frame.get? name = (Json.obj body).get? name := by
  have plain : (Json.obj body).isPlain :=
    (Json.memberPlain_iff body).mpr fun member here => (flat member here).1
  refine ⟨(Json.obj body).sortKeys, Json.loads_encode plain, rfl, fun name => ?_⟩
  rw [Json.get?_sortKeys distinct]
  cases found : (Json.obj body).get? name with
  | none => rfl
  | some value =>
    have turned : (body.reverse.map Prod.fst).Nodup := by
      rw [List.map_reverse]
      exact List.nodup_reverse.mpr distinct
    have member := (Json.lookup_iff turned).mp found
    rw [Option.map_some, (flat _ (List.mem_reverse.mp member)).2]

theorem textOrNull_flat (text : Option String) :
    (textOrNull text).isPlain ∧ (textOrNull text).sortKeys = textOrNull text := by
  cases text with
  | none => exact ⟨rfl, rfl⟩
  | some text => exact ⟨rfl, rfl⟩

theorem controlBody_flat (kind : ControlKind) (generation : ℤ) (reason : Option String) :
    ((controlBody kind generation reason).map Prod.fst).Nodup ∧
      ∀ member ∈ controlBody kind generation reason,
        member.2.isPlain ∧ member.2.sortKeys = member.2 := by
  cases reason with
  | none => simp [controlBody, Json.isPlain, Json.sortKeys]
  | some text => by_cases blank : text = "" <;>
      simp [controlBody, Json.isPlain, Json.sortKeys, blank]

theorem startedBody_flat (evidence : Evidence) :
    ((startedBody evidence).map Prod.fst).Nodup ∧
      ∀ member ∈ startedBody evidence, member.2.isPlain ∧ member.2.sortKeys = member.2 := by
  have request := textOrNull_flat evidence.logicalRequestId
  simp [startedBody, Evidence.members, Json.isPlain, Json.sortKeys, request]

theorem ErrorFrame.body_flat (failure : ErrorFrame) :
    (failure.body.map Prod.fst).Nodup ∧
      ∀ member ∈ failure.body, member.2.isPlain ∧ member.2.sortKeys = member.2 := by
  obtain ⟨message, errorType, reason, evidence⟩ := failure
  cases reason with
  | none =>
    cases evidence with
    | none => simp [ErrorFrame.body, Json.isPlain, Json.sortKeys]
    | some evidence =>
      have request := textOrNull_flat evidence.logicalRequestId
      simp [ErrorFrame.body, Evidence.members, Json.isPlain, Json.sortKeys, request]
  | some reason =>
    have given := textOrNull_flat reason
    cases evidence with
    | none => simp [ErrorFrame.body, Json.isPlain, Json.sortKeys, given]
    | some evidence =>
      have request := textOrNull_flat evidence.logicalRequestId
      simp [ErrorFrame.body, Evidence.members, Json.isPlain, Json.sortKeys, request, given]

/-- A control frame delivers its event. -/
theorem deliver_control (kind : ControlKind) (own : ℤ) (reason : Option String) (generation : ℤ) :
    deliver python "intramind.control".toList (Json.obj (controlBody kind own reason)).encode
        generation =
      ⟨(Frame.control kind own reason).events generation,
        (Frame.control kind own reason).next generation, none⟩ := by
  obtain ⟨distinct, flat⟩ := controlBody_flat kind own reason
  obtain ⟨frame, loads, object, found⟩ := loads_body distinct flat
  have type : frame.get? "type" = some (.str kind.text) := by
    rw [found]
    cases reason with
    | none => simp [controlBody, Json.get?, List.lookup_cons]
    | some text => by_cases blank : text = "" <;>
        simp [controlBody, Json.get?, List.lookup_cons, blank]
  have number : frame.get? "generation" = some (.int own) := by
    rw [found]
    cases reason with
    | none => simp [controlBody, Json.get?]
    | some text => by_cases blank : text = "" <;>
        simp [controlBody, Json.get?, List.lookup_cons, blank]
  have why : (frame.get? "reason").getD .null =
      textOrNull (reason.filter fun text => text ≠ "") := by
    rw [found]
    cases reason with
    | none => simp [controlBody, Json.get?, List.lookup_cons, textOrNull]
    | some text => by_cases blank : text = "" <;>
        simp [controlBody, Json.get?, List.lookup_cons, textOrNull, blank, Option.filter]
  rw [deliver_loaded python loads object, if_neg (by decide), if_pos rfl]
  cases kind <;>
    simp only [control, type, Option.getD_some, ControlKind.text, controlEvent, number,
      Builtins.toInt, why, Frame.events, Frame.next, ControlKind.event]

/-- The frame that tells of the start delivers nothing. -/
theorem deliver_started (evidence : Evidence) (generation : ℤ) :
    deliver python "intramind.control".toList (Json.obj (startedBody evidence)).encode generation =
      ⟨[], generation, none⟩ := by
  obtain ⟨distinct, flat⟩ := startedBody_flat evidence
  obtain ⟨frame, loads, object, found⟩ := loads_body distinct flat
  have type : frame.get? "type" = some (.str "started") := by
    rw [found]
    simp [startedBody, Evidence.members, Json.get?, List.lookup_cons]
  rw [deliver_loaded python loads object, if_neg (by decide), if_pos rfl]
  simp only [control, type, Option.getD_some]

/-- An error ends reading. -/
theorem deliver_error (failure : ErrorFrame) (generation : ℤ) :
    deliver python "intramind.error".toList (Json.obj failure.body).encode generation =
      ⟨[], generation, some (.streamError
        (if failure.message = "" then .str "managed inference failed" else .str failure.message)
        failure.reasonRead (.str failure.errorType))⟩ := by
  obtain ⟨distinct, flat⟩ := failure.body_flat
  obtain ⟨frame, loads, object, found⟩ := loads_body distinct flat
  have message : frame.get? "message" = some (.str failure.message) := by
    rw [found]
    obtain ⟨message, errorType, reason, evidence⟩ := failure
    cases reason <;> cases evidence <;>
      simp [ErrorFrame.body, Evidence.members, Json.get?, List.lookup_cons]
  have type : frame.get? "type" = some (.str failure.errorType) := by
    rw [found]
    obtain ⟨message, errorType, reason, evidence⟩ := failure
    cases reason <;> cases evidence <;>
      simp [ErrorFrame.body, Evidence.members, Json.get?, List.lookup_cons]
  have why : (frame.get? "reason").getD .null = failure.reasonRead := by
    rw [found]
    obtain ⟨message, errorType, reason, evidence⟩ := failure
    cases reason <;> cases evidence <;>
      simp [ErrorFrame.body, Evidence.members, Json.get?, List.lookup_cons, ErrorFrame.reasonRead,
        textOrNull]
  rw [deliver_loaded python loads object, if_pos rfl]
  simp only [message, Option.getD_some, Builtins.truthy, why, type]
  by_cases blank : failure.message = "" <;> simp [blank]

end Delivery

/-! ### Lines of a frame -/

theorem charMark_inside {c : Char} (printable : 0x20 ≤ c.toNat) (clear : ¬ isSeparator c) :
    charMark c = .inside := by
  have ne (d : Char) (control : d.toNat < 0x20) : c ≠ d := by
    rintro rfl
    omega
  simp only [isSeparator, not_or] at clear
  simp [charMark, ne '\n' (by decide), ne '\r' (by decide), ne '\x0b' (by decide),
    ne '\x0c' (by decide), ne '\x1c' (by decide), ne '\x1d' (by decide), ne '\x1e' (by decide),
    clear]

/-- A text on one line that is read as a JSON value: of all line ends, it has only those that
need not be escaped. -/
structure IsLine (text : List Char) (frame : Json) : Prop where
  loads : Json.loads text = some frame
  inside : ∀ c ∈ text, ¬ isSeparator c → charMark c = .inside

theorem isLine_encode {body : List (String × Json)} (distinct : (body.map Prod.fst).Nodup)
    (flat : ∀ member ∈ body, member.2.isPlain ∧ member.2.sortKeys = member.2) :
    ∃ frame, IsLine (Json.obj body).encode frame := by
  obtain ⟨frame, loads, _⟩ := loads_body distinct flat
  have plain : (Json.obj body).isPlain :=
    (Json.memberPlain_iff body).mpr fun member here => (flat member here).1
  exact ⟨frame, loads, fun c member clear =>
    charMark_inside (Json.encode_printable plain member) clear⟩

theorem Chunk.isLine (c : Chunk) : IsLine c.text c.frame := by
  refine ⟨c.loads, fun d member clear => ?_⟩
  by_cases printable : 0x20 ≤ d.toNat
  · exact charMark_inside printable clear
  · have newline : d ≠ '\n' := fun same => c.oneLine.1 (same ▸ member)
    have ret : d ≠ '\r' := fun same => c.oneLine.2 (same ▸ member)
    -- other control characters are not in JSON texts, except for tabs
    have space : Json.isSpace d := by
      by_contra none
      obtain ⟨front, rest, whole⟩ := List.append_of_mem member
      have loads := c.loads
      rw [whole] at loads
      have := (Json.reads_foreign loads ⟨Or.inl (not_le.mp printable), none⟩).2
      omega
    simp only [Json.isSpace, Bool.or_eq_true, decide_eq_true_eq, newline, ret, or_false] at space
    rcases space with rfl | rfl <;> rfl

/-- Leading space of a JSON text does not matter. -/
theorem reads_lstrip {text : List Char} {reader : Json.Reader}
    (reads : Json.reads (.between, .value []) text = some reader) :
    Json.reads (.between, .value []) (lstrip id text) = some reader := by
  induction text with
  | nil => exact reads
  | cons c rest ih =>
    by_cases space : isSpace c
    · have skipped : lstrip id (c :: rest) = lstrip id rest := by simp [lstrip, trimLeft, space]
      rw [skipped]
      apply ih
      rw [← reads, Json.reads_cons]
      -- of the characters that are space to Python, JSON accepts four
      have json : Json.isSpace c := by
        by_contra other
        have foreign : Json.Foreign c := by
          refine ⟨?_, other⟩
          by_contra ascii
          have blank : c ≠ ' ' := by
            rintro rfl
            exact other rfl
          have low : 0x20 ≤ c.toNat := by omega
          have high : c.toNat < 0x80 := by omega
          have ne (d : Char) (special : 0x80 ≤ d.toNat) : c ≠ d := by
            rintro rfl
            omega
          have above (d : Char) (special : 0x80 ≤ d.toNat) : ¬ d ≤ c := fun le => by
            have : d.toNat ≤ c.toNat := le
            omega
          have below (d : Char) (control : d.toNat < 0x20) : ¬ c ≤ d := fun le => by
            have : c.toNat ≤ d.toNat := le
            omega
          have last : ¬ c ≤ ' ' := fun le => by
            have upper : c.toNat ≤ 32 := le
            have same : c.toNat = ' '.toNat := le_antisymm upper low
            exact blank (Char.toNat_inj.mp same)
          simp [isSpace, below '\r' (by decide), last, ne '\x85' (by decide),
            ne '\xa0' (by decide), ne '\u1680' (by decide), above '\u2000' (by decide),
            ne '\u2028' (by decide), ne '\u2029' (by decide), ne '\u202f' (by decide),
            ne '\u205f' (by decide), ne '\u3000' (by decide)] at space
        have stuck : Json.read (.between, .value []) c = none := by
          simp [Json.read, Json.Lexing.step, foreign.start]
        rw [Json.reads_cons, stuck] at reads
        cases reads
      have quiet : Json.Lexing.between.step c = some ([], .between) := by
        simp [Json.Lexing.step, Json.Lexing.start, json]
      rw [Json.read_quiet _ quiet]
      rfl
    · have kept : lstrip id (c :: rest) = c :: rest := by simp [lstrip, trimLeft, space]
      rw [kept]
      exact reads

theorem loads_lstrip {text : List Char} {frame : Json} (loads : Json.loads text = some frame) :
    Json.loads (lstrip id text) = some frame := by
  rw [Json.loads] at loads
  cases read : Json.reads (.between, .value []) text with
  | none => simp [read] at loads
  | some reader =>
    rw [Json.loads, reads_lstrip read, ← loads, read]

/-! ### Reading a frame -/

section Reading

variable {python : Builtins} {client : Client Char}

theorem Client.line_name (live : client.ending = none) (name : List Char) :
    client.line python id ("event: ".toList ++ name) =
      { client with eventName := some (strip id (' ' :: name)) } := by
  simp [Client.line, live, startsWith]

theorem Client.line_data (live : client.ending = none) (text : List Char) :
    client.line python id ("data: ".toList ++ text) =
      { client with data := client.data ++ [lstrip id text] } := by
  have blank : lstrip id (' ' :: text) = lstrip id text := rfl
  simp [Client.line, live, startsWith, ← blank]

theorem Client.line_empty (live : client.ending = none) :
    client.line python id [] =
      if client.data.isEmpty then { client with eventName := none }
      else client.dispatch python id := by
  simp [Client.line, live]

theorem newline_breaks : charMark (id '\n') = .newline ∨ charMark (id '\n') = .other :=
  Or.inl rfl

theorem data_plain : ∀ c ∈ "data: ".toList, charMark c = .inside :=
  List.all_iff_forall_prop.mp (by decide)

theorem event_plain : ∀ c ∈ "event: ".toList, charMark c = .inside :=
  List.all_iff_forall_prop.mp (by decide)

/-- Data on one line, with the empty line behind it. -/
theorem Session.read_data (live : client.ending = none) (fresh : client.data = [])
    {text : List Char} (plain : ∀ c ∈ text, charMark c = .inside) (more : List Char) :
    Session.read python id ⟨{}, client⟩ ("data: ".toList ++ text ++ ['\n', '\n'] ++ more) =
      Session.read python id
        ⟨{}, ({ client with data := [lstrip id text] } : Client Char).dispatch python id⟩ more := by
  have inside : ∀ c ∈ "data: ".toList ++ text, charMark (id c) = .inside := by
    intro c member
    rcases List.mem_append.mp member with first | rest
    · exact data_plain c first
    · exact plain c rest
  have shape : "data: ".toList ++ text ++ ['\n', '\n'] ++ more =
      ("data: ".toList ++ text) ++ '\n' :: ([] ++ '\n' :: more) := by simp
  rw [shape, Session.read_line inside newline_breaks,
    Session.read_line (by simp) newline_breaks,
    Client.line_data live, fresh, List.nil_append,
    @Client.line_empty python { client with data := [lstrip id text] } live, if_neg (by simp)]

/-- The line with the name of an event. -/
theorem Session.read_name (live : client.ending = none) {name : List Char}
    (plain : ∀ c ∈ name, charMark c = .inside) (more : List Char) :
    Session.read python id ⟨{}, client⟩ ("event: ".toList ++ name ++ '\n' :: more) =
      Session.read python id
        ⟨{}, { client with eventName := some (strip id (' ' :: name)) }⟩ more := by
  have inside : ∀ c ∈ "event: ".toList ++ name, charMark (id c) = .inside := by
    intro c member
    rcases List.mem_append.mp member with first | rest
    · exact event_plain c first
    · exact plain c rest
  rw [Session.read_line inside newline_breaks, Client.line_name live]

/-- The client between two frames. -/
structure Client.Between (client : Client Char) (generation : ℤ) : Prop where
  live : client.ending = none
  data : client.data = []
  name : client.eventName = none
  generation : client.generation = generation

/-- The client behind a frame. -/
def Client.after (client : Client Char) (name : Option (List Char)) (text : List Char)
    (delivery : Delivery) : Client Char where
  generation := delivery.generation
  delivered := client.delivered ++ [(⟨name, [text]⟩, delivery.events)]
  ending := delivery.ending

theorem Client.dispatch_one (data : client.data = [lstrip id text]) :
    client.dispatch python id = client.after client.eventName (lstrip id text)
      (deliver python (client.name id) (lstrip id text) client.generation) := by
  have raw : client.raw id = lstrip id text := by simp [Client.raw, data, List.intercalate]
  rw [Client.dispatch, raw, data, Client.after]

@[simp] theorem Client.events_after (name : Option (List Char)) (text : List Char)
    (delivery : Delivery) :
    (client.after name text delivery).events = client.events ++ delivery.events := by
  simp [Client.events, Client.after]

/-- Data that is no JSON, as it is cut in a string, ends reading at the next empty line. -/
theorem Client.lines_cut {front : List Char} {codes : List ℕ} {place : Json.Place}
    (cut : Json.reads (.between, .value []) front = some (.string .plain codes, place))
    {texts : List (List Char)} (empty : [] ∈ texts) :
    ∀ client : Client Char, client.ending = none → (∃ more, client.data = front :: more) →
      (client.lines python id texts).ending = some .jsonError := by
  induction texts with
  | nil => simp at empty
  | cons text rest ih =>
    rintro client live ⟨more, data⟩
    rw [Client.lines, List.foldl_cons]
    by_cases last : text = []
    · subst last
      have raw : ∃ tail, client.raw id = front ++ tail ∧
          (tail = [] ∨ ∃ after, tail = '\n' :: after) := by
        rw [Client.raw, data]
        cases more with
        | nil => exact ⟨[], by simp [List.intercalate], Or.inl rfl⟩
        | cons second others =>
          refine ⟨'\n' :: ['\n'].intercalate ((second :: others).map (List.map id)), ?_,
            Or.inr ⟨_, rfl⟩⟩
          simp [List.intercalate]
      obtain ⟨tail, same, ends⟩ := raw
      have broken : Json.loads (client.raw id) = none := by
        rw [same]
        exact Json.loads_cut cut ends
      have other : client.raw id ≠ "[DONE]".toList := by
        intro done
        rw [same] at done
        rcases ends with rfl | ⟨after, rfl⟩
        · rw [List.append_nil] at done
          have stuck : Json.reads (.between, .value []) "[DONE]".toList = none := rfl
          rw [done, stuck] at cut
          cases cut
        · have newline : '\n' ∈ "[DONE]".toList := by
            rw [← done]
            simp
          revert newline
          decide
      have delivered : deliver python (client.name id) (client.raw id) client.generation =
          ⟨[], client.generation, some .jsonError⟩ := by
        simp only [deliver, if_neg other, broken]
      rw [Client.line_empty live, if_neg (by simp [data])]
      have ended : (client.dispatch python id).ending = some .jsonError := by
        rw [Client.dispatch, delivered]
      have isOver : (client.dispatch python id).ending.isSome := by rw [ended]; rfl
      have stays := @Client.lines_ended python Char id _ isOver rest
      rw [← ended]
      exact congrArg Client.ending stays
    · have later : [] ∈ rest := by
        rcases List.mem_cons.mp empty with same | later
        · exact absurd same.symm last
        · exact later
      obtain ⟨stays, _, _, ⟨more', grown⟩, _⟩ := Client.line_grows python id live last
      refine ih later _ stays ⟨more ++ more', ?_⟩
      rw [grown, data]
      rfl

/-- A frame of a JSON text without line ends, behind what names the event. -/
theorem Session.read_frame (live : client.ending = none) (data : client.data = [])
    {text : List Char} {frame : Json} (line : IsLine text frame)
    (clear : ∀ c ∈ text, ¬ isSeparator c) (more : List Char) :
    Session.read python id ⟨{}, client⟩ ("data: ".toList ++ text ++ ['\n', '\n'] ++ more) =
      Session.read python id ⟨{}, client.after client.eventName (lstrip id text)
        (deliver python (client.name id) (lstrip id text) client.generation)⟩ more := by
  have plain : ∀ c ∈ text, charMark c = .inside := fun c member =>
    line.inside c member (clear c member)
  rw [Session.read_data live data plain,
    @Client.dispatch_one python { client with data := [lstrip id text] } text rfl]
  rfl

/-- A frame of a JSON text with a line end in it ends reading. -/
theorem Session.read_broken (live : client.ending = none) (data : client.data = [])
    {text : List Char} {frame : Json} (line : IsLine text frame)
    (broken : ∃ c ∈ text, isSeparator c) (more : List Char) :
    ((Session.read python id ⟨{}, client⟩
      ("data: ".toList ++ text ++ ['\n', '\n'] ++ more)).close python id).ending =
        some .jsonError := by
  -- the text up to its first line end
  have first : ∃ c front rest, text = front ++ c :: rest ∧ isSeparator c ∧
      ∀ d ∈ front, ¬ isSeparator d := by
    obtain ⟨c, member, separator⟩ := broken
    cases found : text.find? (fun c => isSeparator c) with
    | none =>
      have := List.find?_eq_none.mp found c member
      simp [separator] at this
    | some c =>
      obtain ⟨separator, front, rest, whole, before⟩ := List.find?_eq_some_iff_append.mp found
      exact ⟨c, front, rest, whole, by simpa using separator, fun d member => by
        simpa using before d member⟩
  obtain ⟨c, front, rest, rfl, separator, before⟩ := first
  have special : 0x80 ≤ c.toNat := by
    rcases separator with rfl | rfl | rfl <;> decide
  obtain ⟨⟨codes, place, cut⟩, _⟩ :=
    Json.reads_foreign line.loads (Json.foreign_of_special special)
  have plain : ∀ d ∈ "data: ".toList ++ front, charMark (id d) = .inside := by
    intro d member
    rcases List.mem_append.mp member with head | here
    · exact data_plain d head
    · exact line.inside d (by simp [here]) (before d here)
  have mark : charMark c = .other := by
    rcases separator with rfl | rfl | rfl <;> rfl
  -- the line end completes the data line; an empty line follows behind the frame
  have shape : "data: ".toList ++ (front ++ c :: rest) ++ ['\n', '\n'] ++ more =
      ("data: ".toList ++ front) ++ c :: (rest ++ ['\n', '\n'] ++ more) := by simp
  have breaks : charMark (id c) = .newline ∨ charMark (id c) = .other := Or.inr mark
  rw [shape, Session.read_line plain breaks, Client.line_data live, data, List.nil_append,
    Session.read_append]
  generalize behind : Session.read python id ⟨{}, { client with data := [lstrip id front] }⟩
    (rest ++ ['\n', '\n']) = session
  have ended : session.client.ending = some .jsonError := by
    have newline : (charMark ∘ id) '\n' = .newline := rfl
    have empty := LineReader.empty_mem_feed {} rest newline
    rw [← behind]
    exact Client.lines_cut (reads_lstrip cut) empty _ live ⟨[], rfl⟩
  rw [Session.close_ended python (by rw [ended]; rfl), ended]

theorem lstrip_encode (body : List (String × Json)) :
    lstrip id (Json.obj body).encode = (Json.obj body).encode := by
  obtain ⟨rest, same⟩ : ∃ rest, (Json.obj body).encode = '{' :: rest := ⟨_, rfl⟩
  rw [same]
  rfl

theorem namedText_append (name : String) (body : List (String × Json)) (more : List Char) :
    namedText name body ++ more = "event: ".toList ++ name.toList ++ '\n' ::
      ("data: ".toList ++ (Json.obj body).encode ++ ['\n', '\n'] ++ more) := by
  unfold namedText
  generalize (Json.obj body).encode = data
  simp

theorem mem_namedText {c : Char} (name : String) (body : List (String × Json)) :
    c ∈ namedText name body ↔ c ∈ "event: ".toList ∨ c ∈ name.toList ∨ c = '\n' ∨
      c ∈ "data: ".toList ∨ c ∈ (Json.obj body).encode := by
  unfold namedText
  generalize (Json.obj body).encode = data
  simp only [List.mem_append, List.mem_cons, List.not_mem_nil, or_false]
  tauto

/-- A named frame without line ends. -/
theorem Session.read_named (live : client.ending = none) (data : client.data = [])
    {name : String} (plain : ∀ c ∈ name.toList, charMark c = .inside)
    (stripped : strip id (' ' :: name.toList) = name.toList) {body : List (String × Json)}
    (distinct : (body.map Prod.fst).Nodup)
    (flat : ∀ member ∈ body, member.2.isPlain ∧ member.2.sortKeys = member.2)
    (clear : ∀ c ∈ namedText name body, ¬ isSeparator c) (more : List Char) :
    Session.read python id ⟨{}, client⟩ (namedText name body ++ more) =
      Session.read python id ⟨{}, client.after (some name.toList) (Json.obj body).encode
        (deliver python name.toList (Json.obj body).encode client.generation)⟩ more := by
  obtain ⟨frame, line⟩ := isLine_encode distinct flat
  have inner : ∀ c ∈ (Json.obj body).encode, ¬ isSeparator c := fun c member =>
    clear c ((mem_namedText name body).mpr (by tauto))
  have named : ({ client with eventName := some name.toList } : Client Char).name id =
      name.toList := by simp [Client.name]
  rw [namedText_append, Session.read_name live plain, stripped,
    @Session.read_frame python { client with eventName := some name.toList } live data _ _ line
      inner more, lstrip_encode, named]
  rfl

/-- A named frame with a line end in its data ends reading. -/
theorem Session.read_named_broken (live : client.ending = none) (data : client.data = [])
    {name : String} (plain : ∀ c ∈ name.toList, charMark c = .inside)
    {body : List (String × Json)} (distinct : (body.map Prod.fst).Nodup)
    (flat : ∀ member ∈ body, member.2.isPlain ∧ member.2.sortKeys = member.2)
    (broken : ∃ c ∈ namedText name body, isSeparator c) (more : List Char) :
    ((Session.read python id ⟨{}, client⟩ (namedText name body ++ more)).close python id).ending =
      some .jsonError := by
  obtain ⟨frame, line⟩ := isLine_encode distinct flat
  have inner : ∃ c ∈ (Json.obj body).encode, isSeparator c := by
    obtain ⟨c, member, separator⟩ := broken
    refine ⟨c, ?_, separator⟩
    have ne (d : Char) (other : ¬ isSeparator d) : c ≠ d := by
      rintro rfl
      exact other separator
    have mark : charMark c ≠ .inside := by
      rcases separator with rfl | rfl | rfl <;> decide
    rcases (mem_namedText name body).mp member with head | here | newline | head | here
    · exact absurd (event_plain c head) mark
    · exact absurd (plain c here) mark
    · exact absurd newline (ne _ (by decide))
    · exact absurd (data_plain c head) mark
    · exact here
  rw [namedText_append, Session.read_name live plain]
  exact @Session.read_broken python
    { client with eventName := some (strip id (' ' :: name.toList)) } live data _ _ line inner more

theorem control_plain : ∀ c ∈ "intramind.control".toList, charMark c = .inside :=
  List.all_iff_forall_prop.mp (by decide)

theorem error_plain : ∀ c ∈ "intramind.error".toList, charMark c = .inside :=
  List.all_iff_forall_prop.mp (by decide)

/-- A frame without line ends: the client behind it. -/
theorem Session.read_clear {generation : ℤ} (between : client.Between generation) {frame : Frame}
    (clear : ∀ c ∈ frame.text, ¬ isSeparator c) (more : List Char) :
    ∃ after : Client Char,
      Session.read python id ⟨{}, client⟩ (frame.text ++ more) =
        Session.read python id ⟨{}, after⟩ more ∧
      match frame with
      | .error failure => after.events = client.events ∧ after.ending = some (.streamError
          (if failure.message = "" then .str "managed inference failed"
            else .str failure.message) failure.reasonRead (.str failure.errorType))
      | frame => after.events = client.events ++ frame.events generation ∧
          after.Between (frame.next generation) := by
  obtain ⟨live, data, name, rfl⟩ := between
  cases frame with
  | chunk c =>
    have inner : ∀ d ∈ c.text, ¬ isSeparator d := fun d member =>
      clear d (by simp [Frame.text, member])
    have unnamed : client.name id = "message".toList := by rw [Client.name, name]
    refine ⟨_, Session.read_frame live data c.isLine inner more, ?_⟩
    rw [unnamed, deliver_chunk python c (loads_lstrip c.loads), name]
    exact ⟨Client.events_after _ _ _, rfl, rfl, rfl, rfl⟩
  | comment text oneLine =>
    have plain : ∀ c ∈ ':' :: text, charMark (id c) = .inside := by
      intro c member
      rcases List.mem_cons.mp member with rfl | here
      · rfl
      · exact oneLine c here
    have shape : (Frame.comment text oneLine).text ++ more =
        (':' :: text) ++ '\n' :: ([] ++ '\n' :: more) := by simp [Frame.text]
    have ignored : client.line python id (':' :: text) = client := by
      simp [Client.line, live, startsWith]
    refine ⟨{ client with eventName := none }, ?_, ?_⟩
    · rw [shape, Session.read_line plain newline_breaks,
        Session.read_line (by simp) newline_breaks, ignored, Client.line_empty live,
        if_pos (by simp [data])]
    · exact ⟨by simp [Frame.events, Client.events], live, data, rfl, rfl⟩
  | control kind own reason =>
    obtain ⟨distinct, flat⟩ := controlBody_flat kind own reason
    refine ⟨_, Session.read_named live data control_plain (by decide) distinct flat clear more, ?_⟩
    rw [deliver_control]
    exact ⟨Client.events_after _ _ _, rfl, rfl, rfl, rfl⟩
  | started evidence =>
    obtain ⟨distinct, flat⟩ := startedBody_flat evidence
    refine ⟨_, Session.read_named live data control_plain (by decide) distinct flat clear more, ?_⟩
    rw [deliver_started]
    exact ⟨Client.events_after _ _ _, rfl, rfl, rfl, rfl⟩
  | error failure =>
    obtain ⟨distinct, flat⟩ := failure.body_flat
    refine ⟨_, Session.read_named live data error_plain (by decide) distinct flat clear more, ?_⟩
    rw [deliver_error]
    exact ⟨by simp, rfl⟩

/-- A frame with a line end in it ends reading. -/
theorem Session.read_unclear {generation : ℤ} (between : client.Between generation)
    {frame : Frame} (unclear : ∃ c ∈ frame.text, isSeparator c) (more : List Char) :
    ((Session.read python id ⟨{}, client⟩ (frame.text ++ more)).close python id).ending =
      some .jsonError := by
  obtain ⟨live, data, name, rfl⟩ := between
  cases frame with
  | chunk c =>
    refine Session.read_broken live data c.isLine ?_ more
    obtain ⟨d, member, separator⟩ := unclear
    refine ⟨d, ?_, separator⟩
    have mark : charMark d ≠ .inside := by
      rcases separator with rfl | rfl | rfl <;> decide
    simp only [Frame.text, List.mem_append, List.mem_cons, List.not_mem_nil, or_false] at member
    rcases member with (head | here) | rfl | rfl
    · exact absurd (data_plain d head) mark
    · exact here
    · exact absurd separator (by decide)
    · exact absurd separator (by decide)
  | comment text oneLine =>
    obtain ⟨d, member, separator⟩ := unclear
    have mark : charMark d ≠ .inside := by
      rcases separator with rfl | rfl | rfl <;> decide
    simp only [Frame.text, List.mem_append, List.mem_cons, List.not_mem_nil, or_false] at member
    rcases member with (rfl | here) | rfl | rfl
    · exact absurd separator (by decide)
    · exact absurd (oneLine d here) mark
    · exact absurd separator (by decide)
    · exact absurd separator (by decide)
  | control kind own reason =>
    obtain ⟨distinct, flat⟩ := controlBody_flat kind own reason
    exact Session.read_named_broken live data control_plain distinct flat unclear more
  | started evidence =>
    obtain ⟨distinct, flat⟩ := startedBody_flat evidence
    exact Session.read_named_broken live data control_plain distinct flat unclear more
  | error failure =>
    obtain ⟨distinct, flat⟩ := failure.body_flat
    exact Session.read_named_broken live data error_plain distinct flat unclear more

/-- The last frame ends reading. -/
theorem Session.read_done {generation : ℤ} (between : client.Between generation) :
    ∃ last : Client Char,
      (Session.read python id ⟨{}, client⟩ "data: [DONE]\n\n".toList).close python id = last ∧
        last.events = client.events ∧ last.ending = some .returned := by
  have shape : "data: [DONE]\n\n".toList =
      "data: ".toList ++ "[DONE]".toList ++ ['\n', '\n'] ++ [] := rfl
  have same : lstrip id "[DONE]".toList = "[DONE]".toList := rfl
  have delivered : deliver python (client.name id) "[DONE]".toList client.generation =
      ⟨[], client.generation, some .returned⟩ := by
    rw [deliver, if_pos rfl]
  have behind := @Client.dispatch_one python { client with data := ["[DONE]".toList] }
    "[DONE]".toList rfl
  refine ⟨_, rfl, ?_⟩
  have plain : ∀ c ∈ "[DONE]".toList, charMark c = .inside :=
    List.all_iff_forall_prop.mp (by decide)
  rw [shape, Session.read_data between.live between.data plain, same, behind, same]
  have named : ({ client with data := ["[DONE]".toList] } : Client Char).name id =
      client.name id := rfl
  rw [named, delivered]
  exact ⟨Client.events_after _ _ _ |>.trans (List.append_nil _), rfl⟩

theorem Frame.Clear.text {frame : Frame} (clear : frame.Clear) :
    ∀ c ∈ frame.text, ¬ isSeparator c := by
  cases frame with
  | error failure => exact clear.1
  | _ => exact clear

theorem mem_reached (frame : Frame) (rest : List Frame) : frame ∈ reached (frame :: rest) := by
  cases frame <;> simp [reached]

theorem expected_ending (frames : List Frame) (generation : ℤ) :
    (expected generation frames).2 ≠ .jsonError := by
  induction frames generalizing generation with
  | nil => simp [expected]
  | cons frame rest ih => cases frame <;> simp [expected, ih]

/-- The frames of the rest of a response. -/
theorem Session.read_frames (frames : List Frame) :
    ∀ {client : Client Char} {generation : ℤ}, client.Between generation → ∃ last : Client Char,
      (Session.read python id ⟨{}, client⟩ (response frames)).close python id = last ∧
      ((last.events, last.ending.getD .endedEarly) =
          (client.events ++ (expected generation frames).1, (expected generation frames).2) ↔
        ∀ frame ∈ reached frames, frame.Clear) := by
  induction frames with
  | nil =>
    intro client generation between
    obtain ⟨last, same, events, ending⟩ := @Session.read_done python client generation between
    refine ⟨last, same, ?_⟩
    simp [expected, reached, events, ending]
  | cons frame rest ih =>
    intro client generation between
    have shape : response (frame :: rest) = frame.text ++ response rest := by
      simp [response, List.append_assoc]
    by_cases clear : ∀ c ∈ frame.text, ¬ isSeparator c
    · obtain ⟨after, same, what⟩ :=
        @Session.read_clear python client generation between frame clear (response rest)
      rw [shape, same]
      -- behind an ordinary frame, the rest is read like a response of its own
      have ordinary (more : reached (frame :: rest) = frame :: reached rest)
          (stands : expected generation (frame :: rest) =
            (frame.events generation ++ (expected (frame.next generation) rest).1,
              (expected (frame.next generation) rest).2)) (clean : frame.Clear)
          (events : after.events = client.events ++ frame.events generation)
          (next : after.Between (frame.next generation)) :
          ∃ last : Client Char,
            (Session.read python id ⟨{}, after⟩ (response rest)).close python id = last ∧
            ((last.events, last.ending.getD .endedEarly) =
              (client.events ++ (expected generation (frame :: rest)).1,
                (expected generation (frame :: rest)).2) ↔
              ∀ each ∈ reached (frame :: rest), each.Clear) := by
        obtain ⟨last, same, iff⟩ := ih next
        refine ⟨last, same, ?_⟩
        rw [events, List.append_assoc] at iff
        rw [more, stands, iff]
        simp [clean]
      cases frame with
      | error failure =>
        obtain ⟨events, ending⟩ := what
        have isOver : (Session.read python id ⟨{}, after⟩ (response rest)).close python id = after :=
          @Session.close_ended python Char id ⟨{}, after⟩ (by rw [ending]; rfl) _
        refine ⟨after, isOver, ?_⟩
        rw [events, ending]
        by_cases blank : failure.message = ""
        · simp [expected, reached, Frame.Clear, blank]
        · have clean : (Frame.error failure).Clear := ⟨clear, blank⟩
          simp [expected, reached, clean, blank]
      | chunk c => exact ordinary rfl rfl clear what.1 what.2
      | comment text oneLine => exact ordinary rfl rfl clear what.1 what.2
      | control kind own reason => exact ordinary rfl rfl clear what.1 what.2
      | started evidence => exact ordinary rfl rfl clear what.1 what.2
    · have unclear : ∃ c ∈ frame.text, isSeparator c := by simpa using clear
      have broken :=
        @Session.read_unclear python client generation between frame unclear (response rest)
      refine ⟨_, rfl, ?_⟩
      rw [shape]
      constructor
      · intro same
        have ends := congrArg Prod.snd same
        simp only [broken, Option.getD_some] at ends
        exact absurd ends.symm (expected_ending _ _)
      · intro all
        exact absurd (all frame (mem_reached frame rest)).text clear

end Reading

/-- Exactly when a response is read as it is meant: no frame up to the first error has a line
end that is not escaped, and an error has a message. -/
theorem streamEvents_response (python : Builtins) (frames : List Frame) :
    streamEvents python id (response frames) = expected 0 frames ↔
      ∀ frame ∈ reached frames, frame.Clear := by
  obtain ⟨last, same, iff⟩ :=
    @Session.read_frames python frames {} 0 ⟨rfl, rfl, rfl, rfl⟩
  rw [streamEvents, Session.reading_eq, same]
  exact iff

/-- The JSON value of a chunk with one token. -/
def tokenFrame (text : String) : Json :=
  .obj [("choices", .arr [.obj [("delta", .obj [("content", .str text)])]])]

/-- A chunk whose content has a line separator. The separator is not escaped. -/
def separatedChunk : Chunk where
  text := (tokenFrame "a\u2028b").dumps
  frame := tokenFrame "a\u2028b"
  loads := Json.loads_dumps (by decide +kernel)
  completion := by decide +kernel
  oneLine := by decide +kernel

/-- The token of such a chunk is lost: the client reads half of the frame. -/
theorem streamEvents_separated :
    ¬ ∀ (python : Builtins) (frames : List Frame),
      streamEvents python id (response frames) = expected 0 frames := by
  intro all
  have same := all ⟨fun _ => none, fun _ => false⟩ [.chunk separatedChunk]
  have lost : (streamEvents ⟨fun _ => none, fun _ => false⟩ id
      (response [.chunk separatedChunk])).1.length = 0 := by decide +kernel
  have one : (expected 0 [.chunk separatedChunk]).1.length = 1 := by decide +kernel
  rw [same, one] at lost
  cases lost

end IntramindRuntime.Proxy
