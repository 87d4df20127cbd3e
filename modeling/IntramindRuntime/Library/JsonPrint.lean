import IntramindRuntime.Library.JsonPath
import IntramindRuntime.Library.JsonText

/-!
# Printed JSON values

The text of a value with a space behind every comma and colon. It is read back as it was, real
numbers included, if the reals are texts that a reader has taken for one. All values that are read
from a text are of this kind. An object that was read may have a name twice; a dictionary has it
once, with its last value.

## Main definitions

* `Json.print` — the text of a value
* `Json.Readable` — the reals of a value are read back
* `Json.collapse` — a value as dictionaries

## Main results

* `Json.loads_print` — a readable value is read back from its text
* `Json.readable_loads` — values that are read are readable
* `Json.collapse_of_distinct` — dictionaries stay as they are
-/

namespace IntramindRuntime.Library

namespace Json

mutual

/-- The text of a value, with spaces. -/
def print : Json → List Char
  | .arr items => '[' :: (printItems items ++ [']'])
  | .obj members => '{' :: (printMembers members ++ ['}'])
  | value => value.dumps

/-- The items of an array, with commas between them. -/
def printItems : List Json → List Char
  | [] => []
  | item :: rest => item.print ++ printMoreItems rest

/-- Further items of an array. -/
def printMoreItems : List Json → List Char
  | [] => []
  | item :: rest => ',' :: ' ' :: (item.print ++ printMoreItems rest)

/-- The members of an object, with commas between them. -/
def printMembers : List (String × Json) → List Char
  | [] => []
  | (name, value) :: rest => quote name ++ (':' :: ' ' :: (value.print ++ printMoreMembers rest))

/-- Further members of an object. -/
def printMoreMembers : List (String × Json) → List Char
  | [] => []
  | (name, value) :: rest =>
    ',' :: ' ' :: (quote name ++ (':' :: ' ' :: (value.print ++ printMoreMembers rest)))

end

/-- Wherever a value may begin, reading the text completes the value, up to the end of a number. -/
def ReadsAs (text : List Char) (value : Json) : Prop :=
  ∀ {place : Place} {stack : List Frame}, place.Begins stack →
    ∃ reader, reads (.between, place) text = some reader ∧ Settles reader (.complete value stack)

mutual

/-- The reals of a value are read back. -/
def Readable : Json → Prop
  | .real text => ReadsAs text.toList (.real text)
  | .arr items => ReadableItems items
  | .obj members => ReadableMembers members
  | _ => True

/-- `Readable` for the items of an array. -/
def ReadableItems : List Json → Prop
  | [] => True
  | item :: rest => item.Readable ∧ ReadableItems rest

/-- `Readable` for the values of members. -/
def ReadableMembers : List (String × Json) → Prop
  | [] => True
  | (_, value) :: rest => value.Readable ∧ ReadableMembers rest

end

theorem readableItems_iff {items : List Json} :
    ReadableItems items ↔ ∀ item ∈ items, item.Readable := by
  induction items with
  | nil => simp [ReadableItems]
  | cons item rest ih => simp [ReadableItems, ih]

theorem readableMembers_iff {members : List (String × Json)} :
    ReadableMembers members ↔ ∀ member ∈ members, member.2.Readable := by
  induction members with
  | nil => simp [ReadableMembers]
  | cons member rest ih => simp [ReadableMembers, ih]

mutual

/-- The texts of a value do not matter for its reals. -/
theorem readable_outline_iff (value : Json) : value.outline.Readable ↔ value.Readable := by
  cases value with
  | arr items => exact readableItems_outline_iff items
  | obj members => exact readableMembers_outline_iff members
  | str _ | null | bool _ | int _ | real _ => simp [outline, Readable]

theorem readableItems_outline_iff (items : List Json) :
    ReadableItems (outlineItems items) ↔ ReadableItems items := by
  cases items with
  | nil => exact Iff.rfl
  | cons item rest =>
    rw [outlineItems, ReadableItems, ReadableItems, readable_outline_iff item,
      readableItems_outline_iff rest]

theorem readableMembers_outline_iff (members : List (String × Json)) :
    ReadableMembers (outlineMembers members) ↔ ReadableMembers members := by
  cases members with
  | nil => exact Iff.rfl
  | cons member rest =>
    obtain ⟨name, value⟩ := member
    rw [outlineMembers, ReadableMembers, ReadableMembers, readable_outline_iff value,
      readableMembers_outline_iff rest]

end

/-! ### Printed texts are read back -/

/-- A space between tokens. -/
theorem reads_space (place : Place) (rest : List Char) :
    reads (.between, place) (' ' :: rest) = reads (.between, place) rest := by
  rw [reads_cons, read_quiet place (rfl : Lexing.between.step ' ' = some ([], .between))]
  rfl

mutual

theorem readsAs_print {value : Json} (readable : value.Readable) : ReadsAs value.print value := by
  intro place stack begins
  cases value with
  | null => exact reads_dumps rfl begins
  | bool b => exact reads_dumps rfl begins
  | int n => exact reads_dumps rfl begins
  | str text => exact reads_dumps rfl begins
  | real text => exact readable begins
  | arr items =>
    refine ⟨(.between, .complete (.arr items) stack), ?_, Or.inl rfl⟩
    rw [print, reads_punct _ (by simp) begins.array]
    cases items with
    | nil => rw [printItems, List.nil_append, reads_punct [] (by simp) rfl]; rfl
    | cons item rest =>
      obtain ⟨first, here, settles⟩ := readsAs_print readable.1 (Place.begins_firstItem stack)
      obtain ⟨last, there, whole⟩ := reads_printMoreItems readable.2 settles
      rw [printItems, reads_append, reads_append, here, Option.bind_some, there,
        Option.bind_some, reads_cons, whole.read (by simp)]
      rfl
  | obj members =>
    refine ⟨(.between, .complete (.obj members) stack), ?_, Or.inl rfl⟩
    rw [print, reads_punct _ (by simp) begins.object]
    cases members with
    | nil => rw [printMembers, List.nil_append, reads_punct [] (by simp) rfl]; rfl
    | cons member rest =>
      obtain ⟨name, value⟩ := member
      obtain ⟨first, here, settles⟩ := readsAs_print readable.1
        (Place.begins_value (.members [] name :: stack))
      obtain ⟨last, there, whole⟩ := reads_printMoreMembers readable.2 settles
      rw [printMembers, List.append_assoc, List.cons_append, reads_name _ rfl, List.cons_append,
        reads_space, List.append_assoc, reads_append, here, Option.bind_some, reads_append, there,
        Option.bind_some, reads_cons, whole.read (by simp)]
      rfl

theorem reads_printMoreItems {items : List Json} (readable : ReadableItems items)
    {reader : Reader} {before : List Json} {stack : List Frame}
    (settles : Settles reader (.nextItem before stack)) :
    ∃ last, reads reader (printMoreItems items) = some last ∧
      Settles last (.nextItem (before ++ items) stack) := by
  cases items with
  | nil => exact ⟨reader, rfl, by simpa using settles⟩
  | cons item rest =>
    obtain ⟨first, here, after⟩ := readsAs_print readable.1
      (Place.begins_value (.items before :: stack))
    obtain ⟨last, there, whole⟩ := reads_printMoreItems readable.2 after
    refine ⟨last, ?_, by simpa using whole⟩
    rw [printMoreItems, reads_cons, settles.read (by simp)]
    simp only [Place.step, if_true, Option.map_some, Option.bind_some]
    rw [reads_space, reads_append, here, Option.bind_some, there]

theorem reads_printMoreMembers {members : List (String × Json)}
    (readable : ReadableMembers members) {reader : Reader} {before : List (String × Json)}
    {stack : List Frame} (settles : Settles reader (.nextName before stack)) :
    ∃ last, reads reader (printMoreMembers members) = some last ∧
      Settles last (.nextName (before ++ members) stack) := by
  cases members with
  | nil => exact ⟨reader, rfl, by simpa using settles⟩
  | cons member rest =>
    obtain ⟨name, value⟩ := member
    obtain ⟨first, here, after⟩ := readsAs_print readable.1
      (Place.begins_value (.members before name :: stack))
    obtain ⟨last, there, whole⟩ := reads_printMoreMembers readable.2 after
    refine ⟨last, ?_, by simpa using whole⟩
    rw [printMoreMembers, reads_cons, settles.read (by simp)]
    simp only [Place.step, if_true, Option.map_some, Option.bind_some]
    rw [reads_space, reads_name _ rfl, reads_space, reads_append, here, Option.bind_some, there]

end

/-- A readable value is read back from its text. -/
theorem loads_print {value : Json} (readable : value.Readable) :
    loads value.print = some value := by
  obtain ⟨reader, same, settles⟩ := readsAs_print readable (Place.begins_value [])
  rw [loads, same]
  exact settles.document

/-! ### Values that are read -/

/-- What has been read of a token can be read anywhere. -/
def Lexing.Open : Lexing → Prop
  | .number phase text => ∀ place, reads (.between, place) text = some (.number phase text, place)
  | .word kind seen =>
    ∀ place, reads (.between, place) (kind.letters.take seen) = some (.word kind seen, place)
  | _ => True

/-- A scalar among the tokens is readable. -/
def Token.Readable : Token → Prop
  | .scalar value => value.Readable
  | _ => True

theorem Lexing.open_start {c : Char} {tokens : List Token} {next : Lexing}
    (happens : Lexing.start c = some (tokens, next)) :
    next.Open ∧ ∀ token ∈ tokens, token.Readable := by
  have alone {lexing : Lexing} (quiet : Lexing.start c = some ([], lexing)) (place : Place) :
      reads (.between, place) [c] = some (lexing, place) := by
    rw [reads_cons, read_quiet place (show Lexing.between.step c = _ from quiet)]
    rfl
  have starts := happens
  rw [Lexing.start] at happens
  by_cases space : isSpace c = true
  · rw [if_pos space] at happens
    cases happens
    exact ⟨trivial, by simp⟩
  rw [if_neg space] at happens
  by_cases mark : c ∈ ['{', '}', '[', ']', ':', ',']
  · rw [if_pos mark] at happens
    cases happens
    exact ⟨trivial, by simp [Token.Readable]⟩
  rw [if_neg mark] at happens
  by_cases quote : c = '"'
  · rw [if_pos quote] at happens
    cases happens
    exact ⟨trivial, by simp⟩
  rw [if_neg quote] at happens
  by_cases minus : c = '-'
  · rw [if_pos minus] at happens
    cases happens
    exact ⟨alone starts, by simp⟩
  rw [if_neg minus] at happens
  by_cases zero : c = '0'
  · rw [if_pos zero] at happens
    cases happens
    exact ⟨alone starts, by simp⟩
  rw [if_neg zero] at happens
  by_cases digit : c.isDigit = true
  · rw [if_pos digit] at happens
    cases happens
    exact ⟨alone starts, by simp⟩
  rw [if_neg digit] at happens
  by_cases null : c = 'n'
  · rw [if_pos null] at happens
    cases happens
    subst null
    exact ⟨alone starts, by simp⟩
  rw [if_neg null] at happens
  by_cases yes : c = 't'
  · rw [if_pos yes] at happens
    cases happens
    subst yes
    exact ⟨alone starts, by simp⟩
  rw [if_neg yes] at happens
  by_cases no : c = 'f'
  · rw [if_pos no] at happens
    cases happens
    subst no
    exact ⟨alone starts, by simp⟩
  rw [if_neg no] at happens
  by_cases nan : c = 'N'
  · rw [if_pos nan] at happens
    cases happens
    subst nan
    exact ⟨alone starts, by simp⟩
  rw [if_neg nan] at happens
  by_cases infinite : c = 'I'
  · rw [if_pos infinite] at happens
    cases happens
    subst infinite
    exact ⟨alone starts, by simp⟩
  rw [if_neg infinite] at happens
  cases happens

/-- A real is readable if its text is read as it. -/
theorem readable_real {text : List Char} (back : ReadsAs text (.real (String.ofList text))) :
    (Json.real (String.ofList text)).Readable := by
  rw [Readable, String.toList_ofList]
  exact back

/-- A complete number is an integer, or a real with its text. -/
theorem NumberPhase.value_cases {phase : NumberPhase} {text : List Char} {value : Json}
    (complete : phase.value text = some value) :
    (∃ n, value = .int n) ∨ value = .real (String.ofList text) := by
  have whole : ∀ {value}, NumberPhase.value text .whole = some value → ∃ n, value = .int n := by
    intro value complete
    simp only [NumberPhase.value] at complete
    split at complete
    · exact ⟨_, (Option.some.inj complete).symm⟩
    · exact ⟨_, (Option.some.inj complete).symm⟩
  cases phase with
  | zero | whole => exact .inl (whole complete)
  | fraction | exponentDigits => exact .inr (Option.some.inj complete).symm
  | sign | point | exponent | exponentSign => exact nomatch complete

/-- A complete number is readable. -/
theorem readable_of_number {phase : NumberPhase} {text : List Char} {value : Json}
    (opened : (Lexing.number phase text).Open) (complete : phase.value text = some value) :
    (Token.scalar value).Readable := by
  rcases phase.value_cases complete with ⟨n, rfl⟩ | rfl
  · exact trivial
  · apply readable_real
    intro place stack begins
    exact ⟨_, opened place, Or.inr ⟨phase, text, _, place, rfl, complete, begins.scalar _⟩⟩

theorem Lexing.open_step {lexing next : Lexing} {c : Char} {tokens : List Token}
    (opened : lexing.Open) (happens : lexing.step c = some (tokens, next)) :
    next.Open ∧ ∀ token ∈ tokens, token.Readable := by
  cases lexing with
  | between => exact Lexing.open_start happens
  | string mode codes =>
    cases mode with
    | plain =>
      simp only [Lexing.step] at happens
      split_ifs at happens
      · split at happens
        · cases happens
          exact ⟨trivial, by simp [Token.Readable]⟩
        · cases happens
      · cases happens
        exact ⟨trivial, by simp⟩
      · cases happens
        exact ⟨trivial, by simp⟩
    | escaped =>
      simp only [Lexing.step] at happens
      split_ifs at happens
      · cases happens
        exact ⟨trivial, by simp⟩
      · split at happens
        · cases happens
          exact ⟨trivial, by simp⟩
        · cases happens
    | hex digits value =>
      simp only [Lexing.step] at happens
      split at happens
      · split_ifs at happens <;> cases happens <;> exact ⟨trivial, by simp⟩
      · cases happens
  | word word seen =>
    simp only [Lexing.step] at happens
    split_ifs at happens with letter last
    · cases happens
      refine ⟨trivial, ?_⟩
      intro token member
      rw [List.mem_singleton.mp member]
      -- the last letter completes the word wherever it stands
      have whole : word.letters = word.letters.take seen ++ [c] := by
        have small := (List.getElem?_eq_some_iff.mp letter).1
        rw [← (List.getElem?_eq_some_iff.mp letter).2, List.take_append_getElem small,
          List.take_of_length_le last.ge]
      have reads_word : ReadsAs word.letters word.value := by
        intro place stack begins
        have complete : (Lexing.word word seen).step c =
            some ([.scalar word.value], .between) := by
          simp only [Lexing.step, if_pos letter, if_pos last]
        refine ⟨_, ?_, Or.inl rfl⟩
        rw [whole, reads_append, opened place, Option.bind_some, reads_cons,
          read_token place complete, begins.scalar]
        rfl
      cases word with
      | null | true | false => exact trivial
      | nan => exact @readable_real Word.nan.letters reads_word
      | infinity => exact @readable_real Word.infinity.letters reads_word
      | negInfinity => exact @readable_real Word.negInfinity.letters reads_word
    · cases happens
      refine ⟨?_, by simp⟩
      intro place
      have quiet : (Lexing.word word seen).step c = some ([], .word word (seen + 1)) := by
        simp only [Lexing.step, if_pos letter, if_neg last]
      have small := (List.getElem?_eq_some_iff.mp letter).1
      rw [← List.take_append_getElem small, (List.getElem?_eq_some_iff.mp letter).2, reads_append,
        opened place, Option.bind_some, reads_cons, read_quiet place quiet]
      rfl
  | number phase text =>
    simp only [Lexing.step] at happens
    split at happens
    · rename_i further goes
      cases happens
      refine ⟨?_, by simp⟩
      intro place
      have quiet : (Lexing.number phase text).step c =
          some ([], .number further (text ++ [c])) := by
        simp only [Lexing.step, goes]
      rw [reads_append, opened place, Option.bind_some, reads_cons, read_quiet place quiet]
      rfl
    · split_ifs at happens with infinite
      · cases happens
        exact ⟨fun place => rfl, by simp⟩
      · split at happens
        · rename_i value complete
          obtain ⟨⟨others, rest⟩, started, same⟩ := Option.map_eq_some_iff.mp happens
          cases same
          obtain ⟨further, readable⟩ := Lexing.open_start started
          refine ⟨further, ?_⟩
          intro token member
          rcases List.mem_cons.mp member with rfl | later
          · exact readable_of_number opened complete
          · exact readable token later
        · cases happens

/-! ### Places -/

/-- The values that a frame has so far are readable. -/
def Frame.Readable : Frame → Prop
  | .items before => ReadableItems before
  | .members before _ => ReadableMembers before

/-- The values that have been read are readable. -/
def Place.Readable : Place → Prop
  | .value stack | .firstItem stack | .firstName stack => ∀ frame ∈ stack, frame.Readable
  | .name before stack | .colon before _ stack | .nextName before stack =>
    ReadableMembers before ∧ ∀ frame ∈ stack, frame.Readable
  | .nextItem before stack => ReadableItems before ∧ ∀ frame ∈ stack, frame.Readable
  | .done whole => whole.Readable

theorem readableItems_snoc {items : List Json} {value : Json} (before : ReadableItems items)
    (readable : value.Readable) : ReadableItems (items ++ [value]) := by
  rw [readableItems_iff] at *
  intro item member
  rcases List.mem_append.mp member with old | new
  · exact before item old
  · rwa [List.mem_singleton.mp new]

theorem readableMembers_snoc {members : List (String × Json)} {name : String} {value : Json}
    (before : ReadableMembers members) (readable : value.Readable) :
    ReadableMembers (members ++ [(name, value)]) := by
  rw [readableMembers_iff] at *
  intro member inside
  rcases List.mem_append.mp inside with old | new
  · exact before member old
  · rwa [List.mem_singleton.mp new]

theorem Place.readable_complete {value : Json} {stack : List Frame} (readable : value.Readable)
    (frames : ∀ frame ∈ stack, frame.Readable) : (Place.complete value stack).Readable := by
  cases stack with
  | nil => exact readable
  | cons frame rest =>
    obtain ⟨here, outer⟩ := List.forall_mem_cons.mp frames
    cases frame with
    | items before => exact ⟨readableItems_snoc here readable, outer⟩
    | members before name => exact ⟨readableMembers_snoc here readable, outer⟩

theorem Place.readable_begin {stack : List Frame} {token : Token} {next : Place}
    (frames : ∀ frame ∈ stack, frame.Readable) (readable : token.Readable)
    (happens : Place.begin stack token = some next) : next.Readable := by
  cases token with
  | scalar value =>
    cases happens
    exact readable_complete readable frames
  | str text =>
    cases happens
    exact readable_complete trivial frames
  | punct c =>
    rw [Place.begin] at happens
    by_cases array : c = '['
    · rw [if_pos array] at happens
      cases happens
      exact frames
    rw [if_neg array] at happens
    by_cases object : c = '{'
    · rw [if_pos object] at happens
      cases happens
      exact frames
    rw [if_neg object] at happens
    exact nomatch happens

theorem Place.readable_step {place next : Place} {token : Token} (before : place.Readable)
    (readable : token.Readable) (happens : place.step token = some next) : next.Readable := by
  have inItems {stack : List Frame} (frames : ∀ frame ∈ stack, frame.Readable) :
      ∀ frame ∈ Frame.items [] :: stack, frame.Readable :=
    List.forall_mem_cons.mpr ⟨trivial, frames⟩
  cases place with
  | value stack => exact readable_begin before readable happens
  | firstItem stack =>
    cases token with
    | punct c =>
      rw [Place.step] at happens
      by_cases empty : c = ']'
      · rw [if_pos empty] at happens
        cases happens
        exact readable_complete trivial before
      · rw [if_neg empty] at happens
        exact readable_begin (inItems before) readable happens
    | str text => exact readable_begin (inItems before) readable happens
    | scalar value => exact readable_begin (inItems before) readable happens
  | firstName stack =>
    cases token with
    | punct c =>
      rw [Place.step] at happens
      by_cases empty : c = '}'
      · rw [if_pos empty] at happens
        cases happens
        exact readable_complete trivial before
      · rw [if_neg empty] at happens
        exact nomatch happens
    | str text =>
      cases happens
      exact ⟨trivial, before⟩
    | scalar value => exact nomatch happens
  | name members stack =>
    cases token with
    | str text =>
      cases happens
      exact before
    | punct c => exact nomatch happens
    | scalar value => exact nomatch happens
  | colon members key stack =>
    cases token with
    | punct c =>
      rw [Place.step] at happens
      by_cases colon : c = ':'
      · rw [if_pos colon] at happens
        cases happens
        exact List.forall_mem_cons.mpr before
      · rw [if_neg colon] at happens
        exact nomatch happens
    | str text => exact nomatch happens
    | scalar value => exact nomatch happens
  | nextItem items stack =>
    cases token with
    | punct c =>
      rw [Place.step] at happens
      by_cases more : c = ','
      · rw [if_pos more] at happens
        cases happens
        exact List.forall_mem_cons.mpr before
      rw [if_neg more] at happens
      by_cases last : c = ']'
      · rw [if_pos last] at happens
        cases happens
        exact readable_complete before.1 before.2
      rw [if_neg last] at happens
      exact nomatch happens
    | str text => exact nomatch happens
    | scalar value => exact nomatch happens
  | nextName members stack =>
    cases token with
    | punct c =>
      rw [Place.step] at happens
      by_cases more : c = ','
      · rw [if_pos more] at happens
        cases happens
        exact before
      rw [if_neg more] at happens
      by_cases last : c = '}'
      · rw [if_pos last] at happens
        cases happens
        exact readable_complete before.1 before.2
      rw [if_neg last] at happens
      exact nomatch happens
    | str text => exact nomatch happens
    | scalar value => exact nomatch happens
  | done value => cases token <;> exact nomatch happens

theorem Place.readable_steps {place next : Place} {tokens : List Token} (before : place.Readable)
    (readable : ∀ token ∈ tokens, token.Readable) (happens : place.steps tokens = some next) :
    next.Readable := by
  induction tokens generalizing place with
  | nil =>
    cases happens
    exact before
  | cons token rest ih =>
    obtain ⟨here, later⟩ := List.forall_mem_cons.mp readable
    rw [Place.steps, List.foldlM_cons] at happens
    obtain ⟨between, first, happens⟩ := Option.bind_eq_some_iff.mp happens
    exact ih (readable_step before here first) later happens

/-- What is read of a text is readable, at every point. -/
theorem readable_reads {reader next : Reader} {text : List Char} (opened : reader.1.Open)
    (before : reader.2.Readable) (happens : reads reader text = some next) :
    next.1.Open ∧ next.2.Readable := by
  induction text generalizing reader with
  | nil =>
    cases happens
    exact ⟨opened, before⟩
  | cons c rest ih =>
    rw [reads_cons] at happens
    obtain ⟨between, first, happens⟩ := Option.bind_eq_some_iff.mp happens
    simp only [Json.read, Option.bind_eq_bind, Option.bind_eq_some_iff, Option.pure_def,
      Option.some.injEq, Prod.exists] at first
    obtain ⟨tokens, lexing, lexed, place, placed, rfl⟩ := first
    obtain ⟨further, readable⟩ := Lexing.open_step opened lexed
    exact ih further (Place.readable_steps before readable placed) happens

/-- Values that are read from a text are readable. -/
theorem readable_loads {text : List Char} {value : Json} (read : loads text = some value) :
    value.Readable := by
  obtain ⟨⟨lexing, place⟩, happens, finished⟩ := Option.bind_eq_some_iff.mp read
  have start : (Place.value []).Readable := fun _ member => absurd member List.not_mem_nil
  obtain ⟨opened, before⟩ := @readable_reads (.between, .value []) _ _ trivial start happens
  obtain ⟨tokens, ends, finished⟩ := Option.bind_eq_some_iff.mp finished
  obtain ⟨last, placed, finished⟩ := Option.bind_eq_some_iff.mp finished
  have readable : ∀ token ∈ tokens, token.Readable := by
    cases lexing with
    | between =>
      cases ends
      simp
    | number phase text =>
      obtain ⟨value, complete, rfl⟩ := Option.map_eq_some_iff.mp ends
      rw [List.forall_mem_singleton]
      exact readable_of_number opened complete
    | string mode codes => exact nomatch ends
    | word kind seen => exact nomatch ends
  have done := Place.readable_steps before readable placed
  cases last with
  | done other =>
    cases finished
    exact done
  | _ => exact nomatch finished

/-! ### Dictionaries -/

mutual

/-- The value with dictionaries for its objects: a name that occurs again replaces the value that it
had. -/
def collapse : Json → Json
  | .arr items => .arr (collapseItems items)
  | .obj members => .obj (collapseMembers [] members)
  | value => value

/-- `collapse` for the items of an array. -/
def collapseItems : List Json → List Json
  | [] => []
  | item :: rest => item.collapse :: collapseItems rest

/-- The dictionary that members make of one that is there. -/
def collapseMembers (sofar : List (String × Json)) : List (String × Json) → List (String × Json)
  | [] => sofar
  | (name, value) :: rest => collapseMembers (setMember name value.collapse sofar) rest

end

theorem mem_setMember {name : String} {item : Json} {members : List (String × Json)}
    {member : String × Json} (inside : member ∈ setMember name item members) :
    member = (name, item) ∨ member ∈ members := by
  unfold setMember at inside
  split_ifs at inside with known
  · obtain ⟨old, there, rfl⟩ := List.mem_map.mp inside
    split_ifs
    · exact .inl rfl
    · exact .inr there
  · rcases List.mem_append.mp inside with old | new
    · exact .inr old
    · exact .inl (List.mem_singleton.mp new)

theorem names_setMember_nodup {name : String} {item : Json} {members : List (String × Json)}
    (distinct : (members.map Prod.fst).Nodup) :
    ((setMember name item members).map Prod.fst).Nodup := by
  unfold setMember
  split_ifs with known
  · have same : (members.map fun member => if member.1 = name then (name, item) else member).map
        Prod.fst = members.map Prod.fst := by
      rw [List.map_map]
      refine List.map_congr_left ?_
      intro member _
      by_cases here : member.1 = name <;> simp [here]
    rwa [same]
  · rw [List.map_append, List.nodup_append]
    refine ⟨distinct, List.nodup_singleton _, ?_⟩
    intro old there new
    simp only [List.map_cons, List.map_nil, List.mem_singleton]
    rintro rfl rfl
    exact known there

mutual

/-- A value with dictionaries is one. -/
theorem distinct_collapse (value : Json) : value.collapse.Distinct := by
  cases value with
  | arr items => exact distinct_collapseItems items
  | obj members => exact distinct_collapseMembers members List.nodup_nil trivial
  | str _ | null | bool _ | int _ | real _ => exact trivial

theorem distinct_collapseItems (items : List Json) : DistinctItems (collapseItems items) := by
  cases items with
  | nil => exact trivial
  | cons item rest => exact ⟨distinct_collapse item, distinct_collapseItems rest⟩

theorem distinct_collapseMembers (members : List (String × Json)) {sofar : List (String × Json)}
    (names : (sofar.map Prod.fst).Nodup) (values : DistinctMembers sofar) :
    ((collapseMembers sofar members).map Prod.fst).Nodup ∧
      DistinctMembers (collapseMembers sofar members) := by
  cases members with
  | nil => exact ⟨names, values⟩
  | cons member rest =>
    obtain ⟨name, value⟩ := member
    refine distinct_collapseMembers rest (names_setMember_nodup names) ?_
    rw [distinctMembers_iff] at *
    intro member inside
    rcases mem_setMember inside with rfl | old
    · exact distinct_collapse value
    · exact values member old

end

mutual

theorem readable_collapse {value : Json} (readable : value.Readable) : value.collapse.Readable := by
  cases value with
  | arr items => exact readable_collapseItems readable
  | obj members => exact readable_collapseMembers readable trivial
  | real text => exact readable
  | str _ | null | bool _ | int _ => exact trivial

theorem readable_collapseItems {items : List Json} (readable : ReadableItems items) :
    ReadableItems (collapseItems items) := by
  cases items with
  | nil => exact trivial
  | cons item rest => exact ⟨readable_collapse readable.1, readable_collapseItems readable.2⟩

theorem readable_collapseMembers {members : List (String × Json)}
    (readable : ReadableMembers members) {sofar : List (String × Json)}
    (values : ReadableMembers sofar) : ReadableMembers (collapseMembers sofar members) := by
  cases members with
  | nil => exact values
  | cons member rest =>
    obtain ⟨name, value⟩ := member
    refine readable_collapseMembers readable.2 ?_
    rw [readableMembers_iff] at *
    intro member inside
    rcases mem_setMember inside with rfl | old
    · exact readable_collapse (readable (name, value) (by simp))
    · exact values member old

end

mutual

/-- Dictionaries stay as they are. -/
theorem collapse_of_distinct {value : Json} (distinct : value.Distinct) :
    value.collapse = value := by
  cases value with
  | arr items => exact congrArg Json.arr (collapseItems_of_distinct distinct)
  | obj members =>
    exact congrArg Json.obj (collapseMembers_of_distinct distinct.2 distinct.1)
  | str _ | null | bool _ | int _ | real _ => rfl

theorem collapseItems_of_distinct {items : List Json} (distinct : DistinctItems items) :
    collapseItems items = items := by
  cases items with
  | nil => rfl
  | cons item rest =>
    rw [collapseItems, collapse_of_distinct distinct.1, collapseItems_of_distinct distinct.2]

theorem collapseMembers_of_distinct {members : List (String × Json)}
    (distinct : DistinctMembers members) {sofar : List (String × Json)}
    (names : ((sofar ++ members).map Prod.fst).Nodup) :
    collapseMembers sofar members = sofar ++ members := by
  cases members with
  | nil => rw [collapseMembers, List.append_nil]
  | cons member rest =>
    obtain ⟨name, value⟩ := member
    have new : name ∉ sofar.map Prod.fst := by
      rw [List.map_append, List.nodup_append] at names
      exact fun old => names.2.2 name old name (by simp) rfl
    rw [List.append_cons] at names
    rw [collapseMembers, collapse_of_distinct distinct.1, setMember, if_neg new,
      collapseMembers_of_distinct distinct.2 names, ← List.append_cons]

end

end Json

end IntramindRuntime.Library
