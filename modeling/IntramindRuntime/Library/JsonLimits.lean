import IntramindRuntime.Library.JsonPrint

/-!
# Reading JSON within limits

An interpreter reads no arbitrary JSON. Integers may have so many digits and no more, and arrays
and objects may be nested so deep. What is beyond the first limit is refused like a text that is
no JSON, what is beyond the second fails in another way; and a text fails at the first thing that
is wrong with it, so one that is nested too deep may fail so without being JSON at all.

## Main definitions

* `Json.Limits`, `Json.fits` — the limits, and the values that are within them
* `Json.Failure` — the two ways in which reading fails
* `Json.loadsWithin`, `Json.readWithin` — read a whole text, within limits

## Main results

* `Json.Place.fits_step` — one token keeps within the limits, or leaves them for good
* `Json.loadsWithin_eq_ok_iff` — what is read is what the text stands for, if it is within limits
* `Json.readWithin_print` — dictionaries within the limits are read back from their text
-/

namespace IntramindRuntime.Library

namespace Json

/-- How many digits an integer may have, and how deep arrays and objects may be nested. -/
structure Limits where
  digits : Option ℕ
  nesting : ℕ

/-- The integer is not too long. -/
def Limits.allows (limits : Limits) (n : ℤ) : Bool :=
  limits.digits.all fun most => (Nat.toDigits 10 n.natAbs).length ≤ most

mutual

/-- The value is within the limits, where it stands within so many arrays and objects. -/
def fits (limits : Limits) (outside : ℕ) : Json → Bool
  | .int n => limits.allows n
  | .arr items => decide (outside < limits.nesting) && fitsItems limits (outside + 1) items
  | .obj members => decide (outside < limits.nesting) && fitsMembers limits (outside + 1) members
  | _ => true

/-- `fits` for the items of an array. -/
def fitsItems (limits : Limits) (outside : ℕ) : List Json → Bool
  | [] => true
  | item :: rest => item.fits limits outside && fitsItems limits outside rest

/-- `fits` for the values of members. -/
def fitsMembers (limits : Limits) (outside : ℕ) : List (String × Json) → Bool
  | [] => true
  | (_, value) :: rest => value.fits limits outside && fitsMembers limits outside rest

end

/-! ### The reader -/

/-- How reading fails: the text is refused, or it is nested too deep. -/
inductive Failure
  | refused
  | tooDeep
  deriving DecidableEq

/-- The token is no integer that is too long. -/
def Token.fits (limits : Limits) : Token → Bool
  | .scalar (.int n) => limits.allows n
  | _ => true

/-- The number of arrays and objects around what follows. -/
def Place.depth : Place → ℕ
  | .value stack => stack.length
  | .firstItem stack | .firstName stack | .name _ stack | .colon _ _ stack | .nextItem _ stack
  | .nextName _ stack => stack.length + 1
  | .done _ => 0

/-- The next token. -/
def Place.advance (limits : Limits) (place : Place) (token : Token) : Except Failure Place :=
  if !token.fits limits then .error .refused
  else match place.step token with
    | none => .error .refused
    | some next => if limits.nesting < next.depth then .error .tooDeep else .ok next

/-- Tokens, one after another. -/
def Place.advances (limits : Limits) (place : Place) (tokens : List Token) :
    Except Failure Place :=
  tokens.foldlM (advance limits) place

/-- The next character. -/
def advance (limits : Limits) (reader : Reader) (c : Char) : Except Failure Reader :=
  match reader.1.step c with
  | none => .error .refused
  | some (tokens, lexing) => (reader.2.advances limits tokens).map fun place => (lexing, place)

/-- Characters, one after another. -/
def advances (limits : Limits) (reader : Reader) (text : List Char) : Except Failure Reader :=
  text.foldlM (advance limits) reader

/-- The document, if it is complete. -/
def conclusion (limits : Limits) (reader : Reader) : Except Failure Json :=
  match reader.1.finish with
  | none => .error .refused
  | some tokens =>
    match reader.2.advances limits tokens with
    | .ok (.done value) => .ok value
    | .ok _ => .error .refused
    | .error failure => .error failure

/-- Read a text within limits. -/
def loadsWithin (limits : Limits) (text : List Char) : Except Failure Json :=
  (advances limits (.between, .value []) text).bind (conclusion limits)

/-- The value of a text within limits, with dictionaries for its objects. -/
def readWithin (limits : Limits) (text : List Char) : Except Failure Json :=
  (loadsWithin limits text).map collapse

-- a text that is nested too deep fails so before it turns out to be no JSON
example : loadsWithin ⟨some 2, 2⟩ "[[[".toList = .error .tooDeep := by rfl
example : loadsWithin ⟨some 2, 2⟩ "[100, [[[".toList = .error .refused := by rfl

/-! ### Values within limits -/

section Fits

variable {limits : Limits} {outside : ℕ}

theorem fitsItems_iff {items : List Json} :
    fitsItems limits outside items = true ↔ ∀ item ∈ items, item.fits limits outside = true := by
  induction items with
  | nil => simp [fitsItems]
  | cons item rest ih => simp [fitsItems, ih]

theorem fitsMembers_iff {members : List (String × Json)} :
    fitsMembers limits outside members = true ↔
      ∀ member ∈ members, member.2.fits limits outside = true := by
  induction members with
  | nil => simp [fitsMembers]
  | cons member rest ih => simp [fitsMembers, ih]

mutual

/-- Which strings a value has does not matter. -/
theorem fits_outline (value : Json) (outside : ℕ) :
    value.outline.fits limits outside = value.fits limits outside := by
  cases value with
  | arr items => rw [outline, fits, fits, fitsItems_outline items]
  | obj members => rw [outline, fits, fits, fitsMembers_outline members]
  | str _ | null | bool _ | int _ | real _ => rfl

theorem fitsItems_outline (items : List Json) (outside : ℕ) :
    fitsItems limits outside (outlineItems items) = fitsItems limits outside items := by
  cases items with
  | nil => rfl
  | cons item rest =>
    rw [outlineItems, fitsItems, fitsItems, fits_outline item, fitsItems_outline rest]

theorem fitsMembers_outline (members : List (String × Json)) (outside : ℕ) :
    fitsMembers limits outside (outlineMembers members) = fitsMembers limits outside members := by
  cases members with
  | nil => rfl
  | cons member rest =>
    obtain ⟨name, value⟩ := member
    rw [outlineMembers, fitsMembers, fitsMembers, fits_outline value, fitsMembers_outline rest]

end

mutual

theorem fits_collapse {value : Json} {outside : ℕ} (small : value.fits limits outside = true) :
    value.collapse.fits limits outside = true := by
  cases value with
  | arr items =>
    rw [fits, Bool.and_eq_true] at small
    rw [collapse, fits, Bool.and_eq_true]
    exact ⟨small.1, fitsItems_collapse small.2⟩
  | obj members =>
    rw [fits, Bool.and_eq_true] at small
    rw [collapse, fits, Bool.and_eq_true]
    exact ⟨small.1, fitsMembers_collapse small.2 rfl⟩
  | str _ | null | bool _ | int _ | real _ => exact small

theorem fitsItems_collapse {items : List Json} {outside : ℕ}
    (small : fitsItems limits outside items = true) :
    fitsItems limits outside (collapseItems items) = true := by
  cases items with
  | nil => rfl
  | cons item rest =>
    rw [fitsItems, Bool.and_eq_true] at small
    rw [collapseItems, fitsItems, Bool.and_eq_true]
    exact ⟨fits_collapse small.1, fitsItems_collapse small.2⟩

theorem fitsMembers_collapse {members : List (String × Json)} {outside : ℕ}
    (small : fitsMembers limits outside members = true) {sofar : List (String × Json)}
    (values : fitsMembers limits outside sofar = true) :
    fitsMembers limits outside (collapseMembers sofar members) = true := by
  cases members with
  | nil => exact values
  | cons member rest =>
    obtain ⟨name, value⟩ := member
    rw [fitsMembers, Bool.and_eq_true] at small
    refine fitsMembers_collapse small.2 ?_
    rw [fitsMembers_iff] at *
    intro member inside
    rcases mem_setMember inside with rfl | old
    · exact fits_collapse small.1
    · exact values member old

end

end Fits

/-! ### Places within limits -/

/-- The values that a frame has so far. -/
def Frame.values : Frame → List Json
  | .items before => before
  | .members before _ => before.map Prod.snd

/-- Frames that are not nested too deep, with values within the limits. -/
def StackFits (limits : Limits) : List Frame → Prop
  | [] => True
  | frame :: outer => outer.length < limits.nesting ∧
      (∀ value ∈ frame.values, value.fits limits (outer.length + 1) = true) ∧
      StackFits limits outer

/-- All that has been read is within the limits. -/
def Place.Fits (limits : Limits) : Place → Prop
  | .value stack => StackFits limits stack
  | .firstItem stack | .firstName stack => StackFits limits (.items [] :: stack)
  | .nextItem before stack => StackFits limits (.items before :: stack)
  | .name before stack | .colon before _ stack | .nextName before stack =>
    StackFits limits (.members before "" :: stack)
  | .done whole => whole.fits limits 0 = true

/-- A scalar is neither an array nor an object. -/
def Token.Flat : Token → Prop
  | .scalar (.arr _) | .scalar (.obj _) => False
  | _ => True

section Places

variable {limits : Limits} {place next : Place} {token : Token}

theorem Place.fits_complete {value : Json} {stack : List Frame} :
    (Place.complete value stack).Fits limits ↔
      value.fits limits stack.length = true ∧ StackFits limits stack := by
  cases stack with
  | nil => simp [complete, Fits, StackFits]
  | cons frame outer =>
    cases frame with
    | items before =>
      simp only [complete, Fits, StackFits, Frame.values, List.forall_mem_append,
        List.forall_mem_singleton, List.length_cons]
      tauto
    | members before name =>
      simp only [complete, Fits, StackFits, Frame.values, List.map_append, List.map_cons,
        List.map_nil, List.forall_mem_append, List.forall_mem_singleton, List.length_cons]
      tauto

/-- What is within the limits is not nested too deep. -/
theorem Place.Fits.depth (small : place.Fits limits) : place.depth ≤ limits.nesting := by
  cases place with
  | value stack =>
    cases stack with
    | nil => exact Nat.zero_le _
    | cons frame outer => exact small.1
  | done whole => exact Nat.zero_le _
  | firstItem _ | firstName _ | name _ _ | colon _ _ _ | nextItem _ _ | nextName _ _ =>
    exact small.1

theorem Place.fits_begin {stack : List Frame} (flat : token.Flat)
    (happens : Place.begin stack token = some next) :
    next.Fits limits ↔ StackFits limits stack ∧ token.fits limits = true ∧
      next.depth ≤ limits.nesting := by
  cases token with
  | scalar v =>
    cases happens
    cases v with
    | arr _ | obj _ => exact flat.elim
    | null | bool _ | int _ | real _ | str _ =>
      refine ⟨fun small => ?_, fun small => ?_⟩
      · exact ⟨(fits_complete.mp small).2, (fits_complete.mp small).1, small.depth⟩
      · exact fits_complete.mpr ⟨small.2.1, small.1⟩
  | str text =>
    cases happens
    refine ⟨fun small => ⟨(fits_complete.mp small).2, rfl, small.depth⟩, fun small => ?_⟩
    exact fits_complete.mpr ⟨rfl, small.1⟩
  | punct c =>
    rw [Place.begin] at happens
    have opens (first : next = .firstItem stack ∨ next = .firstName stack) :
        next.Fits limits ↔ StackFits limits stack ∧ (Token.punct c).fits limits = true ∧
          next.depth ≤ limits.nesting := by
      have empty :
          ∀ v ∈ Frame.values (.items []), Json.fits limits (stack.length + 1) v = true := by
        simp [Frame.values]
      rcases first with rfl | rfl
      · exact ⟨fun small => ⟨small.2.2, rfl, small.1⟩, fun small => ⟨small.2.2, empty, small.1⟩⟩
      · exact ⟨fun small => ⟨small.2.2, rfl, small.1⟩, fun small => ⟨small.2.2, empty, small.1⟩⟩
    split_ifs at happens
    · exact opens (.inl (Option.some.inj happens).symm)
    · exact opens (.inr (Option.some.inj happens).symm)

/-- One token keeps within the limits, or leaves them for good. -/
theorem Place.fits_step (flat : token.Flat) (happens : place.step token = some next) :
    next.Fits limits ↔ place.Fits limits ∧ token.fits limits = true ∧
      next.depth ≤ limits.nesting := by
  have same (kept : next.Fits limits ↔ place.Fits limits) (plain : token.fits limits = true) :
      next.Fits limits ↔ place.Fits limits ∧ token.fits limits = true ∧
        next.depth ≤ limits.nesting :=
    ⟨fun small => ⟨kept.mp small, plain, small.depth⟩, fun small => kept.mpr small.1⟩
  -- what is closed is a value of its parts; what is opened is one level deeper
  cases place with
  | value stack => exact fits_begin flat happens
  | firstItem stack =>
    cases token with
    | punct c =>
      rw [Place.step] at happens
      by_cases empty : c = ']'
      · rw [if_pos empty] at happens
        cases happens
        refine same (fits_complete.trans ?_) rfl
        simp [Json.fits, fitsItems, Place.Fits, StackFits, Frame.values]
      · rw [if_neg empty] at happens
        exact fits_begin flat happens
    | str _ | scalar _ => exact fits_begin flat happens
  | firstName stack =>
    cases token with
    | punct c =>
      rw [Place.step] at happens
      obtain ⟨-, reached⟩ := Option.ite_none_right_eq_some.mp happens
      cases reached
      refine same (fits_complete.trans ?_) rfl
      simp [Json.fits, fitsMembers, Place.Fits, StackFits, Frame.values]
    | str text =>
      cases happens
      exact same Iff.rfl rfl
    | scalar _ => cases happens
  | name before stack =>
    cases token with
    | str text =>
      cases happens
      exact same Iff.rfl rfl
    | punct _ | scalar _ => cases happens
  | colon before key stack =>
    cases token with
    | punct c =>
      rw [Place.step] at happens
      obtain ⟨-, reached⟩ := Option.ite_none_right_eq_some.mp happens
      cases reached
      exact same Iff.rfl rfl
    | str _ | scalar _ => cases happens
  | nextItem before stack =>
    cases token with
    | punct c =>
      rw [Place.step] at happens
      split_ifs at happens
      · cases happens
        exact same Iff.rfl rfl
      · cases happens
        refine same (fits_complete.trans ?_) rfl
        simp [Json.fits, fitsItems_iff, Place.Fits, StackFits, Frame.values, and_assoc]
    | str _ | scalar _ => cases happens
  | nextName before stack =>
    cases token with
    | punct c =>
      rw [Place.step] at happens
      split_ifs at happens
      · cases happens
        exact same Iff.rfl rfl
      · cases happens
        refine same (fits_complete.trans ?_) rfl
        simp only [Json.fits, Bool.and_eq_true, decide_eq_true_eq, fitsMembers_iff, Place.Fits,
          StackFits, Frame.values, List.forall_mem_map, and_assoc]
    | str _ | scalar _ => cases happens
  | done whole => cases token <;> cases happens

/-- One token within limits is a token, and keeps within the limits. -/
theorem Place.advance_eq_ok_iff (flat : token.Flat) (small : place.Fits limits) :
    place.advance limits token = .ok next ↔ place.step token = some next ∧ next.Fits limits := by
  rw [Place.advance]
  cases plain : token.fits limits with
  | false =>
    refine iff_of_false (by simp) ?_
    rintro ⟨happens, after⟩
    rw [fits_step flat happens, plain] at after
    exact absurd after.2.1 Bool.false_ne_true
  | true =>
    cases happens : place.step token with
    | none => simp
    | some reached =>
      have after : reached.Fits limits ↔ reached.depth ≤ limits.nesting := by
        rw [fits_step flat happens]
        exact ⟨fun both => both.2.2, fun depth => ⟨small, plain, depth⟩⟩
      simp only [Bool.not_true, Bool.false_eq_true, if_false, Option.some.injEq]
      split_ifs with deep
      · refine iff_of_false nofun ?_
        rintro ⟨rfl, inside⟩
        exact absurd (after.mp inside) (not_le.mpr deep)
      · constructor
        · intro same
          cases same
          exact ⟨rfl, after.mpr (not_lt.mp deep)⟩
        · rintro ⟨rfl, -⟩
          rfl

/-- What has left the limits does not come back. -/
theorem Place.fits_of_steps {tokens : List Token} (flat : ∀ token ∈ tokens, token.Flat)
    (happens : place.steps tokens = some next) (small : next.Fits limits) : place.Fits limits := by
  induction tokens generalizing place with
  | nil =>
    cases happens
    exact small
  | cons token rest ih =>
    obtain ⟨here, later⟩ := List.forall_mem_cons.mp flat
    rw [Place.steps, List.foldlM_cons] at happens
    obtain ⟨between, first, happens⟩ := Option.bind_eq_some_iff.mp happens
    exact ((fits_step here first).mp (ih later happens)).1

theorem Place.advances_eq_ok_iff {tokens : List Token} (flat : ∀ token ∈ tokens, token.Flat)
    (small : place.Fits limits) :
    place.advances limits tokens = .ok next ↔
      place.steps tokens = some next ∧ next.Fits limits := by
  induction tokens generalizing place with
  | nil =>
    constructor
    · intro same
      cases same
      exact ⟨rfl, small⟩
    · rintro ⟨same, -⟩
      cases same
      rfl
  | cons token rest ih =>
    obtain ⟨here, later⟩ := List.forall_mem_cons.mp flat
    have steps : place.steps (token :: rest) =
        (place.step token).bind fun between => between.steps rest := rfl
    have advances : place.advances limits (token :: rest) =
        (place.advance limits token).bind fun between => between.advances limits rest := rfl
    rw [steps, advances]
    cases first : place.advance limits token with
    | ok between =>
      obtain ⟨stepped, inside⟩ := (advance_eq_ok_iff here small).mp first
      rw [stepped]
      exact ih later inside
    | error failure =>
      refine iff_of_false nofun ?_
      rintro ⟨happens, after⟩
      obtain ⟨between, stepped, happens⟩ := Option.bind_eq_some_iff.mp happens
      have inside := fits_of_steps later happens after
      rw [(advance_eq_ok_iff here small).mpr ⟨stepped, inside⟩] at first
      cases first

end Places

/-! ### Texts within limits -/

section Texts

variable {limits : Limits}

theorem Lexing.flat_start {c : Char} {tokens : List Token} {next : Lexing}
    (happens : Lexing.start c = some (tokens, next)) : ∀ token ∈ tokens, token.Flat := by
  -- all characters but brackets, colons and commas only begin a token
  have quiet {p : Prop} [Decidable p] {lexing : Lexing} {other : Option (List Token × Lexing)}
      (otherwise : other = some (tokens, next) → tokens = [])
      (happens : (if p then some ([], lexing) else other) = some (tokens, next)) : tokens = [] := by
    split_ifs at happens
    · cases happens
      rfl
    · exact otherwise happens
  rw [Lexing.start] at happens
  by_cases space : isSpace c = true
  · rw [if_pos space] at happens
    cases happens
    simp
  rw [if_neg space] at happens
  by_cases mark : c ∈ ['{', '}', '[', ']', ':', ',']
  · rw [if_pos mark] at happens
    cases happens
    simp [Token.Flat]
  rw [if_neg mark] at happens
  have none : (none : Option (List Token × Lexing)) = some (tokens, next) → tokens = [] := by
    intro impossible
    cases impossible
  rw [quiet (quiet (quiet (quiet (quiet (quiet (quiet (quiet (quiet none)))))))) happens]
  simp

theorem NumberPhase.flat_value {phase : NumberPhase} {text : List Char} {value : Json}
    (complete : phase.value text = some value) : (Token.scalar value).Flat := by
  rcases phase.value_cases complete with ⟨n, rfl⟩ | rfl
  · trivial
  · trivial

/-- The scalars of a text are neither arrays nor objects. -/
theorem Lexing.flat_step {lexing next : Lexing} {c : Char} {tokens : List Token}
    (happens : lexing.step c = some (tokens, next)) : ∀ token ∈ tokens, token.Flat := by
  cases lexing with
  | between => exact Lexing.flat_start happens
  | string mode codes =>
    cases mode with
    | plain =>
      simp only [Lexing.step] at happens
      split_ifs at happens
      · split at happens
        · cases happens
          simp [Token.Flat]
        · cases happens
      · cases happens
        simp
      · cases happens
        simp
    | escaped =>
      simp only [Lexing.step] at happens
      split_ifs at happens
      · cases happens
        simp
      · split at happens
        · cases happens
          simp
        · cases happens
    | hex digits value =>
      simp only [Lexing.step] at happens
      split at happens
      · split_ifs at happens <;> cases happens <;> simp
      · cases happens
  | word word seen =>
    simp only [Lexing.step] at happens
    split_ifs at happens
    · cases happens
      cases word <;> simp [Word.value, Token.Flat]
    · cases happens
      simp
  | number phase text =>
    simp only [Lexing.step] at happens
    split at happens
    · cases happens
      simp
    · split_ifs at happens
      · cases happens
        simp
      · split at happens
        · rename_i value complete
          obtain ⟨⟨others, rest⟩, started, same⟩ := Option.map_eq_some_iff.mp happens
          cases same
          exact List.forall_mem_cons.mpr ⟨NumberPhase.flat_value complete, flat_start started⟩
        · cases happens

theorem Lexing.flat_finish {lexing : Lexing} {tokens : List Token}
    (ends : lexing.finish = some tokens) : ∀ token ∈ tokens, token.Flat := by
  cases lexing with
  | between =>
    cases ends
    simp
  | number phase text =>
    obtain ⟨value, complete, rfl⟩ := Option.map_eq_some_iff.mp ends
    exact List.forall_mem_singleton.mpr (NumberPhase.flat_value complete)
  | string mode codes => cases ends
  | word kind seen => cases ends

variable {reader next : Reader} {c : Char} {text : List Char} {value : Json}

theorem read_eq {tokens : List Token} {lexing : Lexing}
    (lexed : reader.1.step c = some (tokens, lexing)) :
    read reader c = (reader.2.steps tokens).map fun place => (lexing, place) := by
  rw [read, lexed]
  cases placed : reader.2.steps tokens <;> simp [placed]

/-- One character within limits is a character, and keeps within the limits. -/
theorem advance_eq_ok_iff (small : reader.2.Fits limits) :
    advance limits reader c = .ok next ↔ read reader c = some next ∧ next.2.Fits limits := by
  rw [advance]
  cases lexed : reader.1.step c with
  | none => simp [read, lexed]
  | some lexed' =>
    obtain ⟨tokens, lexing⟩ := lexed'
    have places := fun place => @Place.advances_eq_ok_iff limits reader.2 place tokens
      (Lexing.flat_step lexed) small
    rw [read_eq lexed, Option.map_eq_some_iff]
    dsimp only
    constructor
    · intro reached
      cases placed : reader.2.advances limits tokens with
      | error failure =>
        rw [placed] at reached
        cases reached
      | ok place =>
        rw [placed] at reached
        cases reached
        obtain ⟨stepped, inside⟩ := (places place).mp placed
        exact ⟨⟨place, stepped, rfl⟩, inside⟩
    · rintro ⟨⟨place, stepped, rfl⟩, inside⟩
      rw [(places place).mpr ⟨stepped, inside⟩]
      rfl

theorem fits_of_reads (happens : reads reader text = some next) (small : next.2.Fits limits) :
    reader.2.Fits limits := by
  induction text generalizing reader with
  | nil =>
    cases happens
    exact small
  | cons c rest ih =>
    rw [reads_cons] at happens
    obtain ⟨between, first, happens⟩ := Option.bind_eq_some_iff.mp happens
    cases lexed : reader.1.step c with
    | none => simp [read, lexed] at first
    | some lexed' =>
      obtain ⟨tokens, lexing⟩ := lexed'
      rw [read_eq lexed] at first
      obtain ⟨place, stepped, rfl⟩ := Option.map_eq_some_iff.mp first
      exact Place.fits_of_steps (Lexing.flat_step lexed) stepped (ih happens)

theorem advances_eq_ok_iff (small : reader.2.Fits limits) :
    advances limits reader text = .ok next ↔
      reads reader text = some next ∧ next.2.Fits limits := by
  induction text generalizing reader with
  | nil =>
    constructor
    · intro same
      cases same
      exact ⟨rfl, small⟩
    · rintro ⟨same, -⟩
      cases same
      rfl
  | cons c rest ih =>
    have unfolded : advances limits reader (c :: rest) =
        (advance limits reader c).bind fun between => advances limits between rest := rfl
    rw [unfolded, reads_cons]
    cases first : advance limits reader c with
    | ok between =>
      obtain ⟨stepped, inside⟩ := (advance_eq_ok_iff small).mp first
      rw [stepped]
      exact ih inside
    | error failure =>
      refine iff_of_false nofun ?_
      rintro ⟨happens, after⟩
      obtain ⟨between, stepped, happens⟩ := Option.bind_eq_some_iff.mp happens
      rw [(advance_eq_ok_iff small).mpr ⟨stepped, fits_of_reads happens after⟩] at first
      cases first

theorem document_eq_some_iff : document reader = some value ↔
    ∃ tokens, reader.1.finish = some tokens ∧ reader.2.steps tokens = some (.done value) := by
  rw [document]
  cases ends : reader.1.finish with
  | none => simp
  | some tokens =>
    cases placed : reader.2.steps tokens with
    | none => simp [placed]
    | some place => cases place <;> simp [placed]

theorem conclusion_eq_ok_iff (small : reader.2.Fits limits) :
    conclusion limits reader = .ok value ↔
      document reader = some value ∧ value.fits limits 0 = true := by
  rw [conclusion, document_eq_some_iff]
  cases ends : reader.1.finish with
  | none => simp
  | some tokens =>
    have places := @Place.advances_eq_ok_iff limits reader.2 (.done value) tokens
      (Lexing.flat_finish ends) small
    simp only [Option.some.injEq, exists_eq_left']
    rw [show value.fits limits 0 = true ↔ (Place.done value).Fits limits from Iff.rfl, ← places]
    cases placed : reader.2.advances limits tokens with
    | error failure => simp
    | ok place => cases place <;> simp

/-- What is read is what the text stands for, if it is within the limits. -/
theorem loadsWithin_eq_ok_iff :
    loadsWithin limits text = .ok value ↔ loads text = some value ∧ value.fits limits 0 = true := by
  have start : (Place.value []).Fits limits := trivial
  have unfolded : loads text = (reads (.between, .value []) text).bind document := rfl
  rw [loadsWithin, unfolded]
  cases happens : advances limits (.between, .value []) text with
  | ok reader =>
    obtain ⟨happens, small⟩ := (advances_eq_ok_iff start).mp happens
    rw [happens]
    exact conclusion_eq_ok_iff small
  | error failure =>
    refine iff_of_false nofun ?_
    rintro ⟨loaded, inside⟩
    obtain ⟨reader, happens', concluded⟩ := Option.bind_eq_some_iff.mp loaded
    -- a document within the limits has been within them all the time
    have small : reader.2.Fits limits := by
      obtain ⟨tokens, ends, stepped⟩ := document_eq_some_iff.mp concluded
      exact Place.fits_of_steps (Lexing.flat_finish ends) stepped inside
    rw [(advances_eq_ok_iff start).mpr ⟨happens', small⟩] at happens
    cases happens

/-- Dictionaries within the limits are read back from their text. -/
theorem readWithin_print (readable : value.Readable) (distinct : value.Distinct)
    (small : value.fits limits 0 = true) : readWithin limits value.print = .ok value := by
  have loaded : loadsWithin limits value.print = .ok value :=
    loadsWithin_eq_ok_iff.mpr ⟨loads_print readable, small⟩
  rw [readWithin, loaded]
  exact congrArg Except.ok (collapse_of_distinct distinct)

/-- What is read is readable, has dictionaries for its objects, and is within the limits. -/
theorem sound_readWithin (happens : readWithin limits text = .ok value) :
    value.Readable ∧ value.Distinct ∧ value.fits limits 0 = true := by
  cases loaded : loadsWithin limits text with
  | error failure =>
    rw [readWithin, loaded] at happens
    cases happens
  | ok raw =>
    rw [readWithin, loaded] at happens
    cases happens
    obtain ⟨loaded, small⟩ := loadsWithin_eq_ok_iff.mp loaded
    exact ⟨readable_collapse (readable_loads loaded), distinct_collapse raw, fits_collapse small⟩

end Texts

end Json

end IntramindRuntime.Library
