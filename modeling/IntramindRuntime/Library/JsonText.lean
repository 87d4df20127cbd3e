import IntramindRuntime.Library.Json
import Mathlib.Data.Bool.AllAny
import Mathlib.Tactic.IntervalCases

/-!
# Reading JSON

A reader of JSON texts that goes over a text character by character. Its state is how far a
token has come, and what may follow in the document; so a text is read by a fold, and what is
read of a text depends on nothing behind it.

## Main definitions

* `Json.Lexing`, `Json.Lexing.step` — how far a token has come
* `Json.Place`, `Json.Place.step` — what may follow in the document
* `Json.loads` — read a whole text

## Main results

* `Json.loads_dumps` — compact texts are read back
* `Json.loads_cut` — a text that is cut where a string has a special character is no JSON
-/

namespace IntramindRuntime.Library

namespace Json

/-! ### Tokens -/

/-- Space between tokens. -/
def isSpace (c : Char) : Bool := c = ' ' || c = '\t' || c = '\n' || c = '\r'

/-- A token: a bracket, a colon or a comma, a string, or another scalar. -/
inductive Token
  | punct (c : Char)
  | str (text : String)
  | scalar (value : Json)

/-- The tokens that are words. -/
inductive Word
  | null | true | false | nan | infinity | negInfinity

/-- The letters of a word. -/
def Word.letters : Word → List Char
  | .null => ['n', 'u', 'l', 'l']
  | .true => ['t', 'r', 'u', 'e']
  | .false => ['f', 'a', 'l', 's', 'e']
  | .nan => ['N', 'a', 'N']
  | .infinity => ['I', 'n', 'f', 'i', 'n', 'i', 't', 'y']
  | .negInfinity => ['-', 'I', 'n', 'f', 'i', 'n', 'i', 't', 'y']

/-- The value of a word. -/
def Word.value : Word → Json
  | .null => .null
  | .true => .bool Bool.true
  | .false => .bool Bool.false
  | word => .real (String.ofList word.letters)

/-- Where a string is. -/
inductive StringMode
  | plain
  /-- Behind a backslash. -/
  | escaped
  /-- Behind `\u` and some digits. -/
  | hex (digits value : ℕ)

/-- Where a number is. -/
inductive NumberPhase
  | sign | zero | whole | point | fraction | exponent | exponentSign | exponentDigits
  deriving DecidableEq

/-- How a number goes on. -/
def NumberPhase.next (c : Char) : NumberPhase → Option NumberPhase
  | .sign => if c = '0' then some .zero else if c.isDigit then some .whole else none
  | .zero => if c = '.' then some .point else if c = 'e' ∨ c = 'E' then some .exponent else none
  | .whole =>
    if c.isDigit then some .whole
    else if c = '.' then some .point
    else if c = 'e' ∨ c = 'E' then some .exponent
    else none
  | .point => if c.isDigit then some .fraction else none
  | .fraction =>
    if c.isDigit then some .fraction
    else if c = 'e' ∨ c = 'E' then some .exponent
    else none
  | .exponent =>
    if c.isDigit then some .exponentDigits
    else if c = '+' ∨ c = '-' then some .exponentSign
    else none
  | .exponentSign | .exponentDigits => if c.isDigit then some .exponentDigits else none

/-- The value of a number, unless it is not complete. -/
def NumberPhase.value (text : List Char) : NumberPhase → Option Json
  | .zero | .whole =>
    match text with
    | '-' :: rest => some (.int (-(Nat.ofDigitChars 10 rest 0 : ℤ)))
    | _ => some (.int (Nat.ofDigitChars 10 text 0))
  | .fraction | .exponentDigits => some (.real (String.ofList text))
  | _ => none

/-- How far a token has come. -/
inductive Lexing
  | between
  /-- In a string, with the code points so far, the last one first. -/
  | string (mode : StringMode) (codes : List ℕ)
  | word (word : Word) (seen : ℕ)
  | number (phase : NumberPhase) (text : List Char)

/-- The character behind a backslash. -/
def unescape (c : Char) : Option Char :=
  if c = '"' ∨ c = '\\' ∨ c = '/' then some c
  else if c = 'b' then some '\x08'
  else if c = 'f' then some '\x0c'
  else if c = 'n' then some '\n'
  else if c = 'r' then some '\r'
  else if c = 't' then some '\t'
  else none

/-- The value of a hexadecimal digit. -/
def hexValue (c : Char) : Option ℕ :=
  if c.isDigit then some (c.toNat - '0'.toNat)
  else if 'a' ≤ c ∧ c ≤ 'f' then some (c.toNat - 'a'.toNat + 10)
  else if 'A' ≤ c ∧ c ≤ 'F' then some (c.toNat - 'A'.toNat + 10)
  else none

/-- The characters of code points. Surrogates come in pairs; strings with single ones are left
out, as they are no Unicode text. -/
def decodeUnits : List ℕ → Option (List Char)
  | [] => some []
  | high :: rest =>
    if 0xD800 ≤ high ∧ high < 0xDC00 then
      match rest with
      | low :: rest =>
        if 0xDC00 ≤ low ∧ low < 0xE000 then do
          let text ← decodeUnits rest
          return Char.ofNat (0x10000 + (high - 0xD800) * 0x400 + (low - 0xDC00)) :: text
        else none
      | [] => none
    else if 0xDC00 ≤ high ∧ high < 0xE000 then none
    else do
      let text ← decodeUnits rest
      return Char.ofNat high :: text

namespace Lexing

/-- A character between tokens. -/
def start (c : Char) : Option (List Token × Lexing) :=
  if isSpace c then some ([], .between)
  else if c ∈ ['{', '}', '[', ']', ':', ','] then some ([.punct c], .between)
  else if c = '"' then some ([], .string .plain [])
  else if c = '-' then some ([], .number .sign [c])
  else if c = '0' then some ([], .number .zero [c])
  else if c.isDigit then some ([], .number .whole [c])
  else if c = 'n' then some ([], .word .null 1)
  else if c = 't' then some ([], .word .true 1)
  else if c = 'f' then some ([], .word .false 1)
  else if c = 'N' then some ([], .word .nan 1)
  else if c = 'I' then some ([], .word .infinity 1)
  else none

/-- The next character: the tokens that it completes, and what is read then. -/
def step (c : Char) : Lexing → Option (List Token × Lexing)
  | .between => start c
  | .string .plain codes =>
    if c = '"' then
      match decodeUnits codes.reverse with
      | some text => some ([.str (String.ofList text)], .between)
      | none => none
    else if c = '\\' then some ([], .string .escaped codes)
    else if c.toNat < 0x20 then none
    else some ([], .string .plain (c.toNat :: codes))
  | .string .escaped codes =>
    if c = 'u' then some ([], .string (.hex 0 0) codes)
    else match unescape c with
      | some d => some ([], .string .plain (d.toNat :: codes))
      | none => none
  | .string (.hex digits value) codes =>
    match hexValue c with
    | some d =>
      if digits = 3 then some ([], .string .plain ((value * 16 + d) :: codes))
      else some ([], .string (.hex (digits + 1) (value * 16 + d)) codes)
    | none => none
  | .word kind seen =>
    if kind.letters[seen]? = some c then
      if seen + 1 = kind.letters.length then some ([.scalar kind.value], .between)
      else some ([], .word kind (seen + 1))
    else none
  | .number phase text =>
    match phase.next c with
    | some phase => some ([], .number phase (text ++ [c]))
    | none =>
      if phase = .sign ∧ c = 'I' then some ([], .word .negInfinity 2)
      else match phase.value text with
        | some value => (start c).map fun next => (.scalar value :: next.1, next.2)
        | none => none

/-- The tokens that the end of the text completes. -/
def finish : Lexing → Option (List Token)
  | .between => some []
  | .number phase text => (phase.value text).map fun value => [.scalar value]
  | _ => none

end Lexing

/-! ### Documents -/

/-- An array or an object around a value. -/
inductive Frame
  | items (before : List Json)
  | members (before : List (String × Json)) (name : String)

/-- What may follow in a document. -/
inductive Place
  | value (stack : List Frame)
  | firstItem (stack : List Frame)
  | firstName (stack : List Frame)
  | name (before : List (String × Json)) (stack : List Frame)
  | colon (before : List (String × Json)) (name : String) (stack : List Frame)
  | nextItem (before : List Json) (stack : List Frame)
  | nextName (before : List (String × Json)) (stack : List Frame)
  | done (value : Json)

namespace Place

/-- A value is complete. -/
def complete (v : Json) : List Frame → Place
  | [] => .done v
  | .items before :: stack => .nextItem (before ++ [v]) stack
  | .members before key :: stack => .nextName (before ++ [(key, v)]) stack

/-- A token where a value must be. -/
def begin (stack : List Frame) : Token → Option Place
  | .scalar v => some (complete v stack)
  | .str text => some (complete (.str text) stack)
  | .punct c =>
    if c = '[' then some (.firstItem stack)
    else if c = '{' then some (.firstName stack)
    else none

/-- The next token. -/
def step : Place → Token → Option Place
  | .value stack, token => begin stack token
  | .firstItem stack, .punct c =>
    if c = ']' then some (complete (.arr []) stack) else begin (.items [] :: stack) (.punct c)
  | .firstItem stack, token => begin (.items [] :: stack) token
  | .firstName stack, .punct c => if c = '}' then some (complete (.obj []) stack) else none
  | .firstName stack, .str key => some (.colon [] key stack)
  | .name before stack, .str key => some (.colon before key stack)
  | .colon before key stack, .punct c =>
    if c = ':' then some (.value (.members before key :: stack)) else none
  | .nextItem before stack, .punct c =>
    if c = ',' then some (.value (.items before :: stack))
    else if c = ']' then some (complete (.arr before) stack)
    else none
  | .nextName before stack, .punct c =>
    if c = ',' then some (.name before stack)
    else if c = '}' then some (complete (.obj before) stack)
    else none
  | _, _ => none

/-- Tokens, one after another. -/
def steps (place : Place) (tokens : List Token) : Option Place := tokens.foldlM step place

end Place

/-- The state of the reader. -/
abbrev Reader := Lexing × Place

/-- The next character. -/
def read (reader : Reader) (c : Char) : Option Reader := do
  let (tokens, lexing) ← reader.1.step c
  let place ← reader.2.steps tokens
  return (lexing, place)

/-- Characters, one after another. -/
def reads (reader : Reader) (text : List Char) : Option Reader := text.foldlM read reader

/-- The document, if it is complete. -/
def document (reader : Reader) : Option Json := do
  let tokens ← reader.1.finish
  match ← reader.2.steps tokens with
  | .done value => some value
  | _ => none

/-- What a text stands for, however long its integers are, and however deep it is nested. -/
def loads (text : List Char) : Option Json := do
  let reader ← reads (.between, .value []) text
  document reader

example : (loads "[null, -3, 1.5e2]".toList).map dumps = some "[null,-3,1.5e2]".toList := by
  decide +kernel

/-! ### Reading in parts -/

@[simp] theorem reads_nil (reader : Reader) : reads reader [] = some reader := rfl

theorem reads_cons (reader : Reader) (c : Char) (text : List Char) :
    reads reader (c :: text) = (read reader c).bind fun next => reads next text := rfl

theorem reads_append (reader : Reader) (first second : List Char) :
    reads reader (first ++ second) = (reads reader first).bind fun next => reads next second := by
  rw [reads, List.foldlM_append]
  rfl

/-- A character that completes no token. -/
theorem read_quiet {lexing next : Lexing} {c : Char} (place : Place)
    (quiet : lexing.step c = some ([], next)) : read (lexing, place) c = some (next, place) := by
  rw [read, quiet]
  rfl

/-- A character that completes one token. -/
theorem read_token {lexing next : Lexing} {c : Char} {token : Token} (place : Place)
    (complete : lexing.step c = some ([token], next)) :
    read (lexing, place) c = (place.step token).map fun place => (next, place) := by
  rw [read, complete]
  cases happens : place.step token with
  | none => simp [Place.steps, happens]
  | some after => simp [Place.steps, happens]

/-! ### Strings -/

theorem hexValue_hexDigit {n : ℕ} (small : n < 16) : hexValue (hexDigit n) = some n := by
  interval_cases n <;> rfl

/-- A character of a string is read back. -/
theorem reads_escape (place : Place) (codes : List ℕ) (c : Char) :
    reads (.string .plain codes, place) (escape c) =
      some (.string .plain (c.toNat :: codes), place) := by
  -- characters behind a backslash
  have short (d : Char) (back : unescape d = some c) (other : d ≠ 'u') :
      reads (.string .plain codes, place) ['\\', d] =
        some (.string .plain (c.toNat :: codes), place) := by
    have slash : (Lexing.string .plain codes).step '\\' = some ([], .string .escaped codes) := rfl
    have letter : (Lexing.string .escaped codes).step d =
        some ([], .string .plain (c.toNat :: codes)) := by
      simp only [Lexing.step, if_neg other, back]
    rw [reads_cons, read_quiet place slash, Option.bind_some, reads_cons, read_quiet place letter]
    rfl
  simp only [escape]
  split
  · rename_i same
    subst same
    exact short '"' rfl (by decide)
  · rename_i notQuote
    split
    · rename_i same
      subst same
      exact short '\\' rfl (by decide)
    · rename_i notSlash
      split
      · rename_i same
        subst same
        exact short 'n' rfl (by decide)
      · split
        · rename_i same
          subst same
          exact short 'r' rfl (by decide)
        · split
          · rename_i same
            subst same
            exact short 't' rfl (by decide)
          · split
            · rename_i same
              subst same
              exact short 'b' rfl (by decide)
            · split
              · rename_i same
                subst same
                exact short 'f' rfl (by decide)
              · split
                · -- a control character, as four digits
                  rename_i control
                  have high : hexValue (hexDigit (c.toNat / 16)) = some (c.toNat / 16) :=
                    hexValue_hexDigit (by omega)
                  have low : hexValue (hexDigit (c.toNat % 16)) = some (c.toNat % 16) :=
                    hexValue_hexDigit (by omega)
                  have value : (0 * 16 + c.toNat / 16) * 16 + c.toNat % 16 = c.toNat := by omega
                  have digit (digits value d : ℕ) (x : Char) (here : hexValue x = some d)
                      (few : digits ≠ 3) :
                      (Lexing.string (.hex digits value) codes).step x =
                        some ([], .string (.hex (digits + 1) (value * 16 + d)) codes) := by
                    simp only [Lexing.step, here, if_neg few]
                  have last : (Lexing.string (.hex 3 (0 * 16 + c.toNat / 16)) codes).step
                      (hexDigit (c.toNat % 16)) = some ([], .string .plain (c.toNat :: codes)) := by
                    simp only [Lexing.step, low, if_true, value]
                  have slash : (Lexing.string .plain codes).step '\\' =
                      some ([], .string .escaped codes) := rfl
                  have four : (Lexing.string .escaped codes).step 'u' =
                      some ([], .string (.hex 0 0) codes) := rfl
                  rw [reads_cons, read_quiet place slash, Option.bind_some, reads_cons,
                    read_quiet place four, Option.bind_some, reads_cons,
                    read_quiet place (digit 0 0 0 '0' rfl (by decide)), Option.bind_some,
                    reads_cons, read_quiet place (digit 1 0 0 '0' rfl (by decide)),
                    Option.bind_some, reads_cons,
                    read_quiet place (digit 2 0 _ _ high (by decide)), Option.bind_some,
                    reads_cons, read_quiet place last]
                  rfl
                · rename_i printable
                  have itself : (Lexing.string .plain codes).step c =
                      some ([], .string .plain (c.toNat :: codes)) := by
                    simp only [Lexing.step, if_neg notQuote, if_neg notSlash, if_neg printable]
                  rw [reads_cons, read_quiet place itself]
                  rfl

theorem decodeUnits_toNat (text : List Char) : decodeUnits (text.map Char.toNat) = some text := by
  induction text with
  | nil => rfl
  | cons c rest ih =>
    -- characters are no surrogates
    have valid : c.toNat < 0xD800 ∨ (0xDFFF < c.toNat ∧ c.toNat < 0x110000) := c.valid
    have low : ¬ (0xD800 ≤ c.toNat ∧ c.toNat < 0xDC00) := by omega
    have high : ¬ (0xDC00 ≤ c.toNat ∧ c.toNat < 0xE000) := by omega
    rw [List.map_cons, decodeUnits.eq_def]
    simp only [if_neg low, if_neg high, ih, Char.ofNat_toNat]
    rfl

theorem reads_flatMap_escape (place : Place) (codes : List ℕ) (text : List Char) :
    reads (.string .plain codes, place) (text.flatMap escape) =
      some (.string .plain ((text.map Char.toNat).reverse ++ codes), place) := by
  induction text generalizing codes with
  | nil => rfl
  | cons c rest ih =>
    rw [List.flatMap_cons, reads_append, reads_escape, Option.bind_some, ih, List.map_cons,
      List.reverse_cons, List.append_assoc]
    rfl

/-- A string is read back. -/
theorem reads_quote (place : Place) (text : String) :
    reads (.between, place) (quote text) =
      (place.step (.str text)).map fun next => (.between, next) := by
  have opening : Lexing.between.step '"' = some ([], .string .plain []) := rfl
  have closing : (Lexing.string .plain ((text.toList.map Char.toNat).reverse)).step '"' =
      some ([.str text], .between) := by
    have units := decodeUnits_toNat text.toList
    simp only [Lexing.step, List.reverse_reverse, if_true, units, String.ofList_toList]
  rw [quote, reads_cons, read_quiet place opening, Option.bind_some, reads_append,
    reads_flatMap_escape, Option.bind_some, List.append_nil, reads_cons,
    read_token place closing]
  cases place.step (.str text) with
  | none => rfl
  | some next => rfl

/-! ### Numbers -/

theorem toDigits_succ (n : ℕ) : ∃ k rest, 0 < k ∧ k < 10 ∧ (∀ c ∈ rest, c.isDigit) ∧
    Nat.toDigits 10 (n + 1) = Nat.digitChar k :: rest := by
  induction n using Nat.strong_induction_on with
  | _ n ih =>
    by_cases small : n + 1 < 10
    · exact ⟨n + 1, [], by omega, small, by simp, Nat.toDigits_of_lt_base small⟩
    · -- all digits but the last one belong to the quotient
      have shorter := ih ((n + 1) / 10 - 1) (by omega)
      rw [Nat.sub_add_cancel (by omega)] at shorter
      obtain ⟨k, rest, positive, less, digits, front⟩ := shorter
      have all : Nat.toDigits 10 (n + 1) =
          Nat.toDigits 10 ((n + 1) / 10) ++ [Nat.digitChar ((n + 1) % 10)] :=
        Nat.toDigits_of_base_le (by omega) (by omega)
      refine ⟨k, rest ++ [Nat.digitChar ((n + 1) % 10)], positive, less, ?_, ?_⟩
      · intro c member
        have here : c ∈ Nat.toDigits 10 (n + 1) := by
          rw [all, front]
          simpa using Or.inr (by simpa using member)
        exact Nat.isDigit_of_mem_toDigits (by omega) (by omega) here
      · rw [all, front]
        rfl

theorem reads_whole (place : Place) (text rest : List Char) (digits : ∀ c ∈ rest, c.isDigit) :
    reads (.number .whole text, place) rest = some (.number .whole (text ++ rest), place) := by
  induction rest generalizing text with
  | nil => simp
  | cons c rest ih =>
    have here : (Lexing.number .whole text).step c =
        some ([], .number .whole (text ++ [c])) := by
      simp only [Lexing.step, NumberPhase.next, if_pos (digits c (by simp))]
    rw [reads_cons, read_quiet place here, Option.bind_some,
      ih _ (fun d member => digits d (by simp [member])), List.append_assoc]
    rfl

/-- An integer is read up to its last digit; what follows decides that it is complete. -/
theorem reads_digits (place : Place) (n : ℤ) : ∃ phase text,
    reads (.between, place) (digits n) = some (.number phase text, place) ∧
      phase.value text = some (.int n) ∧ (phase = .zero ∨ phase = .whole) := by
  cases n with
  | ofNat n =>
    cases n with
    | zero => exact ⟨.zero, ['0'], rfl, rfl, Or.inl rfl⟩
    | succ n =>
      obtain ⟨k, rest, positive, less, numerals, written⟩ := toDigits_succ n
      have first : Lexing.between.step (Nat.digitChar k) =
          some ([], .number .whole [Nat.digitChar k]) := by
        interval_cases k <;> rfl
      have unsigned : NumberPhase.value (Nat.digitChar k :: rest) .whole =
          some (.int (Nat.ofDigitChars 10 (Nat.digitChar k :: rest) 0)) := by
        interval_cases k <;> rfl
      refine ⟨.whole, Nat.digitChar k :: rest, ?_, ?_, Or.inr rfl⟩
      · rw [digits, written, reads_cons, read_quiet place first, Option.bind_some,
          reads_whole place _ rest numerals]
        rfl
      · rw [unsigned, ← written, Nat.ofDigitChars_ten_toDigits]
        rfl
  | negSucc n =>
    obtain ⟨k, rest, positive, less, numerals, written⟩ := toDigits_succ n
    have sign : Lexing.between.step '-' = some ([], .number .sign ['-']) := rfl
    have first : (Lexing.number .sign ['-']).step (Nat.digitChar k) =
        some ([], .number .whole ['-', Nat.digitChar k]) := by
      interval_cases k <;> rfl
    refine ⟨.whole, '-' :: Nat.digitChar k :: rest, ?_, ?_, Or.inr rfl⟩
    · rw [digits, written, reads_cons, read_quiet place sign, Option.bind_some, reads_cons,
        read_quiet place first, Option.bind_some, reads_whole place _ rest numerals]
      rfl
    · have signed : NumberPhase.value ('-' :: Nat.digitChar k :: rest) .whole =
          some (.int (-(Nat.ofDigitChars 10 (Nat.digitChar k :: rest) 0 : ℤ))) := rfl
      rw [signed, ← written, Nat.ofDigitChars_ten_toDigits]
      rfl

/-! ### Compact texts are read back -/

/-- The reader is at a place, up to a number whose end is still open. -/
def Settles (reader : Reader) (place : Place) : Prop :=
  reader = (.between, place) ∨ ∃ phase text value before,
    reader = (.number phase text, before) ∧ phase.value text = some value ∧
      before.step (.scalar value) = some place

/-- A bracket or a comma completes a number. -/
theorem Settles.read {reader : Reader} {place : Place} (settles : Settles reader place)
    {c : Char} (mark : c = ',' ∨ c = ']' ∨ c = '}') :
    read reader c = (place.step (.punct c)).map fun next => (.between, next) := by
  rcases settles with rfl | ⟨phase, text, value, before, rfl, complete, taken⟩
  · have here : Lexing.between.step c = some ([.punct c], .between) := by
      rcases mark with rfl | rfl | rfl <;> rfl
    exact read_token place here
  · have stops : phase.next c = none := by
      rcases mark with rfl | rfl | rfl <;> cases phase <;> rfl
    have other : ¬ (phase = .sign ∧ c = 'I') := by
      rcases mark with rfl | rfl | rfl <;> simp
    have fresh : Lexing.start c = some ([.punct c], .between) := by
      rcases mark with rfl | rfl | rfl <;> rfl
    have here : (Lexing.number phase text).step c =
        some ([.scalar value, .punct c], .between) := by
      simp only [Lexing.step, stops, if_neg other, complete, fresh, Option.map_some]
    rw [Json.read, here]
    cases happens : place.step (.punct c) with
    | none => simp [Place.steps, taken, happens]
    | some after => simp [Place.steps, taken, happens]

theorem Settles.document {reader : Reader} {value : Json}
    (settles : Settles reader (.done value)) : document reader = some value := by
  rcases settles with rfl | ⟨phase, text, last, before, rfl, complete, taken⟩
  · rfl
  · have finish : (Lexing.number phase text).finish = some [.scalar last] := by
      simp only [Lexing.finish, complete, Option.map_some]
    simp [Json.document, finish, Place.steps, taken]

/-- A value may begin here, inside the frames of a stack. -/
structure Place.Begins (place : Place) (stack : List Frame) : Prop where
  scalar (value : Json) : place.step (.scalar value) = some (complete value stack)
  str (text : String) : place.step (.str text) = some (complete (.str text) stack)
  array : place.step (.punct '[') = some (.firstItem stack)
  object : place.step (.punct '{') = some (.firstName stack)

theorem Place.begins_value (stack : List Frame) : Place.Begins (.value stack) stack :=
  ⟨fun _ => rfl, fun _ => rfl, rfl, rfl⟩

theorem Place.begins_firstItem (stack : List Frame) :
    Place.Begins (.firstItem stack) (.items [] :: stack) :=
  ⟨fun _ => rfl, fun _ => rfl, rfl, rfl⟩

theorem reads_punct {place next : Place} {c : Char} (rest : List Char)
    (mark : c ∈ ['{', '}', '[', ']', ':', ',']) (step : place.step (.punct c) = some next) :
    reads (.between, place) (c :: rest) = reads (.between, next) rest := by
  have here : Lexing.between.step c = some ([.punct c], .between) := by
    simp only [List.mem_cons, List.not_mem_nil, or_false] at mark
    rcases mark with rfl | rfl | rfl | rfl | rfl | rfl <;> rfl
  rw [reads_cons, read_token place here, step]
  rfl

/-- A name and its colon. -/
theorem reads_name {place : Place} {before : List (String × Json)} {stack : List Frame}
    {name : String} (rest : List Char)
    (step : place.step (.str name) = some (.colon before name stack)) :
    reads (.between, place) (quote name ++ ':' :: rest) =
      reads (.between, .value (.members before name :: stack)) rest := by
  rw [reads_append, reads_quote, step, Option.map_some, Option.bind_some,
    reads_punct rest (by simp) (rfl : Place.step (.colon before name stack) (.punct ':') = _)]

mutual

/-- No number of a value has a fraction or an exponent. -/
def isPlain : Json → Bool
  | .real _ => false
  | .arr items => arePlain items
  | .obj members => memberPlain members
  | _ => true

/-- `isPlain` for the items of an array. -/
def arePlain : List Json → Bool
  | [] => true
  | item :: rest => item.isPlain && arePlain rest

/-- `isPlain` for the values of members. -/
def memberPlain : List (String × Json) → Bool
  | [] => true
  | (_, value) :: rest => value.isPlain && memberPlain rest

end

theorem reads_null (place : Place) : reads (.between, place) ['n', 'u', 'l', 'l'] =
    (place.step (.scalar .null)).map fun next => (.between, next) := by
  have last : (Lexing.word .null 3).step 'l' = some ([.scalar .null], .between) := rfl
  rw [reads_cons, read_quiet place (rfl : Lexing.between.step 'n' = some ([], .word .null 1)),
    Option.bind_some, reads_cons,
    read_quiet place (rfl : (Lexing.word .null 1).step 'u' = some ([], .word .null 2)),
    Option.bind_some, reads_cons,
    read_quiet place (rfl : (Lexing.word .null 2).step 'l' = some ([], .word .null 3)),
    Option.bind_some, reads_cons, read_token place last]
  cases place.step (.scalar .null) <;> rfl

theorem reads_true (place : Place) : reads (.between, place) ['t', 'r', 'u', 'e'] =
    (place.step (.scalar (.bool true))).map fun next => (.between, next) := by
  have last : (Lexing.word .true 3).step 'e' = some ([.scalar (.bool true)], .between) := rfl
  rw [reads_cons, read_quiet place (rfl : Lexing.between.step 't' = some ([], .word .true 1)),
    Option.bind_some, reads_cons,
    read_quiet place (rfl : (Lexing.word .true 1).step 'r' = some ([], .word .true 2)),
    Option.bind_some, reads_cons,
    read_quiet place (rfl : (Lexing.word .true 2).step 'u' = some ([], .word .true 3)),
    Option.bind_some, reads_cons, read_token place last]
  cases place.step (.scalar (.bool true)) <;> rfl

theorem reads_false (place : Place) : reads (.between, place) ['f', 'a', 'l', 's', 'e'] =
    (place.step (.scalar (.bool false))).map fun next => (.between, next) := by
  have last : (Lexing.word .false 4).step 'e' = some ([.scalar (.bool false)], .between) := rfl
  rw [reads_cons, read_quiet place (rfl : Lexing.between.step 'f' = some ([], .word .false 1)),
    Option.bind_some, reads_cons,
    read_quiet place (rfl : (Lexing.word .false 1).step 'a' = some ([], .word .false 2)),
    Option.bind_some, reads_cons,
    read_quiet place (rfl : (Lexing.word .false 2).step 'l' = some ([], .word .false 3)),
    Option.bind_some, reads_cons,
    read_quiet place (rfl : (Lexing.word .false 3).step 's' = some ([], .word .false 4)),
    Option.bind_some, reads_cons, read_token place last]
  cases place.step (.scalar (.bool false)) <;> rfl

mutual

/-- Reading the text of a value completes the value. -/
theorem reads_dumps {value : Json} (plain : value.isPlain) {place : Place}
    {stack : List Frame} (begins : place.Begins stack) :
    ∃ reader, reads (.between, place) value.dumps = some reader ∧
      Settles reader (.complete value stack) := by
  cases value with
  | null => exact ⟨_, by rw [dumps, reads_null, begins.scalar]; rfl, Or.inl rfl⟩
  | bool b =>
    cases b with
    | true => exact ⟨_, by rw [dumps, reads_true, begins.scalar]; rfl, Or.inl rfl⟩
    | false => exact ⟨_, by rw [dumps, reads_false, begins.scalar]; rfl, Or.inl rfl⟩
  | int n =>
    obtain ⟨phase, text, same, complete, _⟩ := reads_digits place n
    exact ⟨_, by rw [dumps, same], Or.inr ⟨phase, text, _, place, rfl, complete,
      begins.scalar _⟩⟩
  | real text => simp [isPlain] at plain
  | str text => exact ⟨_, by rw [dumps, reads_quote, begins.str]; rfl, Or.inl rfl⟩
  | arr items =>
    refine ⟨(.between, .complete (.arr items) stack), ?_, Or.inl rfl⟩
    rw [dumps, reads_punct _ (by simp) begins.array]
    cases items with
    | nil => rw [dumpsItems, List.nil_append, reads_punct [] (by simp) rfl]; rfl
    | cons item rest =>
      simp only [isPlain, arePlain, Bool.and_eq_true] at plain
      obtain ⟨first, here, settles⟩ := reads_dumps plain.1 (Place.begins_firstItem stack)
      obtain ⟨last, there, whole⟩ := reads_moreItems plain.2 settles
      rw [dumpsItems, reads_append, reads_append, here, Option.bind_some, there,
        Option.bind_some, reads_cons, whole.read (by simp)]
      rfl
  | obj members =>
    refine ⟨(.between, .complete (.obj members) stack), ?_, Or.inl rfl⟩
    rw [dumps, reads_punct _ (by simp) begins.object]
    cases members with
    | nil => rw [dumpsMembers, List.nil_append, reads_punct [] (by simp) rfl]; rfl
    | cons member rest =>
      obtain ⟨name, value⟩ := member
      simp only [isPlain, memberPlain, Bool.and_eq_true] at plain
      obtain ⟨first, here, settles⟩ := reads_dumps plain.1
        (Place.begins_value (.members [] name :: stack))
      obtain ⟨last, there, whole⟩ := reads_moreMembers plain.2 settles
      rw [dumpsMembers, List.append_assoc, List.cons_append, reads_name _ rfl, List.append_assoc,
        reads_append, here, Option.bind_some, reads_append, there, Option.bind_some, reads_cons,
        whole.read (by simp)]
      rfl

theorem reads_moreItems {items : List Json} (plain : arePlain items)
    {reader : Reader} {before : List Json} {stack : List Frame}
    (settles : Settles reader (.nextItem before stack)) :
    ∃ last, reads reader (dumpsMoreItems items) = some last ∧
      Settles last (.nextItem (before ++ items) stack) := by
  cases items with
  | nil => exact ⟨reader, rfl, by simpa using settles⟩
  | cons item rest =>
    simp only [arePlain, Bool.and_eq_true] at plain
    obtain ⟨first, here, after⟩ := reads_dumps plain.1
      (Place.begins_value (.items before :: stack))
    obtain ⟨last, there, whole⟩ := reads_moreItems plain.2 after
    refine ⟨last, ?_, by simpa using whole⟩
    rw [dumpsMoreItems, reads_cons, settles.read (by simp)]
    simp only [Place.step, if_true, Option.map_some, Option.bind_some]
    rw [reads_append, here, Option.bind_some, there]

theorem reads_moreMembers {members : List (String × Json)} (plain : memberPlain members)
    {reader : Reader} {before : List (String × Json)} {stack : List Frame}
    (settles : Settles reader (.nextName before stack)) :
    ∃ last, reads reader (dumpsMoreMembers members) = some last ∧
      Settles last (.nextName (before ++ members) stack) := by
  cases members with
  | nil => exact ⟨reader, rfl, by simpa using settles⟩
  | cons member rest =>
    obtain ⟨name, value⟩ := member
    simp only [memberPlain, Bool.and_eq_true] at plain
    obtain ⟨first, here, after⟩ := reads_dumps plain.1
      (Place.begins_value (.members before name :: stack))
    obtain ⟨last, there, whole⟩ := reads_moreMembers plain.2 after
    refine ⟨last, ?_, by simpa using whole⟩
    rw [dumpsMoreMembers, reads_cons, settles.read (by simp)]
    simp only [Place.step, if_true, Option.map_some, Option.bind_some]
    rw [reads_name _ rfl, reads_append, here, Option.bind_some, there]

end

/-- Compact texts are read back. -/
theorem loads_dumps {value : Json} (plain : value.isPlain) : loads value.dumps = some value := by
  obtain ⟨reader, same, settles⟩ := reads_dumps plain (Place.begins_value [])
  rw [loads, same]
  exact settles.document

theorem arePlain_iff (items : List Json) : arePlain items ↔ ∀ item ∈ items, item.isPlain := by
  induction items with
  | nil => simp [arePlain]
  | cons item rest ih => simp [arePlain, ih]

theorem memberPlain_iff (members : List (String × Json)) :
    memberPlain members ↔ ∀ member ∈ members, member.2.isPlain := by
  induction members with
  | nil => simp [memberPlain]
  | cons member rest ih => simp [memberPlain, ih]

mutual

theorem isPlain_sortKeys {value : Json} (plain : value.isPlain) : value.sortKeys.isPlain := by
  cases value with
  | arr items => exact arePlain_sortItems plain
  | obj members =>
    have sorted := (memberPlain_iff _).mp (memberPlain_sortMembers plain)
    refine (memberPlain_iff _).mpr fun member here => sorted member ?_
    exact (List.perm_insertionSort _ _).mem_iff.mp here
  | null => rfl
  | bool b => rfl
  | int n => rfl
  | real text => exact plain
  | str text => rfl

theorem arePlain_sortItems {items : List Json} (plain : arePlain items) :
    arePlain (sortItems items) := by
  cases items with
  | nil => rfl
  | cons item rest =>
    simp only [arePlain, Bool.and_eq_true] at plain
    simp only [sortItems, arePlain, Bool.and_eq_true]
    exact ⟨isPlain_sortKeys plain.1, arePlain_sortItems plain.2⟩

theorem memberPlain_sortMembers {members : List (String × Json)} (plain : memberPlain members) :
    memberPlain (sortMembers members) := by
  cases members with
  | nil => rfl
  | cons member rest =>
    simp only [memberPlain, Bool.and_eq_true] at plain
    simp only [sortMembers, memberPlain, Bool.and_eq_true]
    exact ⟨isPlain_sortKeys plain.1, memberPlain_sortMembers plain.2⟩

end

/-- What is encoded is read back with its members in order. -/
theorem loads_encode {value : Json} (plain : value.isPlain) :
    loads value.encode = some value.sortKeys :=
  loads_dumps (isPlain_sortKeys plain)

/-! ### Compact texts have no control characters -/

theorem printable_of_all {letters : List Char} (all : letters.all fun c => 0x20 ≤ c.toNat)
    {c : Char} (member : c ∈ letters) : 0x20 ≤ c.toNat :=
  List.all_iff_forall_prop.mp all c member

theorem escape_printable {c d : Char} (member : d ∈ escape c) : 0x20 ≤ d.toNat := by
  have digit (n : ℕ) : 0x20 ≤ (hexDigit n).toNat := by
    by_cases small : n < 16
    · interval_cases n <;> decide
    · have none : hexDigit n = '0' := by
        have short : "0123456789abcdef".toList.length ≤ n := not_lt.mp small
        rw [hexDigit, List.getD_eq_getElem?_getD, List.getElem?_eq_none short]
        rfl
      rw [none]
      decide
  simp only [escape] at member
  split at member
  · exact printable_of_all (by decide) member
  split at member
  · exact printable_of_all (by decide) member
  split at member
  · exact printable_of_all (by decide) member
  split at member
  · exact printable_of_all (by decide) member
  split at member
  · exact printable_of_all (by decide) member
  split at member
  · exact printable_of_all (by decide) member
  split at member
  · exact printable_of_all (by decide) member
  split at member
  · simp only [List.mem_cons, List.not_mem_nil, or_false] at member
    rcases member with rfl | rfl | rfl | rfl | rfl | rfl
    · decide
    · decide
    · decide
    · decide
    · exact digit _
    · exact digit _
  · rename_i printable
    rw [List.mem_singleton.mp member]
    omega

theorem quote_printable {text : String} {c : Char} (member : c ∈ quote text) :
    0x20 ≤ c.toNat := by
  simp only [quote, List.mem_cons, List.mem_append, List.mem_flatMap, List.not_mem_nil,
    or_false] at member
  rcases member with rfl | ⟨d, _, here⟩ | rfl
  · decide
  · exact escape_printable here
  · decide

theorem digits_printable {n : ℤ} {c : Char} (member : c ∈ digits n) : 0x20 ≤ c.toNat := by
  have digit {m : ℕ} (here : c ∈ Nat.toDigits 10 m) : 0x20 ≤ c.toNat := by
    have numeral := Nat.isDigit_of_mem_toDigits (by omega) (by omega) here
    simp only [Char.isDigit, Bool.and_eq_true, decide_eq_true_eq] at numeral
    have large : 48 ≤ c.val.toNat := UInt32.le_iff_toNat_le.mp numeral.1
    have same : c.toNat = c.val.toNat := rfl
    omega
  cases n with
  | ofNat n => exact digit member
  | negSucc n =>
    simp only [digits, List.mem_cons] at member
    rcases member with rfl | here
    · decide
    · exact digit here

mutual

/-- Compact texts have no control characters. -/
theorem dumps_printable {value : Json} (plain : value.isPlain) {c : Char}
    (member : c ∈ value.dumps) : 0x20 ≤ c.toNat := by
  cases value with
  | null => exact printable_of_all (by decide) member
  | bool b => cases b <;> exact printable_of_all (by decide) member
  | int n => exact digits_printable member
  | real text => simp [isPlain] at plain
  | str text => exact quote_printable member
  | arr items =>
    simp only [dumps, List.mem_cons, List.mem_append, List.not_mem_nil, or_false] at member
    rcases member with rfl | here | rfl
    · decide
    · cases items with
      | nil => simp [dumpsItems] at here
      | cons item rest =>
        simp only [isPlain, arePlain, Bool.and_eq_true] at plain
        rcases List.mem_append.mp here with first | more
        · exact dumps_printable plain.1 first
        · exact dumpsMoreItems_printable plain.2 more
    · decide
  | obj members =>
    simp only [dumps, List.mem_cons, List.mem_append, List.not_mem_nil, or_false] at member
    rcases member with rfl | here | rfl
    · decide
    · cases members with
      | nil => simp [dumpsMembers] at here
      | cons member rest =>
        obtain ⟨name, value⟩ := member
        simp only [isPlain, memberPlain, Bool.and_eq_true] at plain
        simp only [dumpsMembers, List.mem_append, List.mem_cons] at here
        rcases here with first | rfl | here | more
        · exact quote_printable first
        · decide
        · exact dumps_printable plain.1 here
        · exact dumpsMoreMembers_printable plain.2 more
    · decide

theorem dumpsMoreItems_printable {items : List Json} (plain : arePlain items) {c : Char}
    (member : c ∈ dumpsMoreItems items) : 0x20 ≤ c.toNat := by
  cases items with
  | nil => simp [dumpsMoreItems] at member
  | cons item rest =>
    simp only [arePlain, Bool.and_eq_true] at plain
    simp only [dumpsMoreItems, List.mem_cons, List.mem_append] at member
    rcases member with rfl | here | more
    · decide
    · exact dumps_printable plain.1 here
    · exact dumpsMoreItems_printable plain.2 more

theorem dumpsMoreMembers_printable {members : List (String × Json)} (plain : memberPlain members)
    {c : Char} (member : c ∈ dumpsMoreMembers members) : 0x20 ≤ c.toNat := by
  cases members with
  | nil => simp [dumpsMoreMembers] at member
  | cons first rest =>
    obtain ⟨name, value⟩ := first
    simp only [memberPlain, Bool.and_eq_true] at plain
    simp only [dumpsMoreMembers, List.mem_cons, List.mem_append] at member
    rcases member with rfl | first | rfl | here | more
    · decide
    · exact quote_printable first
    · decide
    · exact dumps_printable plain.1 here
    · exact dumpsMoreMembers_printable plain.2 more

end

theorem encode_printable {value : Json} (plain : value.isPlain) {c : Char}
    (member : c ∈ value.encode) : 0x20 ≤ c.toNat :=
  dumps_printable (isPlain_sortKeys plain) member

/-! ### Texts that are cut in a string -/

/-- The characters that occur in JSON inside strings only, if at all. -/
def Foreign (c : Char) : Prop := (c.toNat < 0x20 ∨ 0x80 ≤ c.toNat) ∧ ¬ isSpace c

theorem foreign_of_special {c : Char} (special : 0x80 ≤ c.toNat) : Foreign c := by
  refine ⟨Or.inr special, ?_⟩
  have ne (d : Char) (ascii : d.toNat < 0x80) : c ≠ d := by
    rintro rfl
    omega
  simp only [isSpace, Bool.or_eq_true, decide_eq_true_eq, not_or]
  exact ⟨⟨⟨ne _ (by decide), ne _ (by decide)⟩, ne _ (by decide)⟩, ne _ (by decide)⟩

theorem Foreign.ne {c : Char} (foreign : Foreign c) (d : Char)
    (ascii : 0x20 ≤ d.toNat ∧ d.toNat < 0x80) : c ≠ d := by
  rintro rfl
  have := foreign.1
  omega

theorem Foreign.not_isDigit {c : Char} (foreign : Foreign c) : ¬ c.isDigit := by
  intro digit
  simp only [Char.isDigit, Bool.and_eq_true, decide_eq_true_eq] at digit
  have large : 48 ≤ c.val.toNat := UInt32.le_iff_toNat_le.mp digit.1
  have small : c.val.toNat ≤ 57 := UInt32.le_iff_toNat_le.mp digit.2
  have same : c.toNat = c.val.toNat := rfl
  have := foreign.1
  omega

theorem Foreign.start {c : Char} (foreign : Foreign c) : Lexing.start c = none := by
  have ne := foreign.ne
  simp only [Lexing.start, if_neg foreign.2, if_neg foreign.not_isDigit]
  simp [ne '{' (by decide), ne '}' (by decide), ne '[' (by decide), ne ']' (by decide),
    ne ':' (by decide), ne ',' (by decide), ne '"' (by decide), ne '-' (by decide),
    ne '0' (by decide), ne 'n' (by decide), ne 't' (by decide), ne 'f' (by decide),
    ne 'N' (by decide), ne 'I' (by decide)]

theorem Foreign.next {c : Char} (foreign : Foreign c) (phase : NumberPhase) :
    phase.next c = none := by
  have ne := foreign.ne
  have digit := foreign.not_isDigit
  cases phase <;> simp [NumberPhase.next, digit, ne '0' (by decide), ne '.' (by decide),
    ne 'e' (by decide), ne 'E' (by decide), ne '+' (by decide), ne '-' (by decide)]

theorem Word.letter_ascii (word : Word) {c : Char} (member : c ∈ word.letters) :
    0x20 ≤ c.toNat ∧ c.toNat < 0x80 := by
  have all : word.letters.all fun c => 0x20 ≤ c.toNat && c.toNat < 0x80 := by
    cases word <;> decide
  simpa using List.all_eq_true.mp all c member

/-- Foreign characters are in strings. -/
theorem Foreign.step {c : Char} (foreign : Foreign c) {lexing : Lexing}
    {next : List Token × Lexing} (step : lexing.step c = some next) :
    (∃ codes, lexing = .string .plain codes) ∧ 0x80 ≤ c.toNat := by
  have ne := foreign.ne
  cases lexing with
  | between => simp [Lexing.step, foreign.start] at step
  | string mode codes =>
    cases mode with
    | plain =>
      refine ⟨⟨codes, rfl⟩, ?_⟩
      by_contra small
      have control : c.toNat < 0x20 := foreign.1.resolve_right small
      simp [Lexing.step, ne '"' (by decide), ne '\\' (by decide), control] at step
    | escaped =>
      simp [Lexing.step, unescape, ne 'u' (by decide), ne '"' (by decide), ne '\\' (by decide),
        ne '/' (by decide), ne 'b' (by decide), ne 'f' (by decide), ne 'n' (by decide),
        ne 'r' (by decide), ne 't' (by decide)] at step
    | hex digits value =>
      have bound (d e : Char) (ascii : 0x20 ≤ d.toNat ∧ e.toNat < 0x80) : ¬ (d ≤ c ∧ c ≤ e) := by
        rintro ⟨lower, upper⟩
        have : d.toNat ≤ c.toNat := lower
        have : c.toNat ≤ e.toNat := upper
        have := foreign.1
        omega
      simp only [Lexing.step, hexValue, if_neg foreign.not_isDigit,
        if_neg (bound 'a' 'f' (by decide)), if_neg (bound 'A' 'F' (by decide))] at step
      cases step
  | word word seen =>
    have other : word.letters[seen]? ≠ some c := by
      intro here
      have := word.letter_ascii (List.mem_of_getElem? here)
      have := foreign.1
      omega
    simp [Lexing.step, other] at step
  | number phase text =>
    simp only [Lexing.step, foreign.next, ne 'I' (by decide), and_false,
      if_false, foreign.start, Option.map_none] at step
    cases value : phase.value text <;> simp [value] at step

/-- A string does not go over the end of a line. -/
theorem read_newline_string (codes : List ℕ) (place : Place) :
    read (.string .plain codes, place) '\n' = none := rfl

/-- What is read of an accepted text up to a foreign character ends in a string. -/
theorem reads_foreign {front rest : List Char} {c : Char} {value : Json}
    (accepted : loads (front ++ c :: rest) = some value) (foreign : Foreign c) :
    (∃ codes place, reads (.between, .value []) front = some (.string .plain codes, place)) ∧
      0x80 ≤ c.toNat := by
  rw [loads, reads_append] at accepted
  cases before : reads (.between, .value []) front with
  | none => simp [before] at accepted
  | some reader =>
    obtain ⟨lexing, place⟩ := reader
    rw [before, Option.bind_some, reads_cons] at accepted
    cases step : lexing.step c with
    | none => simp [read, step] at accepted
    | some next =>
      obtain ⟨⟨codes, rfl⟩, special⟩ := foreign.step step
      exact ⟨⟨codes, place, rfl⟩, special⟩

/-- A text that is cut in a string is no JSON, whatever follows on other lines. -/
theorem loads_cut {front rest : List Char} {codes : List ℕ} {place : Place}
    (string : reads (.between, .value []) front = some (.string .plain codes, place))
    (cut : rest = [] ∨ ∃ more, rest = '\n' :: more) : loads (front ++ rest) = none := by
  rw [loads, reads_append, string, Option.bind_some]
  rcases cut with rfl | ⟨more, rfl⟩
  · rfl
  · rw [reads_cons, read_newline_string]
    rfl

end Json

end IntramindRuntime.Library
