import Mathlib.Data.List.TakeWhile
import Mathlib.Data.List.Basic

/-!
# Lines

Splitting a stream of symbols into lines, symbol by symbol. What ends a line is a parameter: a
newline, a carriage return (with a newline behind it they are one end), or another symbol. The
symbols are of any type, so that they can carry where they come from.

## Main definitions

* `LineReader`, `LineReader.feed` — the lines that symbols complete
* `splitLines` — the lines of a whole text

## Main results

* `LineReader.feed_append` — reading in parts
* `LineReader.feed_plain` — symbols inside a line
-/

namespace IntramindRuntime.Library

/-- What a symbol is for lines. -/
inductive LineMark
  | inside | newline | return | other
  deriving DecidableEq

/-- A line that is being read. -/
@[ext] structure LineReader (σ : Type) where
  line : List σ := []
  /-- The last line ended with a carriage return just now. -/
  afterReturn : Bool := false

namespace LineReader

variable {σ : Type} (mark : σ → LineMark)

/-- The next symbol, with the line that it completes. -/
def step (reader : LineReader σ) (s : σ) : List (List σ) × LineReader σ :=
  match mark s with
  | .inside => ([], ⟨reader.line ++ [s], false⟩)
  | .newline => if reader.afterReturn then ([], ⟨[], false⟩) else ([reader.line], ⟨[], false⟩)
  | .return => ([reader.line], ⟨[], true⟩)
  | .other => ([reader.line], ⟨[], false⟩)

/-- Symbols, with the lines that they complete. -/
def feed (reader : LineReader σ) : List σ → List (List σ) × LineReader σ
  | [] => ([], reader)
  | s :: rest =>
    let first := reader.step mark s
    let more := first.2.feed rest
    (first.1 ++ more.1, more.2)

/-- The line that is not complete at the end of the text. -/
def remaining (reader : LineReader σ) : List (List σ) :=
  if reader.line.isEmpty then [] else [reader.line]

@[simp] theorem feed_nil (reader : LineReader σ) : reader.feed mark [] = ([], reader) := rfl

theorem feed_append (reader : LineReader σ) (first second : List σ) :
    reader.feed mark (first ++ second) =
      ((reader.feed mark first).1 ++ ((reader.feed mark first).2.feed mark second).1,
        ((reader.feed mark first).2.feed mark second).2) := by
  induction first generalizing reader with
  | nil => rfl
  | cons s rest ih => simp only [List.cons_append, feed, ih, List.append_assoc]

variable {mark}

/-- Symbols inside a line complete no line. -/
theorem feed_plain {text : List σ} (plain : ∀ s ∈ text, mark s = .inside) (line : List σ) :
    (⟨line, false⟩ : LineReader σ).feed mark text = ([], ⟨line ++ text, false⟩) := by
  induction text generalizing line with
  | nil => simp
  | cons s rest ih =>
    have inside : mark s = .inside := plain s (by simp)
    simp only [feed, step, inside, ih fun t member => plain t (by simp [member])]
    simp

/-- A symbol that ends a line, other than a carriage return, completes it. -/
theorem step_break {s : σ} (breaks : mark s = .newline ∨ mark s = .other) (line : List σ) :
    (⟨line, false⟩ : LineReader σ).step mark s = ([line], ⟨[], false⟩) := by
  rcases breaks with kind | kind <;> simp [step, kind]

/-- A line with the symbol that ends it. -/
theorem feed_line {text : List σ} (plain : ∀ s ∈ text, mark s = .inside) {s : σ}
    (breaks : mark s = .newline ∨ mark s = .other) (line rest : List σ) :
    (⟨line, false⟩ : LineReader σ).feed mark (text ++ s :: rest) =
      ((line ++ text) :: ((⟨[], false⟩ : LineReader σ).feed mark rest).1,
        ((⟨[], false⟩ : LineReader σ).feed mark rest).2) := by
  rw [feed_append, feed_plain plain]
  simp [feed, step_break breaks]

/-- Symbols inside a line, whatever is before them. -/
theorem feed_inside {s : σ} {text : List σ} (plain : ∀ t ∈ s :: text, mark t = .inside)
    (reader : LineReader σ) :
    reader.feed mark (s :: text) = ([], ⟨reader.line ++ s :: text, false⟩) := by
  have inside : mark s = .inside := plain s (by simp)
  have others : ∀ t ∈ text, mark t = .inside := fun t member => plain t (by simp [member])
  have rest := feed_plain others (reader.line ++ [s])
  simp only [feed, step, inside, rest, List.nil_append, List.append_assoc, List.singleton_append]

/-- The symbols of the lines have a property that all symbols inside of lines have. -/
theorem forall_mem_feed {p : σ → Prop} {reader : LineReader σ} {text : List σ}
    (before : ∀ s ∈ reader.line, p s) (holds : ∀ s ∈ text, mark s = .inside → p s) :
    (∀ line ∈ (reader.feed mark text).1, ∀ s ∈ line, p s) ∧
      ∀ s ∈ (reader.feed mark text).2.line, p s := by
  induction text generalizing reader with
  | nil => exact ⟨by simp, before⟩
  | cons s rest ih =>
    have first : (∀ line ∈ (reader.step mark s).1, ∀ t ∈ line, p t) ∧
        ∀ t ∈ (reader.step mark s).2.line, p t := by
      cases kind : mark s with
      | inside =>
        refine ⟨by simp [step, kind], fun t member => ?_⟩
        simp only [step, kind, List.mem_append, List.mem_singleton] at member
        rcases member with old | rfl
        · exact before t old
        · exact holds t (by simp) kind
      | newline =>
        cases returned : reader.afterReturn with
        | true => simp [step, kind, returned]
        | false => simpa [step, kind, returned] using before
      | «return» => simpa [step, kind] using before
      | other => simpa [step, kind] using before
    have more := ih first.2 fun t member => holds t (by simp [member])
    refine ⟨fun line member => ?_, more.2⟩
    rcases List.mem_append.mp member with here | later
    · exact first.1 line here
    · exact more.1 line later

/-- Two newlines complete an empty line, whatever is before them. -/
theorem empty_mem_feed (reader : LineReader σ) (text : List σ) {s : σ}
    (newline : mark s = .newline) : [] ∈ (reader.feed mark (text ++ [s, s])).1 := by
  rw [feed_append]
  generalize (reader.feed mark text).2 = before
  cases returned : before.afterReturn <;> simp [feed, step, newline, returned]

/-- The symbols of the line, replaced by others. -/
def map {τ : Type} (f : σ → τ) (reader : LineReader σ) : LineReader τ :=
  ⟨reader.line.map f, reader.afterReturn⟩

theorem step_map {τ : Type} (f : σ → τ) (mark : τ → LineMark) (reader : LineReader σ) (s : σ) :
    (reader.map f).step mark (f s) =
      ((reader.step (mark ∘ f) s).1.map (List.map f), (reader.step (mark ∘ f) s).2.map f) := by
  cases kind : mark (f s) with
  | inside => simp [step, map, kind]
  | newline => cases returned : reader.afterReturn <;> simp [step, map, kind, returned]
  | «return» => simp [step, map, kind]
  | other => simp [step, map, kind]

theorem feed_map {τ : Type} (f : σ → τ) (mark : τ → LineMark) (reader : LineReader σ)
    (text : List σ) :
    (reader.map f).feed mark (text.map f) =
      ((reader.feed (mark ∘ f) text).1.map (List.map f),
        (reader.feed (mark ∘ f) text).2.map f) := by
  induction text generalizing reader with
  | nil => rfl
  | cons s rest ih => simp only [List.map_cons, feed, step_map, ih, List.map_append]

end LineReader

/-- The lines of a text, without what ends them. -/
def splitLines {σ : Type} (mark : σ → LineMark) (text : List σ) : List (List σ) :=
  let read := ({} : LineReader σ).feed mark text
  read.1 ++ read.2.remaining

/-- Lines are cut at the same places when symbols are replaced by others. -/
theorem splitLines_map {σ τ : Type} (f : σ → τ) (mark : τ → LineMark) (text : List σ) :
    splitLines mark (text.map f) = (splitLines (mark ∘ f) text).map (List.map f) := by
  have fed := LineReader.feed_map f mark {} text
  have fresh : ({} : LineReader σ).map f = {} := rfl
  rw [fresh] at fed
  rw [splitLines, splitLines, fed, List.map_append]
  congr 1
  simp only [LineReader.remaining, LineReader.map, List.isEmpty_map]
  split <;> rfl

/-- The symbols of the lines have a property that all symbols inside of lines have. -/
theorem forall_mem_splitLines {σ : Type} {mark : σ → LineMark} {p : σ → Prop} {text : List σ}
    (holds : ∀ s ∈ text, mark s = .inside → p s) :
    ∀ line ∈ splitLines mark text, ∀ s ∈ line, p s := by
  have fed := @LineReader.forall_mem_feed σ mark p {} text (by simp) holds
  intro line member
  rcases List.mem_append.mp member with here | last
  · exact fed.1 line here
  · rw [LineReader.remaining] at last
    split at last
    · cases last
    · rw [List.mem_singleton.mp last]
      exact fed.2

/-! ### Space around a text -/

/-- The characters that Python's `str.isspace` accepts. -/
def isSpace (c : Char) : Bool :=
  ('\t' ≤ c && c ≤ '\r') || ('\x1c' ≤ c && c ≤ ' ') || c = '\x85' || c = '\xa0' ||
    c = '\u1680' || ('\u2000' ≤ c && c ≤ '\u200a') || c = '\u2028' || c = '\u2029' ||
    c = '\u202f' || c = '\u205f' || c = '\u3000'

section Trim

variable {σ : Type} (space : σ → Bool)

/-- The text without leading space. -/
def trimLeft (text : List σ) : List σ := text.dropWhile space

/-- The text without space around it. -/
def trim (text : List σ) : List σ := (trimLeft space (trimLeft space text).reverse).reverse

variable {space}

theorem trimLeft_sublist (text : List σ) : (trimLeft space text).Sublist text :=
  List.dropWhile_sublist _

theorem trim_sublist (text : List σ) : (trim space text).Sublist text := by
  have inner : ((trimLeft space (trimLeft space text).reverse).reverse).Sublist
      (trimLeft space text) := by
    rw [← List.reverse_sublist, List.reverse_reverse]
    exact trimLeft_sublist _
  exact inner.trans (trimLeft_sublist _)

theorem trimLeft_map {τ : Type} (f : τ → σ) (text : List τ) :
    trimLeft space (text.map f) = (trimLeft (space ∘ f) text).map f :=
  List.dropWhile_map

theorem trim_map {τ : Type} (f : τ → σ) (text : List τ) :
    trim space (text.map f) = (trim (space ∘ f) text).map f := by
  rw [trim, trim, trimLeft_map, ← List.map_reverse, trimLeft_map, ← List.map_reverse]

theorem trimLeft_eq {s : σ} (solid : space s = false) (rest : List σ) :
    trimLeft space (s :: rest) = s :: rest := by
  simp [trimLeft, solid]

theorem trimLeft_blank {pad : List σ} (blank : ∀ s ∈ pad, space s = true) (text : List σ) :
    trimLeft space (pad ++ text) = trimLeft space text :=
  List.dropWhile_append_of_pos blank

theorem exists_of_trimLeft (text : List σ) :
    ∃ pad, (∀ s ∈ pad, space s = true) ∧ text = pad ++ trimLeft space text :=
  ⟨text.takeWhile space, fun _ => List.mem_takeWhile_imp, List.takeWhile_append_dropWhile.symm⟩

/-- What is trimmed off is space. -/
theorem exists_of_trim {text word : List σ} (trimmed : trim space text = word) :
    ∃ before after, (∀ s ∈ before, space s = true) ∧ (∀ s ∈ after, space s = true) ∧
      text = before ++ word ++ after := by
  obtain ⟨before, blank, same⟩ := @exists_of_trimLeft _ space text
  obtain ⟨after, blank', same'⟩ := @exists_of_trimLeft _ space (trimLeft space text).reverse
  refine ⟨before, after.reverse, blank, by simpa using blank', ?_⟩
  rw [← trimmed, trim, List.append_assoc, ← List.reverse_append, ← same', List.reverse_reverse]
  exact same

/-- A text without space, with space around it. -/
theorem trim_padded {before word after : List σ} (blank : ∀ s ∈ before, space s = true)
    (solid : ∀ s ∈ word, space s = false) (blank' : ∀ s ∈ after, space s = true) :
    trim space (before ++ (word ++ after)) = word := by
  have left : trimLeft space (before ++ (word ++ after)) = word ++ after ∨ word = [] := by
    cases word with
    | nil => exact .inr rfl
    | cons s rest =>
      left
      rw [trimLeft_blank blank]
      exact trimLeft_eq (solid s (List.mem_cons_self ..)) _
  have back : trimLeft space (after.reverse ++ word.reverse) = word.reverse := by
    rw [trimLeft_blank (by simpa using blank')]
    cases turned : word.reverse with
    | nil => rfl
    | cons s rest =>
      have member : s ∈ word := by
        rw [← List.mem_reverse, turned]
        exact List.mem_cons_self ..
      exact trimLeft_eq (solid s member) rest
  rw [trim]
  rcases left with whole | rfl
  · rw [whole, List.reverse_append, back, List.reverse_reverse]
  · rw [trimLeft_blank blank, List.nil_append, ← List.append_nil after, trimLeft_blank blank']
    rfl

/-- A text that begins and ends with no space stays, whatever is before it. -/
theorem trim_append {s t : σ} (first : space s = false) (last : space t = false)
    (middle before : List σ) : ∃ kept, kept.Sublist before ∧
      trim space (before ++ s :: (middle ++ [t])) = kept ++ s :: (middle ++ [t]) := by
  have left : ∃ kept, kept.Sublist before ∧
      trimLeft space (before ++ s :: (middle ++ [t])) = kept ++ s :: (middle ++ [t]) := by
    induction before with
    | nil => exact ⟨[], List.Sublist.refl _, trimLeft_eq first _⟩
    | cons c rest ih =>
      by_cases blank : space c
      · obtain ⟨kept, sublist, same⟩ := ih
        refine ⟨kept, sublist.cons c, ?_⟩
        rw [← same]
        simp [trimLeft, blank]
      · refine ⟨c :: rest, List.Sublist.refl _, ?_⟩
        exact trimLeft_eq (by simpa using blank) _
  obtain ⟨kept, sublist, same⟩ := left
  refine ⟨kept, sublist, ?_⟩
  have turned : (kept ++ s :: (middle ++ [t])).reverse = t :: (kept ++ s :: middle).reverse := by
    simp
  rw [trim, same, turned, trimLeft_eq last, ← turned, List.reverse_reverse]

/-- Behind an unfinished text, a field and its value are longer than the value, even without
what a field takes. -/
theorem length_trim_drop {field value : List σ} {blank : σ}
    (field_solid : ∀ s ∈ field, space s = false) (value_solid : ∀ s ∈ value, space s = false)
    (filled : value ≠ []) {sofar : List σ} (some : sofar ≠ []) (size : 0 < field.length) :
    value.length <
      (trim space ((sofar ++ (field ++ blank :: value)).drop field.length)).length := by
  have short : field.length - sofar.length < field.length := by
    have := List.length_pos_of_ne_nil some
    omega
  obtain ⟨s, kept, cut⟩ : ∃ s kept, field.drop (field.length - sofar.length) = s :: kept :=
    List.exists_cons_of_ne_nil (by simpa [List.drop_eq_nil_iff] using short)
  have first : space s = false := field_solid s (List.mem_of_mem_drop (cut ▸ List.mem_cons_self))
  obtain ⟨middle, t, split⟩ : ∃ middle t, value = middle ++ [t] :=
    ⟨value.dropLast, value.getLast filled, (List.dropLast_append_getLast filled).symm⟩
  have last : space t = false := value_solid t (by simp [split])
  have line : (sofar ++ (field ++ blank :: value)).drop field.length =
      sofar.drop field.length ++ s :: ((kept ++ blank :: middle) ++ [t]) := by
    rw [List.drop_append, List.drop_append_of_le_length (by omega), cut, split]
    simp
  obtain ⟨front, _, trimmed⟩ := trim_append first last (kept ++ blank :: middle)
    (sofar.drop field.length)
  rw [line, trimmed, split]
  simp only [List.length_append, List.length_cons, List.length_nil]
  omega

end Trim

end IntramindRuntime.Library
