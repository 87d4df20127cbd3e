import Mathlib.Data.List.Infix

/-!
# Frames of a stream

A stream is cut into frames at a separator. What is behind the last separator waits for more. If
the stream comes in parts, the rest of the parts so far is put before the next one; this finds the
same frames as one search through the whole stream, also where a separator comes in two parts.

## Main definitions

* `splitFirst` — a text before and behind the first separator
* `frames` — all frames of a text, and the rest

## Main results

* `frames_append` — frames are found part by part
* `rest_length` — how long the rest of a part can be
-/

namespace IntramindRuntime.Library

section Framing

variable {σ : Type} [DecidableEq σ]

/-- The text before and behind the first separator, if there is one. -/
def splitFirst (separator : List σ) : List σ → Option (List σ × List σ)
  | [] => none
  | s :: rest =>
    if separator.isPrefixOf (s :: rest) then some ([], (s :: rest).drop separator.length)
    else (splitFirst separator rest).map fun (front, back) => (s :: front, back)

variable {separator : List σ}

theorem splitFirst_eq {text front back : List σ}
    (found : splitFirst separator text = some (front, back)) :
    text = front ++ separator ++ back := by
  induction text generalizing front with
  | nil => exact nomatch found
  | cons s rest ih =>
    rw [splitFirst] at found
    split_ifs at found with here
    · cases found
      obtain ⟨behind, whole⟩ := List.isPrefixOf_iff_prefix.mp here
      rw [← whole, List.drop_left, List.nil_append]
    · obtain ⟨⟨front', back'⟩, later, same⟩ := Option.map_eq_some_iff.mp found
      cases same
      rw [ih later]
      rfl

/-- The first separator stays the first one if the text goes on. -/
theorem splitFirst_append {text front back : List σ}
    (found : splitFirst separator text = some (front, back)) (more : List σ) :
    splitFirst separator (text ++ more) = some (front, back ++ more) := by
  induction text generalizing front with
  | nil => exact nomatch found
  | cons s rest ih =>
    have whole := splitFirst_eq found
    rw [splitFirst] at found
    rw [List.cons_append, splitFirst]
    split_ifs at found with here
    · cases found
      obtain ⟨behind, same⟩ := List.isPrefixOf_iff_prefix.mp here
      rw [if_pos, ← List.cons_append, ← same, List.append_assoc, List.drop_left, List.drop_left]
      rw [List.isPrefixOf_iff_prefix, ← List.cons_append, ← same, List.append_assoc]
      exact List.prefix_append ..
    · obtain ⟨⟨front', back'⟩, later, same⟩ := Option.map_eq_some_iff.mp found
      cases same
      rw [if_neg, ih later]
      · rfl
      · -- there was room for the separator before
        intro there
        rw [List.isPrefixOf_iff_prefix, ← List.cons_append] at there
        have room : separator.length ≤ (s :: rest).length := by
          rw [whole]
          simp only [List.length_append]
          omega
        rw [List.isPrefixOf_iff_prefix] at here
        exact here (List.prefix_of_prefix_length_le there (List.prefix_append ..) room)

/-- Without a first separator there is none. -/
theorem splitFirst_ne_none (filled : separator ≠ []) (front back : List σ) :
    splitFirst separator (front ++ separator ++ back) ≠ none := by
  induction front with
  | nil =>
    obtain ⟨s, more, rfl⟩ := List.exists_cons_of_ne_nil filled
    rw [List.nil_append, List.cons_append, splitFirst, if_pos]
    · simp
    · rw [List.isPrefixOf_iff_prefix, ← List.cons_append]
      exact List.prefix_append ..
  | cons s rest ih =>
    rw [List.cons_append, List.cons_append, splitFirst]
    split_ifs
    · simp
    · rwa [ne_eq, Option.map_eq_none_iff]

theorem splitFirst_length (filled : separator ≠ []) {text front back : List σ}
    (found : splitFirst separator text = some (front, back)) : back.length < text.length := by
  have size := List.length_pos_of_ne_nil filled
  rw [splitFirst_eq found]
  simp only [List.length_append]
  omega

end Framing

/-- A separator. -/
abbrev Separator (σ : Type) := {word : List σ // word ≠ []}

section Frames

variable {σ : Type} [DecidableEq σ] (separator : Separator σ)

/-- The frames of a text without their separators, and the rest. -/
def frames (text : List σ) : List (List σ) × List σ :=
  match found : splitFirst separator.1 text with
  | none => ([], text)
  | some (front, back) =>
    have := splitFirst_length separator.2 found
    (front :: (frames back).1, (frames back).2)
termination_by text.length

variable {separator}

theorem frames_of_none {text : List σ} (found : splitFirst separator.1 text = none) :
    frames separator text = ([], text) := by
  rw [frames]
  split
  · rfl
  · rename_i other
    exact nomatch found.symm.trans other

theorem frames_of_some {text front back : List σ}
    (found : splitFirst separator.1 text = some (front, back)) :
    frames separator text = (front :: (frames separator back).1, (frames separator back).2) := by
  rw [frames]
  split
  · rename_i other
    exact nomatch found.symm.trans other
  · rename_i other
    cases found.symm.trans other
    rfl

variable (separator) in
/-- What holds of a text without separator, and of a text if it holds behind the first separator,
holds of every text. -/
theorem frames_induction {motive : List σ → Prop}
    (rest : ∀ text, splitFirst separator.1 text = none → motive text)
    (frame : ∀ text front back, splitFirst separator.1 text = some (front, back) → motive back →
      motive text) (text : List σ) : motive text := by
  induction size : text.length using Nat.strongRecOn generalizing text with
  | ind n ih =>
    cases found : splitFirst separator.1 text with
    | none => exact rest text found
    | some parts =>
      obtain ⟨front, back⟩ := parts
      refine frame text front back found (ih back.length ?_ back rfl)
      rw [← size]
      exact splitFirst_length separator.2 found

variable (separator) in
/-- There is no separator in the rest. -/
theorem splitFirst_rest (text : List σ) :
    splitFirst separator.1 (frames separator text).2 = none := by
  induction text using frames_induction separator with
  | rest text found => rwa [frames_of_none found]
  | frame text front back found ih => rwa [frames_of_some found]

/-- The frames with their separators and the rest are the text. -/
theorem flatten_frames (text : List σ) :
    ((frames separator text).1.map (· ++ separator.1)).flatten ++ (frames separator text).2 =
      text := by
  induction text using frames_induction separator with
  | rest text found => rw [frames_of_none found]; rfl
  | frame text front back found ih =>
    rw [frames_of_some found, List.map_cons, List.flatten_cons, List.append_assoc, ih,
      ← splitFirst_eq found]

variable (separator) in
/-- If a text goes on, its frames stay, and more are found behind its rest. -/
theorem frames_append (text more : List σ) :
    frames separator (text ++ more) =
      ((frames separator text).1 ++ (frames separator ((frames separator text).2 ++ more)).1,
        (frames separator ((frames separator text).2 ++ more)).2) := by
  induction text using frames_induction separator with
  | rest text found => rw [frames_of_none found, List.nil_append]
  | frame text front back found ih =>
    rw [frames_of_some (splitFirst_append found more), frames_of_some found, ih]
    rfl

variable (separator) in
/-- The rest of a part is shorter than a frame with its separator, or not longer than the rest of
the whole. -/
theorem rest_length (text more : List σ) :
    (∃ frame ∈ (frames separator (text ++ more)).1,
      (frames separator text).2.length < frame.length + separator.1.length) ∨
    (frames separator text).2.length ≤ (frames separator (text ++ more)).2.length := by
  have none : splitFirst separator.1 (frames separator text).2 = none :=
    splitFirst_rest separator text
  rw [frames_append]
  generalize (frames separator text).2 = rest at none
  cases found : splitFirst separator.1 (rest ++ more) with
  | none =>
    right
    rw [frames_of_none found, List.length_append]
    omega
  | some parts =>
    obtain ⟨front, back⟩ := parts
    left
    refine ⟨front, by simp [frames_of_some found], ?_⟩
    by_contra long
    -- otherwise the separator would be in the rest already
    have whole := splitFirst_eq found
    have leads : front ++ separator.1 <+: rest ++ more := ⟨back, whole.symm⟩
    have inside : front ++ separator.1 <+: rest := by
      refine List.prefix_of_prefix_length_le leads (List.prefix_append ..) ?_
      rw [List.length_append]
      omega
    obtain ⟨behind, rfl⟩ := inside
    exact splitFirst_ne_none separator.2 front behind none

end Frames

end IntramindRuntime.Library
