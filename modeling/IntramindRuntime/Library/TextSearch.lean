import Mathlib.Data.List.Infix

/-!
# Search in a text

A matcher tells how long a match at the head of a text is, and zero where there is none. A
search takes matches from left to right, none of which overlaps another. The matches can be
listed, or cut out of the text. Both are stated for a list of any symbols, so that a text may
carry its positions along.

## Main definitions

* `findAll`, `cut` — the matches of a text, and what they leave
* `occurrence` — the matcher of a fixed term

## Main results

* `mem_cut_or` — every symbol is left, or it is in a match
* `map_cut` — a search does not look at what the symbols carry
* `covers_of_infix` — the positions of an occurrence in a text
-/

namespace IntramindRuntime.Library

section Search

variable {σ τ : Type} (matcher : List σ → ℕ)

/-- The matches of a text, when some of its symbols still belong to the last one. -/
def findFrom : ℕ → List σ → List (List σ)
  | _, [] => []
  | skip + 1, _ :: rest => findFrom skip rest
  | 0, s :: rest =>
    match matcher (s :: rest) with
    | 0 => findFrom 0 rest
    | n + 1 => (s :: rest).take (n + 1) :: findFrom n rest

/-- The matches of a text. -/
def findAll (text : List σ) : List (List σ) := findFrom matcher 0 text

/-- What the matches leave, when some symbols still belong to the last one. -/
def cutFrom : ℕ → List σ → List σ
  | _, [] => []
  | skip + 1, _ :: rest => cutFrom skip rest
  | 0, s :: rest =>
    match matcher (s :: rest) with
    | 0 => s :: cutFrom 0 rest
    | n + 1 => cutFrom n rest

/-- What the matches leave of a text. -/
def cut (text : List σ) : List σ := cutFrom matcher 0 text

variable {matcher}

theorem mem_cutFrom_or {skip : ℕ} {text : List σ} {s : σ} (member : s ∈ text.drop skip) :
    s ∈ cutFrom matcher skip text ∨ ∃ found ∈ findFrom matcher skip text, s ∈ found := by
  induction text generalizing skip with
  | nil => simp at member
  | cons t rest ih =>
    cases skip with
    | succ skip => exact ih (by simpa using member)
    | zero =>
      rw [List.drop_zero] at member
      rw [cutFrom, findFrom]
      split
      · rcases List.mem_cons.mp member with rfl | further
        · exact .inl (List.mem_cons_self ..)
        · rw [← rest.drop_zero] at further
          exact (ih further).imp_left (List.mem_cons_of_mem _)
      · rename_i n long
        by_cases near : s ∈ (t :: rest).take (n + 1)
        · exact .inr ⟨_, List.mem_cons_self .., near⟩
        · have far : s ∈ rest.drop n := by
            have whole : s ∈ (t :: rest).take (n + 1) ++ (t :: rest).drop (n + 1) := by
              rwa [List.take_append_drop]
            exact (List.mem_append.mp whole).resolve_left near
          refine (ih far).imp_right ?_
          rintro ⟨found, later, inside⟩
          exact ⟨found, List.mem_cons_of_mem _ later, inside⟩

/-- Every symbol of a text is left, or it is in a match. -/
theorem mem_cut_or {text : List σ} {s : σ} (member : s ∈ text) :
    s ∈ cut matcher text ∨ ∃ found ∈ findAll matcher text, s ∈ found :=
  mem_cutFrom_or (by rwa [List.drop_zero])

/-- A match stands in the text, and the matcher says that it does. -/
theorem findFrom_spec {skip : ℕ} {text found : List σ} (member : found ∈ findFrom matcher skip text) :
    ∃ before after, text = before ++ after ∧ 0 < matcher after ∧
      found = after.take (matcher after) := by
  induction text generalizing skip with
  | nil => cases skip <;> simp [findFrom] at member
  | cons s rest ih =>
    have later {k : ℕ} (member : found ∈ findFrom matcher k rest) :
        ∃ before after, s :: rest = before ++ after ∧ 0 < matcher after ∧
          found = after.take (matcher after) := by
      obtain ⟨before, after, rfl, matched, same⟩ := ih member
      exact ⟨s :: before, after, rfl, matched, same⟩
    cases skip with
    | succ skip => exact later member
    | zero =>
      rw [findFrom] at member
      split at member
      · exact later member
      · rename_i n long
        rcases List.mem_cons.mp member with rfl | further
        · exact ⟨[], s :: rest, rfl, by omega, by rw [long]⟩
        · exact later further

variable (matcher : List τ → ℕ) (f : σ → τ)

theorem map_cutFrom (skip : ℕ) (text : List σ) :
    (cutFrom (fun text => matcher (text.map f)) skip text).map f =
      cutFrom matcher skip (text.map f) := by
  induction text generalizing skip with
  | nil => cases skip <;> rfl
  | cons s rest ih =>
    cases skip with
    | succ skip => exact ih skip
    | zero =>
      rw [cutFrom, List.map_cons, cutFrom]
      cases matcher (f s :: rest.map f) with
      | zero => exact congrArg (f s :: ·) (ih 0)
      | succ n => exact ih n

/-- What a search cuts out depends on nothing but what the matcher sees. -/
theorem map_cut (text : List σ) :
    (cut (fun text => matcher (text.map f)) text).map f = cut matcher (text.map f) :=
  map_cutFrom matcher f 0 text

end Search

/-! ### Terms -/

section Terms

variable {α : Type} [DecidableEq α]

/-- The matcher of a term. -/
def occurrence (term text : List α) : ℕ := if term.isPrefixOf text then term.length else 0

theorem occurrence_pos {term text : List α} (found : 0 < occurrence term text) :
    text.take (occurrence term text) = term := by
  unfold occurrence at *
  split_ifs at * with starts
  · exact (List.prefix_iff_eq_take.mp (List.isPrefixOf_iff_prefix.mp starts)).symm
  · exact absurd found (lt_irrefl 0)

/-- The position is in an occurrence of the term in the text. -/
def Covers (term text : List α) (i : ℕ) : Prop :=
  ∃ before after, text = before ++ term ++ after ∧ before.length ≤ i ∧
    i < before.length + term.length

omit [DecidableEq α] in
/-- An occurrence of symbols with their positions, one after another as in the text, covers
these positions. -/
theorem covers_of_infix {text : List α} {found : List (α × ℕ)} (inside : found <:+: text.zipIdx)
    {a : α} {i : ℕ} (member : (a, i) ∈ found) : Covers (found.map Prod.fst) text i := by
  obtain ⟨before, after, whole⟩ := inside
  obtain ⟨j, small, here⟩ := List.getElem_of_mem member
  refine ⟨before.map Prod.fst, after.map Prod.fst, ?_, ?_⟩
  · rw [← List.map_append, ← List.map_append, whole, List.zipIdx_map_fst]
  · have at_i : text.zipIdx[before.length + j]? = some (a, i) := by
      rw [← whole, List.append_assoc, List.getElem?_append_right (by omega),
        List.getElem?_append_left (by omega)]
      simp [here, small]
    rw [List.getElem?_zipIdx] at at_i
    obtain ⟨b, -, same⟩ := Option.map_eq_some_iff.mp at_i
    have position : before.length + j = i := by simpa using (Prod.ext_iff.mp same).2
    simp only [List.length_map]
    omega

end Terms

end IntramindRuntime.Library
