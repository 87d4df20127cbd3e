import IntramindRuntime.Library.JsonPath
import IntramindRuntime.Library.TextSearch
import IntramindRuntime.Library.Wildcard
import Mathlib.Data.List.Sort

/-!
# Output languages

A policy says in which language the strings of an output are to be written, which of them it is
about, and which terms may stay in the language of the source. Before a string is judged, the
terms are taken out of it one after another, longer ones first. What an earlier term leaves may
join into a later one, and so text that nobody protected may vanish with it.

## Main definitions

* `LanguagePolicy`, `inspectLanguage` — a policy, and the strings that break it
* `Exposed` — a Han character that no occurrence of a protected term covers
* `Hidden` — a string with such a character, all of whose Han characters are taken out, at least
  one by an occurrence that an earlier removal has joined

## Main results

* `removed_of_exposed` — only a joined occurrence takes an exposed character
* `reports_exposed_iff` — every string with an exposed character is reported exactly if no string
  is hidden
-/

namespace IntramindRuntime.Content

open Library

/-! ### Policies -/

/-- The characters that count as Han. -/
def isHan (c : Char) : Bool :=
  [(0x3400, 0x4dbf), (0x4e00, 0x9fff), (0xf900, 0xfaff), (0x20000, 0x2ee5f), (0x2f800, 0x2fa1f),
    (0x30000, 0x323af)].any fun range => range.1 ≤ c.toNat && c.toNat ≤ range.2

/-- A language tag: two or three letters, and subtags of two to eight letters or digits. -/
def isTag (text : List Char) : Bool :=
  match text.splitOn '-' with
  | [] => false
  | first :: rest =>
    2 ≤ first.length && first.length ≤ 3 && first.all Char.isLower &&
      rest.all fun part => 2 ≤ part.length && part.length ≤ 8 &&
        part.all fun c => c.isLower || c.isDigit

/-- A policy, with its target resolved. -/
structure LanguagePolicy where
  target : List Char
  textPaths : List (List Char) := [['*']]
  protectedPaths : List (List Char) := []
  protectedTerms : List (List Char) := []
  version : ℕ := 2
  resolved : isTag target := by decide
  supported : version ∈ [1, 2] := by decide

/-- A string that breaks a policy. -/
structure LanguageIssue where
  path : Json.Path
  text : String
  deriving DecidableEq

namespace LanguagePolicy

/-- The target is written with Han characters. -/
def permitsHan (policy : LanguagePolicy) : Bool :=
  policy.target.takeWhile (· ≠ '-') ∈ [['z', 'h'], ['j', 'a'], ['k', 'o']]

end LanguagePolicy

/-- The text of a step. -/
def keyText : Json.Key → List Char
  | .name name => name.toList
  | .index i => Nat.toDigits 10 i

/-- The selector of a place. -/
def selector (path : Json.Path) : List Char := ['/'].intercalate (path.map keyText)

namespace LanguagePolicy

/-- The string at a place is text of the output, and it is not protected. -/
def selects (policy : LanguagePolicy) (path : Json.Path) : Bool :=
  policy.textPaths.any (fnmatchcase (selector path)) &&
    !policy.protectedPaths.any (fnmatchcase (selector path))

/-- The protected terms in the order in which they are removed. -/
def terms (policy : LanguagePolicy) : List (List Char) :=
  policy.protectedTerms.insertionSort fun a b => b.length ≤ a.length

end LanguagePolicy

/-- A text without the given terms, removed one after another. -/
def strip (terms : List (List Char)) (text : List Char) : List Char :=
  terms.foldl (fun candidate term =>
    if term = [] then candidate else cut (occurrence term) candidate) text

section Inspection

variable (wrongLanguage : List Char → List Char → Bool)

/-- A text breaks the policy. -/
def LanguagePolicy.rejects (policy : LanguagePolicy) (text : List Char) : Bool :=
  let candidate := strip policy.terms text
  !policy.permitsHan && candidate.any isHan ||
    2 ≤ policy.version && wrongLanguage candidate policy.target

/-- The strings of a value that break the policy, by a detector of languages. -/
def inspectLanguage (value : Json) (policy : LanguagePolicy) : List LanguageIssue :=
  if policy.version = 1 && policy.permitsHan then []
  else value.strings.filterMap fun (path, text) =>
    if policy.selects path && policy.rejects wrongLanguage text.toList then some ⟨path, text⟩
    else none

variable {wrongLanguage : List Char → List Char → Bool}

theorem mem_inspectLanguage_iff {value : Json} {policy : LanguagePolicy} {issue : LanguageIssue}
    (inspects : ¬ (policy.version = 1 ∧ policy.permitsHan = true)) :
    issue ∈ inspectLanguage wrongLanguage value policy ↔
      (issue.path, issue.text) ∈ value.strings ∧ policy.selects issue.path = true ∧
        policy.rejects wrongLanguage issue.text.toList = true := by
  rw [inspectLanguage, if_neg (by simpa using inspects), List.mem_filterMap]
  constructor
  · rintro ⟨⟨path, text⟩, member, found⟩
    dsimp only at found
    split_ifs at found with broken
    cases found
    exact ⟨member, by simpa using broken⟩
  · rintro ⟨member, selected, broken⟩
    exact ⟨_, member, by simp [selected, broken]⟩

end Inspection

/-! ### Removals -/

section Removals

/-- A term in a text that carries its positions. -/
abbrev marked (term : List Char) (text : List (Char × ℕ)) : ℕ :=
  occurrence term (text.map Prod.fst)

/-- `strip` on a text that carries its positions. -/
def stripMarked (terms : List (List Char)) (text : List (Char × ℕ)) : List (Char × ℕ) :=
  terms.foldl (fun candidate term =>
    if term = [] then candidate else cut (marked term) candidate) text

/-- The occurrences that are removed, with the positions from which they come. -/
def removed : List (List Char) → List (Char × ℕ) → List (List (Char × ℕ))
  | [], _ => []
  | term :: rest, text =>
    if term = [] then removed rest text
    else findAll (marked term) text ++ removed rest (cut (marked term) text)

theorem map_stripMarked (terms : List (List Char)) (text : List (Char × ℕ)) :
    (stripMarked terms text).map Prod.fst = strip terms (text.map Prod.fst) := by
  induction terms generalizing text with
  | nil => rfl
  | cons term rest ih =>
    rw [stripMarked, strip, List.foldl_cons, List.foldl_cons]
    split_ifs with empty
    · exact ih text
    · rw [← map_cut (occurrence term) Prod.fst text]
      exact ih _

/-- A character of a text stays, or it is removed with some occurrence. -/
theorem mem_stripMarked_or (terms : List (List Char)) {text : List (Char × ℕ)} {s : Char × ℕ}
    (member : s ∈ text) : s ∈ stripMarked terms text ∨ ∃ found ∈ removed terms text, s ∈ found := by
  induction terms generalizing text with
  | nil => exact .inl member
  | cons term rest ih =>
    rw [stripMarked, List.foldl_cons, removed]
    split_ifs with empty
    · exact ih member
    · rcases @mem_cut_or _ (marked term) _ _ member with left | ⟨found, here, inside⟩
      · refine (ih left).imp_right ?_
        rintro ⟨found, later, inside⟩
        exact ⟨found, List.mem_append_right _ later, inside⟩
      · exact .inr ⟨found, List.mem_append_left _ here, inside⟩

/-- What is removed reads as one of the terms. -/
theorem map_removed {terms : List (List Char)} {text found : List (Char × ℕ)}
    (member : found ∈ removed terms text) : found.map Prod.fst ∈ terms := by
  induction terms generalizing text with
  | nil => simp [removed] at member
  | cons term rest ih =>
    rw [removed] at member
    split_ifs at member with empty
    · exact List.mem_cons_of_mem _ (ih member)
    · rcases List.mem_append.mp member with here | later
      · obtain ⟨before, after, -, matched, rfl⟩ := findFrom_spec here
        rw [List.map_take, occurrence_pos matched]
        exact List.mem_cons_self ..
      · exact List.mem_cons_of_mem _ (ih later)

end Removals

/-! ### Exposed characters -/

/-- A Han character at a position that no occurrence of a term covers. -/
def Exposed (terms : List (List Char)) (text : List Char) (i : ℕ) : Prop :=
  (∃ c, text[i]? = some c ∧ isHan c = true) ∧ ∀ term ∈ terms, ¬ Covers term text i

/-- An exposed character that does not stay was removed with characters from different places,
which an earlier removal had joined. -/
theorem removed_of_exposed {terms : List (List Char)} {text : List Char} {i : ℕ}
    (exposed : Exposed terms text i) {c : Char} (here : text[i]? = some c)
    (gone : (c, i) ∉ stripMarked terms text.zipIdx) :
    ∃ found ∈ removed terms text.zipIdx, (c, i) ∈ found ∧ ¬ found <:+: text.zipIdx := by
  have member : (c, i) ∈ text.zipIdx := List.mem_zipIdx_iff_getElem?.mpr here
  obtain ⟨found, taken, inside⟩ := (mem_stripMarked_or terms member).resolve_left gone
  refine ⟨found, taken, inside, ?_⟩
  intro whole
  exact exposed.2 _ (map_removed taken) ( covers_of_infix whole inside)

section Reports

variable (wrongLanguage : List Char → List Char → Bool) (policy : LanguagePolicy)

/-- An occurrence that only an earlier removal has joined takes an exposed character, the removals
leave no Han character at all, and what they leave does not look wrong to the detector. -/
structure Hidden (text : List Char) : Prop where
  joined : ∃ found ∈ removed policy.terms text.zipIdx, ¬ found <:+: text.zipIdx ∧
    ∃ s ∈ found, Exposed policy.protectedTerms text s.2
  cleared : ∀ s ∈ stripMarked policy.terms text.zipIdx, isHan s.1 = false
  unnoticed : ¬ (2 ≤ policy.version ∧
    wrongLanguage (strip policy.terms text) policy.target = true)

variable {wrongLanguage policy}

/-- The order of the removals does not matter for what they are to spare. -/
theorem exposed_terms_iff {text : List Char} {i : ℕ} :
    Exposed policy.terms text i ↔ Exposed policy.protectedTerms text i := by
  have sorted : policy.terms.Perm policy.protectedTerms := List.perm_insertionSort _ _
  simp only [Exposed, sorted.mem_iff]

/-- A text with an exposed character breaks the policy exactly if it is not hidden. -/
theorem rejects_iff_not_hidden (foreign : policy.permitsHan = false) {text : List Char} {i : ℕ}
    (exposed : Exposed policy.protectedTerms text i) :
    policy.rejects wrongLanguage text = true ↔ ¬ Hidden wrongLanguage policy text := by
  have left : strip policy.terms text = (stripMarked policy.terms text.zipIdx).map Prod.fst := by
    rw [map_stripMarked, List.zipIdx_map_fst]
  have rejects : policy.rejects wrongLanguage text = true ↔
      (∃ s ∈ stripMarked policy.terms text.zipIdx, isHan s.1 = true) ∨
        2 ≤ policy.version ∧ wrongLanguage (strip policy.terms text) policy.target = true := by
    simp [LanguagePolicy.rejects, foreign, left, List.any_map]
  rw [rejects]
  constructor
  · rintro (⟨s, stays, han⟩ | noticed) hidden
    · exact nomatch han.symm.trans (hidden.cleared s stays)
    · exact hidden.unnoticed noticed
  · intro seen
    by_contra silent
    obtain ⟨none, unnoticed⟩ := not_or.mp silent
    have cleared : ∀ s ∈ stripMarked policy.terms text.zipIdx, isHan s.1 = false := by
      intro s stays
      by_contra han
      exact none ⟨s, stays, by simpa using han⟩
    obtain ⟨c, here, han⟩ := exposed.1
    have gone : (c, i) ∉ stripMarked policy.terms text.zipIdx := fun stays =>
      nomatch han.symm.trans (cleared _ stays)
    obtain ⟨found, taken, inside, apart⟩ :=
      removed_of_exposed (exposed_terms_iff.mpr exposed) here gone
    exact seen ⟨⟨found, taken, apart, (c, i), inside, exposed⟩, cleared, unnoticed⟩

variable (wrongLanguage policy)

/-- In a language that is not written with Han characters, every selected string with an exposed
character is reported exactly if no selected string is hidden. -/
theorem reports_exposed_iff (foreign : policy.permitsHan = false) (value : Json) :
    (∀ path text, (path, text) ∈ value.strings → policy.selects path = true →
        (∃ i, Exposed policy.protectedTerms text.toList i) →
        ⟨path, text⟩ ∈ inspectLanguage wrongLanguage value policy) ↔
      ∀ path text, (path, text) ∈ value.strings → policy.selects path = true →
        ¬ Hidden wrongLanguage policy text.toList := by
  have inspects : ¬ (policy.version = 1 ∧ policy.permitsHan = true) := by simp [foreign]
  constructor
  · intro reports path text member selected hidden
    obtain ⟨found, taken, apart, s, inside, exposed⟩ := hidden.joined
    have reported := reports path text member selected ⟨s.2, exposed⟩
    have broken := ((mem_inspectLanguage_iff inspects).mp reported).2.2
    exact (rejects_iff_not_hidden foreign exposed).mp broken hidden
  · rintro seen path text member selected ⟨i, exposed⟩
    rw [mem_inspectLanguage_iff inspects]
    have broken := (rejects_iff_not_hidden foreign exposed).mpr (seen path text member selected)
    exact ⟨member, selected, broken⟩

end Reports

theorem isTag_vi : isTag ['v', 'i'] = true := by decide

theorem supported_one : 1 ∈ [1, 2] := by decide

/-- Two terms for an output in Vietnamese. -/
def twoTerms : LanguagePolicy where
  target := ['v', 'i']
  protectedTerms := [['L', 'L'], ['甲', '乙']]
  version := 1
  resolved := isTag_vi
  supported := supported_one

/-- A string with one of the terms and another Han character is reported. -/
theorem reports_exposed_iff_open : twoTerms.permitsHan = false ∧
    ((∀ path text, (path, text) ∈ (Json.str "LL 甲").strings → twoTerms.selects path = true →
        (∃ i, Exposed twoTerms.protectedTerms text.toList i) →
        ⟨path, text⟩ ∈ inspectLanguage (fun _ _ => false) (.str "LL 甲") twoTerms) ↔
      ∀ path text, (path, text) ∈ (Json.str "LL 甲").strings → twoTerms.selects path = true →
        ¬ Hidden (fun _ _ => false) twoTerms text.toList) ∧
    inspectLanguage (fun _ _ => false) (.str "LL 甲") twoTerms = [⟨[], "LL 甲"⟩] :=
  ⟨by decide, reports_exposed_iff _ twoTerms (by decide) _, by decide +kernel⟩

/-- The first term stands between the characters of the second. Without it they join, and no
occurrence of a term in the string covers them, but nothing is reported. -/
theorem reports_exposed_iff_fails :
    ¬ ∀ path text, (path, text) ∈ (Json.str "甲LL乙").strings → twoTerms.selects path = true →
      (∃ i, Exposed twoTerms.protectedTerms text.toList i) →
      ⟨path, text⟩ ∈ inspectLanguage (fun _ _ => false) (.str "甲LL乙") twoTerms := by
  intro reports
  have exposed : Exposed twoTerms.protectedTerms "甲LL乙".toList 0 := by
    refine ⟨⟨'甲', by decide +kernel, by decide⟩, ?_⟩
    rintro term member ⟨before, after, whole, start, -⟩
    rw [List.length_eq_zero_iff.mp (Nat.le_zero.mp start), List.nil_append] at whole
    have leads : term <+: ['甲', 'L', 'L', '乙'] := ⟨after, whole.symm⟩
    have none : ∀ term ∈ twoTerms.protectedTerms, ¬ term <+: ['甲', 'L', 'L', '乙'] := by decide
    exact none term member leads
  have nothing : inspectLanguage (fun _ _ => false) (.str "甲LL乙") twoTerms = [] := by
    decide +kernel
  have reported := reports [] "甲LL乙" (List.mem_singleton_self _) (by decide +kernel) ⟨0, exposed⟩
  rw [nothing] at reported
  exact absurd reported List.not_mem_nil

end IntramindRuntime.Content
