import IntramindRuntime.Content.Language
import IntramindRuntime.Library.JsonLimits
import IntramindRuntime.Proxy.StreamEvents
import Mathlib.Data.List.TakeWhile
import Mathlib.Order.Fin.Basic

/-!
# Repairs

Strings that break a policy are sent back to the model, which answers with other texts for them.
The texts are put into a copy of the value. A text must keep what a translation has no business
to change: links, brackets, numbers, placeholders and protected terms; and the value as a whole
must meet the policy in the end.

Values are objects of the interpreter here. A variable refers to a place in one of them, a copy is
a new object, and an assignment changes the object that the variable refers to. So it can be said
that a repair does not touch the value it is given.

The interpreter cannot take everything. An answer that is nested too deep, and a value that is too
deep to be copied, make it raise a `RecursionError`, which a repair lets through.

## Main definitions

* `fixedToken`, `KeepsTokens` — the fixed tokens of a text, and how a repair may change them
* `repairKeepsFixedTokens`, `Embedding` — the same for any matchers, and places for the tokens
* `Memory`, `Ref` — objects, and a place in one of them
* `Interpreter` — what the interpreter can take
* `applyRepair` — a repair
* `Overruns` — a repair for which it cannot take the answer or the value

## Main results

* `keepsFixedTokens_iff` — the loop over the tokens finds out whether they are kept
* `repairKeepsFixedTokens_iff` — it finds an embedding if there is one
* `put_spec` — a text is put at its place in the copy, and nowhere else
* `applyRepair_spec` — a repair changes the texts that it may change, or fails as documented
* `repairEnds_iff` — it does so exactly if the interpreter can take the answer and the value
-/

namespace IntramindRuntime.Content

open Library

/-! ### Fixed tokens -/

section Tokens

/-- A link. -/
def linkToken (text : List Char) : ℕ :=
  let scheme := if "https".toList.isPrefixOf text then 5 else 4
  if "http".toList.isPrefixOf text && "://".toList.isPrefixOf (text.drop scheme) then
    match ((text.drop (scheme + 3)).takeWhile fun c => !isSpace c).length with
    | 0 => 0
    | n + 1 => scheme + 3 + (n + 1)
  else 0

/-- Something in brackets, within a line. -/
def bracketToken (opening closing : Char) : List Char → ℕ
  | [] => 0
  | c :: rest =>
    let inside := rest.takeWhile fun d => d ≠ closing && d ≠ '\n'
    if c = opening && 0 < inside.length && rest[inside.length]? = some closing then
      inside.length + 2
    else 0

/-- How far the closing braces of a placeholder are, within a line. -/
def bracesEnd : List Char → Option ℕ
  | [] => none
  | c :: rest =>
    if c = '}' && rest.head? = some '}' then some 0
    else if c = '\n' then none
    else (bracesEnd rest).map (· + 1)

/-- A placeholder. -/
def bracesToken (text : List Char) : ℕ :=
  if ['{', '{'].isPrefixOf text then ((bracesEnd (text.drop 2)).map (· + 4)).getD 0 else 0

variable (decimal : Char → Bool)

/-- The rest of a number: digits, and single separators between digits. -/
def numberRest : List Char → ℕ
  | [] => 0
  | c :: rest =>
    if decimal c || (c ∈ ['.', ',', ':', '/', '-'] && rest.head?.any decimal) then
      numberRest rest + 1
    else 0

/-- A number. -/
def numberToken : List Char → ℕ
  | [] => 0
  | c :: rest => if decimal c then numberRest decimal rest + 1 else 0

/-- The first kind of token that the text begins with. -/
def fixedToken (text : List Char) : ℕ :=
  (([linkToken, bracketToken '[' ']', bracketToken '<' '>', bracesToken, numberToken decimal].map
    (· text)).find? (0 < ·)).getD 0

/-- The token is a number and nothing else. -/
def isNumber (token : List Char) : Bool :=
  token ≠ [] && numberToken decimal token = token.length

/-- The loop over the tokens of a repair, which looks for those of the original in their order. -/
def keepsInOrder : List (List Char) → List (List Char) → Bool
  | old, [] => old.isEmpty
  | [], token :: new => isNumber decimal token && keepsInOrder [] new
  | first :: old, token :: new =>
    if token = first then keepsInOrder old new
    else isNumber decimal token && keepsInOrder (first :: old) new

/-- `_repair_keeps_fixed_tokens` -/
def keepsFixedTokens (original repaired : List Char) : Bool :=
  let old := findAll (fixedToken decimal) original
  let new := findAll (fixedToken decimal) repaired
  if old = new then true
  else if !original.any isHan || repaired.any isHan then false
  else keepsInOrder decimal old new

/-- The tokens are the given ones, in their order, with more numbers between them. -/
inductive Extends : List (List Char) → List (List Char) → Prop
  | nil : Extends [] []
  | keep {old new : List (List Char)} (token : List Char) (rest : Extends old new) :
      Extends (token :: old) (token :: new)
  | add {old new : List (List Char)} {token : List Char} (number : isNumber decimal token = true)
      (rest : Extends old new) : Extends old (token :: new)

/-- The rule for fixed tokens: they stay as they are, but where a repair removes all Han
characters, numbers may be added. -/
def KeepsTokens (original repaired : List Char) : Prop :=
  findAll (fixedToken decimal) original = findAll (fixedToken decimal) repaired ∨
    original.any isHan = true ∧ repaired.any isHan = false ∧
      Extends decimal (findAll (fixedToken decimal) original)
        (findAll (fixedToken decimal) repaired)

variable {decimal}

/-- A number that is among the tokens may also count as an added one. -/
theorem Extends.drop {old new : List (List Char)} {token : List Char}
    (number : isNumber decimal token = true) (kept : Extends decimal (token :: old) new) :
    Extends decimal old new := by
  generalize same : token :: old = all at kept
  induction kept with
  | nil => exact nomatch same
  | keep token rest ih =>
    cases same
    exact .add number rest
  | add other rest ih => exact .add other (ih same)

theorem keepsInOrder_iff {old new : List (List Char)} :
    keepsInOrder decimal old new = true ↔ Extends decimal old new := by
  induction new generalizing old with
  | nil =>
    cases old with
    | nil => exact ⟨fun _ => .nil, fun _ => rfl⟩
    | cons first old =>
      constructor
      · intro kept
        exact nomatch kept
      · intro kept
        cases kept
  | cons token new ih =>
    cases old with
    | nil =>
      rw [keepsInOrder, Bool.and_eq_true, ih]
      constructor
      · rintro ⟨number, rest⟩
        exact .add number rest
      · intro kept
        cases kept with
        | add number rest => exact ⟨number, rest⟩
    | cons first old =>
      rw [keepsInOrder]
      split_ifs with same
      · subst same
        rw [ih]
        constructor
        · exact .keep token
        · intro kept
          -- the token may have been taken for an added number
          cases kept with
          | keep token rest => exact rest
          | add number rest => exact rest.drop number
      · rw [Bool.and_eq_true, ih]
        constructor
        · rintro ⟨number, rest⟩
          exact .add number rest
        · intro kept
          cases kept with
          | keep token rest => exact absurd rfl same
          | add number rest => exact ⟨number, rest⟩

/-- The check of the tokens is the rule. -/
theorem keepsFixedTokens_iff {original repaired : List Char} :
    keepsFixedTokens decimal original repaired = true ↔ KeepsTokens decimal original repaired := by
  unfold keepsFixedTokens KeepsTokens
  dsimp only
  split_ifs with same han
  · simp [same]
  · simp only [false_iff, not_or, not_and]
    refine ⟨same, ?_⟩
    intro before after
    simp [before, after] at han
  · simp only [Bool.or_eq_true, Bool.not_eq_true', not_or, Bool.not_eq_false,
      Bool.not_eq_true] at han
    simp [same, han, keepsInOrder_iff]

end Tokens

/-! ### The rule with given matchers -/

section Rule

variable {Text Token : Type*}

/-- The loop over the tokens of a repair, with the index of the next token of the original. -/
def tokensLoop [DecidableEq Token] (number : Token → Bool) (old : List Token) :
    ℕ → List Token → Bool
  | index, [] => index = old.length
  | index, token :: new =>
    if index < old.length ∧ old[index]? = some token then tokensLoop number old (index + 1) new
    else if !number token then false
    else tokensLoop number old index new

/-- `_repair_keeps_fixed_tokens`, with the matchers as given functions -/
def repairKeepsFixedTokens [DecidableEq Token] (tokens : Text → List Token) (han : Text → Bool)
    (number : Token → Bool) (original repaired : Text) : Bool :=
  let old := tokens original
  let new := tokens repaired
  if old = new then true
  else if !han original || han repaired then false
  else tokensLoop number old 0 new

/-- A place for each of the first tokens among the second ones, in their order, such that every
token at another place is a number. -/
structure Embedding (number : Token → Bool) (old new : List Token) where
  place : Fin old.length ↪o Fin new.length
  kept : ∀ i, new.get (place i) = old.get i
  added : ∀ j, j ∉ Set.range place → number (new.get j) = true

namespace Embedding

variable {number : Token → Bool} {old new : List Token} {token : Token}

/-- Without tokens there is nothing to place. -/
def nil : Embedding number ([] : List Token) [] where
  place := RelEmbedding.refl _
  kept i := i.elim0
  added j := j.elim0

/-- A token at the front of both. -/
def keep (token : Token) (rest : Embedding number old new) :
    Embedding number (token :: old) (token :: new) where
  place := .ofStrictMono (Fin.cases 0 fun i => (rest.place i).succ) fun i j less => by
    induction i using Fin.cases with
    | zero =>
      induction j using Fin.cases with
      | zero => exact absurd less (lt_irrefl _)
      | succ j => exact Fin.succ_pos _
    | succ i =>
      induction j using Fin.cases with
      | zero => exact absurd less (Fin.not_lt_zero _)
      | succ j =>
        exact Fin.succ_lt_succ_iff.mpr (rest.place.strictMono (Fin.succ_lt_succ_iff.mp less))
  kept i := by
    induction i using Fin.cases with
    | zero => rfl
    | succ i => exact rest.kept i
  added j outside := by
    induction j using Fin.cases with
    | zero => exact absurd ⟨0, rfl⟩ outside
    | succ j =>
      refine rest.added j ?_
      rintro ⟨i, rfl⟩
      exact outside ⟨i.succ, rfl⟩

/-- A number at the front of the second tokens. -/
def add (more : number token = true) (rest : Embedding number old new) :
    Embedding number old (token :: new) where
  place := rest.place.trans (Fin.succOrderEmb _)
  kept i := rest.kept i
  added j outside := by
    induction j using Fin.cases with
    | zero => exact more
    | succ j =>
      refine rest.added j ?_
      rintro ⟨i, rfl⟩
      exact outside ⟨i, rfl⟩

/-- A number that has a place may also count as an added one. -/
def drop (more : number token = true) (all : Embedding number (token :: old) new) :
    Embedding number old new where
  place := (Fin.succOrderEmb _).trans all.place
  kept i := all.kept i.succ
  added j outside := by
    by_cases first : all.place 0 = j
    · rw [← first, all.kept]
      exact more
    · refine all.added j ?_
      rintro ⟨i, here⟩
      induction i using Fin.cases with
      | zero => exact first here
      | succ i => exact outside ⟨i, here⟩

/-- Where the front of the second tokens is nobody's place. -/
theorem of_skips (place : Fin old.length ↪o Fin (token :: new).length)
    (skips : ∀ i, place i ≠ 0) (kept : ∀ i, (token :: new).get (place i) = old.get i)
    (added : ∀ j, j.succ ∉ Set.range place → number (new.get j) = true) :
    Nonempty (Embedding number old new) := by
  refine ⟨⟨.ofStrictMono (fun i => (place i).pred (skips i)) ?_, ?_, ?_⟩⟩
  · intro i j less
    exact Fin.pred_lt_pred_iff.mpr (place.strictMono less)
  · intro i
    rw [← kept]
    exact congrArg (token :: new).get (Fin.succ_pred _ (skips i))
  · intro j outside
    refine added j ?_
    rintro ⟨i, here⟩
    refine outside ⟨i, ?_⟩
    exact (Fin.pred_eq_iff_eq_succ (skips i)).mpr here

end Embedding

variable {number : Token → Bool} {old new : List Token} {first token : Token}

/-- Nothing can be placed among no tokens. -/
theorem embedding_nil_iff : Nonempty (Embedding number old []) ↔ old = [] := by
  constructor
  · rintro ⟨e⟩
    cases old with
    | nil => rfl
    | cons first old => exact (e.place 0).elim0
  · rintro rfl
    exact ⟨.nil⟩

/-- Where the first of the second tokens is not the first of the first ones. -/
theorem embedding_cons_iff (other : old.head? ≠ some token) :
    Nonempty (Embedding number old (token :: new)) ↔
      number token = true ∧ Nonempty (Embedding number old new) := by
  constructor
  · rintro ⟨e⟩
    have skips (i : Fin old.length) : e.place i ≠ 0 := by
      intro front
      have below : (⟨0, i.pos⟩ : Fin old.length) ≤ i := Nat.zero_le _
      have least : e.place ⟨0, i.pos⟩ = 0 :=
        Fin.le_zero_iff.mp ((e.place.monotone below).trans front.le)
      refine other ?_
      have same := e.kept ⟨0, i.pos⟩
      rw [least] at same
      rw [List.head?_eq_getElem?, List.getElem?_eq_getElem i.pos]
      exact congrArg some same.symm
    refine ⟨e.added 0 ?_, Embedding.of_skips e.place skips e.kept fun j => e.added j.succ⟩
    rintro ⟨i, front⟩
    exact skips i front
  · rintro ⟨more, ⟨rest⟩⟩
    exact ⟨rest.add more⟩

/-- Where the same token comes first, it may be placed there. -/
theorem embedding_same_iff :
    Nonempty (Embedding number (token :: old) (token :: new)) ↔
      Nonempty (Embedding number old new) := by
  constructor
  · rintro ⟨e⟩
    by_cases front : e.place 0 = 0
    · -- the rest of the places is behind the front
      refine Embedding.of_skips ((Fin.succOrderEmb _).trans e.place) ?_
        (fun i => e.kept i.succ) ?_
      · intro i here
        have before := e.place.strictMono (Fin.succ_pos i)
        rw [front] at before
        exact before.ne' here
      · intro j outside
        refine e.added j.succ ?_
        rintro ⟨i, here⟩
        induction i using Fin.cases with
        | zero => exact (Fin.succ_ne_zero j) (here.symm.trans front)
        | succ i => exact outside ⟨i, here⟩
    · -- the front is an added number, and the token may do without its place
      have skips (i : Fin (token :: old).length) : e.place i ≠ 0 := by
        intro here
        refine front (Fin.le_zero_iff.mp ?_)
        exact (e.place.monotone (Fin.zero_le _)).trans here.le
      have more : number token = true := e.added 0 fun ⟨i, here⟩ => skips i here
      obtain ⟨rest⟩ := Embedding.of_skips e.place skips e.kept fun j => e.added j.succ
      exact ⟨rest.drop more⟩
  · rintro ⟨rest⟩
    exact ⟨rest.keep token⟩

/-- The loop finds out whether the tokens from the index on can be placed. -/
theorem tokensLoop_iff [DecidableEq Token] {index : ℕ} (inside : index ≤ old.length) :
    tokensLoop number old index new = true ↔ Nonempty (Embedding number (old.drop index) new) := by
  have differs {index : ℕ} {token : Token}
      (other : ¬ (index < old.length ∧ old[index]? = some token)) :
      (old.drop index).head? ≠ some token := by
    intro here
    rw [List.head?_drop] at here
    exact other ⟨(List.getElem?_eq_some_iff.mp here).1, here⟩
  induction new generalizing index with
  | nil =>
    rw [embedding_nil_iff, List.drop_eq_nil_iff, tokensLoop, decide_eq_true_iff]
    omega
  | cons token new ih =>
    rw [tokensLoop]
    split_ifs with same other
    · -- the place in the original goes on with the loop
      obtain ⟨less, here⟩ := same
      rw [List.getElem?_eq_getElem less, Option.some.injEq] at here
      rw [List.drop_eq_getElem_cons less, here, embedding_same_iff]
      exact ih less
    · have none : ¬ number token = true := by simpa using other
      rw [embedding_cons_iff (differs same)]
      simp [none]
    · have more : number token = true := by simpa using other
      rw [embedding_cons_iff (differs same)]
      exact (ih inside).trans (and_iff_right more).symm

/-- The fixed-token rule is decided exactly. -/
theorem repairKeepsFixedTokens_iff [DecidableEq Token] (tokens : Text → List Token)
    (han : Text → Bool) (number : Token → Bool) (original repaired : Text) :
    repairKeepsFixedTokens tokens han number original repaired = true ↔
      tokens original = tokens repaired ∨
        han original = true ∧ han repaired = false ∧
          Nonempty (Embedding number (tokens original) (tokens repaired)) := by
  rw [repairKeepsFixedTokens]
  split_ifs with same han
  · simp [same]
  · simp only [false_iff, not_or, not_and]
    refine ⟨same, ?_⟩
    intro before after
    simp [before, after] at han
  · simp only [Bool.or_eq_true, Bool.not_eq_true', not_or, Bool.not_eq_false,
      Bool.not_eq_true] at han
    simp [same, han, tokensLoop_iff (Nat.zero_le _)]

/-- The loop with its index is the loop over what is left of the original. -/
theorem keepsInOrder_eq {decimal : Char → Bool} {old new : List (List Char)} {index : ℕ}
    (inside : index ≤ old.length) :
    keepsInOrder decimal (old.drop index) new = tokensLoop (isNumber decimal) old index new := by
  induction new generalizing index with
  | nil =>
    rw [tokensLoop, Bool.eq_iff_iff, decide_eq_true_iff]
    cases left : old.drop index with
    | nil =>
      have last := List.drop_eq_nil_iff.mp left
      exact ⟨fun _ => inside.antisymm last, fun _ => rfl⟩
    | cons first rest =>
      refine ⟨nofun, ?_⟩
      rintro rfl
      rw [List.drop_length] at left
      cases left
  | cons token new ih =>
    rw [tokensLoop]
    by_cases less : index < old.length
    · rw [List.drop_eq_getElem_cons less, keepsInOrder]
      simp only [less, List.getElem?_eq_getElem less, true_and, Option.some.injEq,
        eq_comm (a := token)]
      by_cases same : old[index] = token
      · rw [if_pos same, if_pos same]
        exact ih less
      · rw [if_neg same, if_neg same, ← List.drop_eq_getElem_cons less, ih inside]
        cases isNumber decimal token <;> rfl
    · have last : old.drop index = [] := List.drop_eq_nil_iff.mpr (not_lt.mp less)
      rw [last, keepsInOrder, ← last, ih inside, if_neg fun here => less here.1]
      cases isNumber decimal token <;> rfl

/-- The check with the matchers of the module. -/
theorem keepsFixedTokens_eq {decimal : Char → Bool} {original repaired : List Char} :
    keepsFixedTokens decimal original repaired =
      repairKeepsFixedTokens (findAll (fixedToken decimal)) (List.any · isHan)
        (isNumber decimal) original repaired := by
  rw [keepsFixedTokens, repairKeepsFixedTokens, ← keepsInOrder_eq (Nat.zero_le _), List.drop_zero]

end Rule

/-! ### Objects -/

/-- The objects that a call can reach, each with its value. -/
abbrev Memory := List Json

/-- What a variable refers to: a place in an object. -/
structure Ref where
  root : ℕ
  path : Json.Path
  deriving DecidableEq

/-- The value that a variable stands for. -/
def Memory.get (memory : Memory) (ref : Ref) : Option Json :=
  (memory[ref.root]?).bind (Json.at? ref.path)

/-- The ways in which a repair fails: with a `LanguageValidationError`, on an item that is not
there, or with a `RecursionError`. -/
inductive RepairFailure
  | languageValidation
  | lookup
  | recursion
  deriving DecidableEq

/-- `parent[key]` -/
def getItem (memory : Memory) (parent : Ref) (key : Json.Key) : Except RepairFailure Ref :=
  let item : Ref := ⟨parent.root, parent.path ++ [key]⟩
  if (memory.get item).isSome then .ok item else .error .lookup

/-- `parent[key] = text` -/
def setItem (memory : Memory) (parent : Ref) (key : Json.Key) (text : String) :
    Except RepairFailure Memory :=
  match (memory[parent.root]?).bind fun value => value.assignAt parent.path key (.str text) with
  | some value => .ok (memory.set parent.root value)
  | none => .error .lookup

/-- Put a text at a place of the result. At the root it is a result of its own. -/
def put (memory : Memory) (result : Ref) (path : Json.Path) (text : String) :
    Except RepairFailure (Memory × Ref) :=
  match path.getLast? with
  | none => .ok (memory ++ [.str text], ⟨memory.length, []⟩)
  | some key => do
    let parent ← path.dropLast.foldlM (getItem memory) result
    let memory ← setItem memory parent key text
    return (memory, result)

section Put

variable {memory : Memory} {value : Json}

/-- Walking along a place that is there ends at it. -/
theorem foldlM_getItem {root : ℕ} (object : memory[root]? = some value) {done path : Json.Path}
    (there : (value.at? (done ++ path)).isSome) :
    path.foldlM (getItem memory) ⟨root, done⟩ = .ok ⟨root, done ++ path⟩ := by
  induction path generalizing done with
  | nil => rw [List.append_nil]; rfl
  | cons key rest ih =>
    have further : done ++ key :: rest = (done ++ [key]) ++ rest := by simp
    rw [further, Json.at?_append, Option.isSome_bind] at there
    have here : (value.at? (done ++ [key])).isSome := by
      cases found : value.at? (done ++ [key]) with
      | none => simp [found] at there
      | some item => rfl
    have item : getItem memory ⟨root, done⟩ key = .ok ⟨root, done ++ [key]⟩ := by
      simp [getItem, Memory.get, object, here]
    rw [List.foldlM_cons, item, further]
    apply ih
    rwa [Json.at?_append, Option.isSome_bind]

/-- A text is put at its place in an object that is younger than `start`. Older objects stay, and
so does every place that neither leads to the text nor is within it. -/
theorem put_spec {start : Memory} (grown : start <+: memory) {result : Ref}
    (fresh : start.length ≤ result.root) (whole : result.path = [])
    (current : memory.get result = some value) (distinct : value.Distinct) {path : Json.Path}
    {old : String} (there : value.at? path = some (.str old)) (text : String) :
    ∃ memory' result' value', put memory result path text = .ok (memory', result') ∧
      start <+: memory' ∧ start.length ≤ result'.root ∧ result'.path = [] ∧
      memory'.get result' = some value' ∧ value'.outline = value.outline ∧
      value'.at? path = some (.str text) ∧
      ∀ other, ¬ other <+: path → ¬ path <+: other → value'.at? other = value.at? other := by
  obtain ⟨root, _⟩ := result
  subst whole
  have object : memory[root]? = some value := by
    cases found : memory[root]? with
    | none => simp [Memory.get, found] at current
    | some other => simpa [Memory.get, found] using current
  cases last : path.getLast? with
  | none =>
    rw [List.getLast?_eq_none_iff] at last
    subst last
    cases Option.some.inj there
    refine ⟨memory ++ [.str text], ⟨memory.length, []⟩, .str text, rfl,
      grown.trans (List.prefix_append ..), grown.length_le, rfl, by simp [Memory.get], rfl, rfl, ?_⟩
    intro other _ behind
    exact absurd List.nil_prefix behind
  | some key =>
    have split : path.dropLast ++ [key] = path := List.dropLast_append_getLast? key last
    rw [← split] at there
    have parent : (value.at? ([] ++ path.dropLast)).isSome := by
      rw [Json.at?_append] at there
      cases found : value.at? path.dropLast with
      | none => simp [found] at there
      | some item => rw [List.nil_append, found]; rfl
    obtain ⟨value', assigned⟩ := Option.isSome_iff_exists.mp
      (Json.assignAt_isSome (by rw [there]; rfl) (.str text))
    have walked := foldlM_getItem object parent
    rw [List.nil_append] at walked
    have set : setItem memory ⟨root, path.dropLast⟩ key text = .ok (memory.set root value') := by
      simp [setItem, object, assigned]
    refine ⟨memory.set root value', ⟨root, []⟩, value', ?_, ?_, fresh, rfl, ?_,
      Json.outline_assignAt distinct there assigned, ?_, ?_⟩
    · rw [put, last]
      simp [walked, set, bind, Except.bind, pure, Except.pure]
    · obtain ⟨younger, rfl⟩ := grown
      rw [List.set_append_right _ _ fresh]
      exact List.prefix_append ..
    · have small : root < memory.length := (List.getElem?_eq_some_iff.mp object).1
      simp [Memory.get, small]
    · rw [← split]
      exact Json.at?_assignAt assigned
    · rw [← split]
      intro other before behind
      exact Json.at?_assignAt_apart assigned before behind

end Put

/-! ### Repairs -/

/-- What the interpreter can take: the texts that `json.loads` reads, and how deep a value may be
nested for `deepcopy` and for `_strings`. -/
structure Interpreter where
  json : Json.Limits
  copying : ℕ
  walking : ℕ

/-- The value is not too deep for `deepcopy`. -/
def Interpreter.copies (limits : Interpreter) (value : Json) : Bool :=
  value.fits ⟨none, limits.copying⟩ 0

section Repairs

variable (limits : Interpreter) (wrongLanguage : List Char → List Char → Bool)
  (decimal : Char → Bool)

/-- The text of a repair may stand in the place of the text of an issue. -/
def suits (policy : LanguagePolicy) (original repaired : List Char) : Bool :=
  trim isSpace repaired ≠ [] && keepsFixedTokens decimal original repaired &&
    policy.protectedTerms.all fun term => term = [] ||
      (findAll (occurrence term) original).length = (findAll (occurrence term) repaired).length

/-- The loop of a repair over the issues and the texts for them. -/
def applyTexts (policy : LanguagePolicy) : List (LanguageIssue × Json) → Memory → Ref →
    Except RepairFailure Ref × Memory
  | [], memory, result => (.ok result, memory)
  | (issue, answer) :: rest, memory, result =>
    match answer.text? with
    | none => (.error .languageValidation, memory)
    | some text =>
      if suits decimal policy issue.text.toList text.toList then
        match put memory result issue.path text with
        | .error failure => (.error failure, memory)
        | .ok (memory, result) => applyTexts policy rest memory result
      else (.error .languageValidation, memory)

/-- `json.loads` of a raw answer. One that is no text or no JSON is refused. -/
def readAnswer (raw : Json) : Except RepairFailure Json :=
  match raw.text? with
  | none => .error .languageValidation
  | some text =>
    match Json.loadsWithin limits.json text.toList with
    | .ok patch => .ok patch
    | .error .refused => .error .languageValidation
    | .error .tooDeep => .error .recursion

/-- The texts of a patch, if it has one for every issue. -/
def patchTexts (issues : List LanguageIssue) (patch : Json) : Option (List Json) :=
  (patch.get "texts").items?.filter fun texts =>
    patch.isObj && patch.hasNames ["texts"] && texts.length = issues.length

/-- `apply_repair` of a value by the raw answer of a model. What could be copied is not too deep to
be inspected in the end: `deepcopy` takes two calls for every level, and `_strings` one. -/
def applyRepair (memory : Memory) (value : Ref) (issues : List LanguageIssue) (raw : Json)
    (policy : LanguagePolicy) : Except RepairFailure Ref × Memory :=
  match readAnswer limits raw with
  | .error failure => (.error failure, memory)
  | .ok patch =>
    match patchTexts issues patch with
    | none => (.error .languageValidation, memory)
    | some texts =>
      match memory.get value with
      | none => (.error .lookup, memory)
      | some copy =>
        if !limits.copies copy then (.error .recursion, memory)
        else
          match applyTexts decimal policy (issues.zip texts) (memory ++ [copy])
              ⟨memory.length, []⟩ with
          | (.error failure, memory) => (.error failure, memory)
          | (.ok result, memory) =>
            match memory.get result with
            | none => (.error .lookup, memory)
            | some repaired =>
              if inspectLanguage wrongLanguage repaired policy ≠ [] then
                (.error .languageValidation, memory)
              else (.ok result, memory)

/-- The interpreter cannot take a repair: the answer is nested too deep, or it is a patch, and the
value is too deep to be copied. -/
def Overruns (issues : List LanguageIssue) (value raw : Json) : Prop :=
  readAnswer limits raw = .error .recursion ∨
    ∃ patch, readAnswer limits raw = .ok patch ∧ (patchTexts issues patch).isSome ∧
      limits.copies value = false

/-- The texts of a raw answer. -/
def answerTexts (raw : Json) : List String :=
  match readAnswer limits raw with
  | .error _ => []
  | .ok patch => ((patch.get "texts").items?.getD []).filterMap Json.text?

/-- A text that may stand in the place of another: it is not blank, it keeps the fixed tokens, and
it has every protected term as often. -/
structure Suits (policy : LanguagePolicy) (original repaired : String) : Prop where
  nonblank : ∃ c ∈ repaired.toList, isSpace c = false
  tokens : KeepsTokens decimal original.toList repaired.toList
  terms : ∀ term ∈ policy.protectedTerms, term ≠ [] →
    (findAll (occurrence term) original.toList).length =
      (findAll (occurrence term) repaired.toList).length

/-- The second value is the first with offered texts in the places of the issues. It differs from
the first in nothing but texts, and every place that does not lead to an issue has what it had. -/
structure Repaired (policy : LanguagePolicy) (offered : List String) (issues : List LanguageIssue)
    (before after : Json) : Prop where
  shape : after.outline = before.outline
  untouched : ∀ path, (∀ issue ∈ issues, ¬ path <+: issue.path) → after.at? path = before.at? path
  replaced : ∀ issue ∈ issues, ∃ text ∈ offered, after.at? issue.path = some (.str text) ∧
    Suits decimal policy issue.text text

/-- How a repair of a value may end: every object from before is as it was, the value is where it
was, and there is a repaired value without issues, or a `LanguageValidationError`. -/
structure RepairEnds (policy : LanguagePolicy) (memory : Memory) (ref : Ref) (value raw : Json)
    (outcome : Except RepairFailure Ref) (memory' : Memory) : Prop where
  unchanged : memory <+: memory'
  input : memory'.get ref = some value
  result : match outcome with
    | .error failure => failure = .languageValidation
    | .ok result => ∃ repaired, memory'.get result = some repaired ∧
        Repaired decimal policy (answerTexts limits raw)
          (inspectLanguage wrongLanguage value policy) value repaired ∧
        inspectLanguage wrongLanguage repaired policy = []

/-- The issues are strings of the value, each at a place of its own. -/
structure Concerns (issues : List LanguageIssue) (value : Json) : Prop where
  there : ∀ issue ∈ issues, value.at? issue.path = some (.str issue.text)
  distinct : (issues.map LanguageIssue.path).Nodup

/-- The loop has put texts in the places of the issues `done`, in an object that is younger than
`start`. -/
structure Patching (policy : LanguagePolicy) (offered : List String) (start : Memory) (value : Json)
    (done : List LanguageIssue) (memory : Memory) (result : Ref) (current : Json) : Prop where
  grown : start <+: memory
  fresh : start.length ≤ result.root
  whole : result.path = []
  present : memory.get result = some current
  repaired : Repaired decimal policy offered done value current

variable {limits wrongLanguage decimal} {policy : LanguagePolicy}

theorem exists_solid_of_trim {text : List Char} (filled : trim isSpace text ≠ []) :
    ∃ c ∈ text, isSpace c = false := by
  by_contra none
  push Not at none
  have blank : trimLeft isSpace text = [] := by
    rw [trimLeft, List.dropWhile_eq_nil_iff]
    intro c member
    simpa using none c member
  rw [trim, blank] at filled
  exact filled rfl

theorem suits_iff {original repaired : String}
    (suits : suits decimal policy original.toList repaired.toList = true) :
    Suits decimal policy original repaired := by
  simp only [Content.suits, Bool.and_eq_true, decide_eq_true_eq, List.all_eq_true, Bool.or_eq_true,
    ne_eq] at suits
  obtain ⟨⟨filled, tokens⟩, terms⟩ := suits
  refine ⟨exists_solid_of_trim (by simpa using filled), keepsFixedTokens_iff.mp tokens, ?_⟩
  intro term member some
  exact (terms term member).resolve_left some

/-- Another issue of a value is neither within an issue nor around it. -/
theorem Concerns.apart {issues : List LanguageIssue} {value : Json} {issue : LanguageIssue}
    (concerns : Concerns (issues ++ [issue]) value) {other : LanguageIssue}
    (member : other ∈ issues) : ¬ other.path <+: issue.path ∧ ¬ issue.path <+: other.path := by
  have here := concerns.there issue (by simp)
  have there := concerns.there other (List.mem_append_left _ member)
  have paths := concerns.distinct
  rw [List.map_append, List.nodup_append] at paths
  have different : other.path ≠ issue.path :=
    paths.2.2 other.path (List.mem_map_of_mem member) issue.path (by simp)
  constructor
  · intro leads
    exact different (Json.path_eq_of_prefix there here leads)
  · intro leads
    exact different (Json.path_eq_of_prefix here there leads).symm

/-- Another text at the place of one more issue. -/
theorem Repaired.step {offered : List String} {issues : List LanguageIssue}
    {value current next : Json} {issue : LanguageIssue} {text : String}
    (repaired : Repaired decimal policy offered issues value current)
    (concerns : Concerns (issues ++ [issue]) value) (member : text ∈ offered)
    (suits : Suits decimal policy issue.text text) (shape : next.outline = current.outline)
    (here : next.at? issue.path = some (.str text))
    (elsewhere : ∀ other, ¬ other <+: issue.path → ¬ issue.path <+: other →
      next.at? other = current.at? other) :
    Repaired decimal policy offered (issues ++ [issue]) value next := by
  refine ⟨shape.trans repaired.shape, ?untouched, ?replaced⟩
  case untouched =>
    intro path before
    have outside : ¬ path <+: issue.path := before issue (by simp)
    have others : ∀ other ∈ issues, ¬ path <+: other.path := fun other member =>
      before other (List.mem_append_left _ member)
    by_cases behind : issue.path <+: path
    · -- within a string there is nothing, before and after
      obtain ⟨further, rfl⟩ := behind
      have deeper : further ≠ [] := by
        rintro rfl
        exact outside (by simp)
      rw [Json.at?_append, Json.at?_append, here, concerns.there issue (by simp),
        Option.bind_some, Option.bind_some, Json.at?_str_eq_none deeper,
        Json.at?_str_eq_none deeper]
    · rw [elsewhere path outside behind, repaired.untouched path others]
  case replaced =>
    intro other inside
    rcases List.mem_append.mp inside with old | new
    · obtain ⟨kept, known, present, suited⟩ := repaired.replaced other old
      obtain ⟨before, behind⟩ := concerns.apart old
      exact ⟨kept, known, (elsewhere other.path before behind).trans present, suited⟩
    · rw [List.mem_singleton.mp new]
      exact ⟨text, member, here, suits⟩

/-- One turn of the loop. -/
theorem Patching.step {offered : List String} {start : Memory} {value : Json}
    {done : List LanguageIssue} {memory : Memory} {result : Ref} {current : Json}
    (patching : Patching decimal policy offered start value done memory result current)
    (distinct : value.Distinct) {issue : LanguageIssue}
    (concerns : Concerns (done ++ [issue]) value) {text : String} (member : text ∈ offered)
    (suits : Suits decimal policy issue.text text) :
    ∃ memory' result' current', put memory result issue.path text = .ok (memory', result') ∧
      Patching decimal policy offered start value (done ++ [issue]) memory' result' current' := by
  have untouched : current.at? issue.path = some (.str issue.text) := by
    rw [patching.repaired.untouched]
    · exact concerns.there issue (by simp)
    · exact fun other member => (concerns.apart member).2
  have names : current.Distinct := by
    rwa [← Json.distinct_outline_iff, patching.repaired.shape, Json.distinct_outline_iff]
  obtain ⟨memory', result', current', done, grown, fresh, whole, present, shape, here, elsewhere⟩ :=
    put_spec patching.grown patching.fresh patching.whole patching.present names untouched text
  exact ⟨memory', result', current', done, grown, fresh, whole, present,
    patching.repaired.step concerns member suits shape here elsewhere⟩

/-- The loop puts texts in the places of all issues, or it fails as documented. -/
theorem applyTexts_spec {offered : List String} {start : Memory} {value : Json}
    {done : List LanguageIssue} {memory : Memory} {result : Ref} {current : Json}
    (patching : Patching decimal policy offered start value done memory result current)
    (distinct : value.Distinct) {pairs : List (LanguageIssue × Json)}
    (concerns : Concerns (done ++ pairs.map Prod.fst) value)
    (offers : ∀ pair ∈ pairs, ∀ text ∈ pair.2.text?, text ∈ offered) :
    match applyTexts decimal policy pairs memory result with
    | (.error failure, memory') => failure = .languageValidation ∧ start <+: memory'
    | (.ok result', memory') => ∃ current', Patching decimal policy offered start value
        (done ++ pairs.map Prod.fst) memory' result' current' := by
  induction pairs generalizing done memory result current with
  | nil => exact ⟨current, by simpa using patching⟩
  | cons pair rest ih =>
    obtain ⟨issue, answer⟩ := pair
    rw [applyTexts]
    cases given : answer.text? with
    | none => exact ⟨rfl, patching.grown⟩
    | some text =>
      have member : text ∈ offered := offers _ (List.mem_cons_self ..) text given
      have others : ∀ pair ∈ rest, ∀ text ∈ pair.2.text?, text ∈ offered := fun pair later =>
        offers pair (List.mem_cons_of_mem _ later)
      dsimp only
      split_ifs with suited
      · have next : Concerns (done ++ [issue]) value := by
          refine ⟨fun other member => concerns.there other ?_, ?_⟩
          · exact List.mem_append.mpr ((List.mem_append.mp member).imp_right (by simp_all))
          · have all := concerns.distinct
            rw [List.map_cons, List.append_cons, List.map_append] at all
            exact (List.nodup_append.mp all).1
        obtain ⟨memory', result', current', put, patching⟩ :=
          patching.step distinct next member (suits_iff suited)
        rw [put]
        have further : done ++ [issue] ++ rest.map Prod.fst =
            done ++ ((issue, answer) :: rest).map Prod.fst := by simp
        rw [← further] at concerns ⊢
        exact ih patching concerns others
      · exact ⟨rfl, patching.grown⟩

/-- The issues of an inspection are strings of the value, each at a place of its own. -/
theorem concerns_inspectLanguage {value : Json} (distinct : value.Distinct) :
    Concerns (inspectLanguage wrongLanguage value policy) value := by
  unfold inspectLanguage
  split_ifs with skipped
  · exact ⟨by simp, List.nodup_nil⟩
  · constructor
    · intro issue member
      obtain ⟨⟨path, text⟩, listed, found⟩ := List.mem_filterMap.mp member
      dsimp only at found
      split_ifs at found
      cases found
      exact (Json.mem_strings_iff distinct).mp listed
    · have paths := Json.strings_nodup distinct
      generalize value.strings = listed at paths
      refine List.Nodup.sublist ?_ paths
      clear paths
      induction listed with
      | nil => exact List.Sublist.refl _
      | cons string rest ih =>
        obtain ⟨path, text⟩ := string
        rw [List.filterMap_cons]
        dsimp only
        split
        · exact ih.cons path
        · rename_i issue found
          split_ifs at found
          cases found
          exact ih.cons_cons path

theorem patchTexts_eq_some {issues : List LanguageIssue} {patch : Json} {texts : List Json}
    (found : patchTexts issues patch = some texts) :
    (patch.get "texts").items? = some texts ∧ texts.length = issues.length := by
  obtain ⟨given, shape⟩ := Option.filter_eq_some_iff.mp found
  simp only [Bool.and_eq_true, decide_eq_true_eq] at shape
  exact ⟨given, shape.2⟩

/-- New objects do not change what a reference leads to. -/
theorem Memory.get_of_prefix {memory memory' : Memory} {ref : Ref} {value : Json}
    (grown : memory <+: memory') (input : memory.get ref = some value) :
    memory'.get ref = some value := by
  obtain ⟨younger, rfl⟩ := grown
  obtain ⟨object, found, there⟩ := Option.bind_eq_some_iff.mp input
  have small := (List.getElem?_eq_some_iff.mp found).1
  rw [Memory.get, List.getElem?_append_left small, found]
  exact there

theorem readAnswer_ne_lookup {raw : Json} : readAnswer limits raw ≠ .error .lookup := by
  intro answered
  rw [readAnswer] at answered
  split at answered
  · cases answered
  · split at answered <;> cases answered

variable (limits wrongLanguage decimal) (policy)

/-- The loop starts on a copy, in which nothing has been replaced. -/
theorem Patching.start {offered : List String} (memory : Memory) (value : Json) :
    Patching decimal policy offered memory value [] (memory ++ [value]) ⟨memory.length, []⟩ value :=
  ⟨List.prefix_append .., le_rfl, rfl, by simp [Memory.get], rfl, fun _ _ => rfl, by simp⟩

/-- A repair of the issues of a value, by any answer that the interpreter can take, gives a copy of
the value that has suitable texts in their places, and no issues; or it fails with a
`LanguageValidationError`. The value itself is not modified. -/
theorem applyRepair_spec {memory : Memory} {ref : Ref} {value : Json}
    (input : memory.get ref = some value) (distinct : value.Distinct) {raw : Json}
    (takes : ¬ Overruns limits (inspectLanguage wrongLanguage value policy) value raw) :
    RepairEnds limits wrongLanguage decimal policy memory ref value raw
      (applyRepair limits wrongLanguage decimal memory ref
        (inspectLanguage wrongLanguage value policy) raw policy).1
      (applyRepair limits wrongLanguage decimal memory ref
        (inspectLanguage wrongLanguage value policy) raw policy).2 := by
  have refused : RepairEnds limits wrongLanguage decimal policy memory ref value raw
      (.error .languageValidation) memory := ⟨List.prefix_rfl, input, rfl⟩
  rw [applyRepair]
  cases answered : readAnswer limits raw with
  | error failure =>
    cases failure with
    | languageValidation => exact refused
    | recursion => exact absurd (.inl answered) takes
    | lookup => exact absurd answered readAnswer_ne_lookup
  | ok patch =>
    dsimp only
    cases given : patchTexts (inspectLanguage wrongLanguage value policy) patch with
    | none => exact refused
    | some texts =>
      obtain ⟨listed, sized⟩ := patchTexts_eq_some given
      -- a patch of the right shape, and a value that can be copied
      have copied : limits.copies value = true := by
        by_contra deep
        refine takes (.inr ⟨patch, answered, ?_, by simpa using deep⟩)
        rw [given]
        rfl
      dsimp only
      rw [input]
      simp only [copied, Bool.not_true, Bool.false_eq_true, if_false]
      have issues : ((inspectLanguage wrongLanguage value policy).zip texts).map Prod.fst =
          inspectLanguage wrongLanguage value policy :=
        List.map_fst_zip sized.ge
      have concerns : Concerns ([] ++ ((inspectLanguage wrongLanguage value policy).zip
          texts).map Prod.fst) value := by
        rw [List.nil_append, issues]
        exact concerns_inspectLanguage distinct
      have offers : ∀ pair ∈ (inspectLanguage wrongLanguage value policy).zip texts,
          ∀ text ∈ pair.2.text?, text ∈ answerTexts limits raw := by
        intro pair member text here
        rw [answerTexts, answered]
        simp only [listed, Option.getD_some]
        exact List.mem_filterMap.mpr ⟨pair.2, (List.of_mem_zip member).2, here⟩
      have run :=
        applyTexts_spec (Patching.start decimal policy memory value) distinct concerns offers
      rw [List.nil_append, issues] at run
      split at run
      · exact ⟨run.2, Memory.get_of_prefix run.2 input, run.1⟩
      · obtain ⟨repaired, patching⟩ := run
        have kept := Memory.get_of_prefix patching.grown input
        simp only [patching.present]
        split_ifs with clean
        · exact ⟨patching.grown, kept, rfl⟩
        · rw [not_not] at clean
          exact ⟨patching.grown, kept, repaired, patching.present, patching.repaired, clean⟩

/-- Where the interpreter cannot take the answer or the value, a repair raises a
`RecursionError`. -/
theorem applyRepair_of_overruns {memory : Memory} {ref : Ref} {value : Json}
    (input : memory.get ref = some value) {issues : List LanguageIssue} {raw : Json}
    (overruns : Overruns limits issues value raw) :
    applyRepair limits wrongLanguage decimal memory ref issues raw policy =
      (.error .recursion, memory) := by
  rw [applyRepair]
  rcases overruns with deep | ⟨patch, answered, shaped, deep⟩
  · rw [deep]
  · obtain ⟨texts, given⟩ := Option.isSome_iff_exists.mp shaped
    simp [answered, given, input, deep]

/-- A repair keeps its promise exactly if the interpreter can take the answer and the value. -/
theorem repairEnds_iff {memory : Memory} {ref : Ref} {value : Json}
    (input : memory.get ref = some value) (distinct : value.Distinct) (raw : Json) :
    RepairEnds limits wrongLanguage decimal policy memory ref value raw
        (applyRepair limits wrongLanguage decimal memory ref
          (inspectLanguage wrongLanguage value policy) raw policy).1
        (applyRepair limits wrongLanguage decimal memory ref
          (inspectLanguage wrongLanguage value policy) raw policy).2 ↔
      ¬ Overruns limits (inspectLanguage wrongLanguage value policy) value raw := by
  constructor
  · intro ends overruns
    have failed := ends.result
    rw [applyRepair_of_overruns limits wrongLanguage decimal policy input overruns] at failed
    cases failed
  · exact applyRepair_spec limits wrongLanguage decimal policy input distinct

/-- An output with a Han word and a number. -/
def mixedValue : Json := .obj [("id", .int 7), ("text", .str "问题 12")]

/-- A policy for Vietnamese by characters only. -/
def plainPolicy : LanguagePolicy where
  target := ['v', 'i']
  version := 1
  resolved := isTag_vi
  supported := supported_one

/-- An interpreter that goes down a few levels. -/
def smallInterpreter : Interpreter := ⟨⟨some 4300, 5⟩, 3, 6⟩

theorem mixedValue_distinct : mixedValue.Distinct := by
  simp [mixedValue, Json.Distinct, Json.DistinctMembers]

/-- The word is replaced in a second object, and the number stays. -/
theorem repairEnds_mixed :
    ((Memory.get [mixedValue] ⟨0, []⟩ = some mixedValue ∧ mixedValue.Distinct) ∧
      RepairEnds smallInterpreter (fun _ _ => false) Char.isDigit plainPolicy [mixedValue] ⟨0, []⟩
        mixedValue (.str "\x7b\"texts\": [\"sửa 12\"]\x7d")
        (applyRepair smallInterpreter (fun _ _ => false) Char.isDigit [mixedValue] ⟨0, []⟩
          (inspectLanguage (fun _ _ => false) mixedValue plainPolicy)
          (.str "\x7b\"texts\": [\"sửa 12\"]\x7d") plainPolicy).1
        (applyRepair smallInterpreter (fun _ _ => false) Char.isDigit [mixedValue] ⟨0, []⟩
          (inspectLanguage (fun _ _ => false) mixedValue plainPolicy)
          (.str "\x7b\"texts\": [\"sửa 12\"]\x7d") plainPolicy).2) ∧
      (applyRepair smallInterpreter (fun _ _ => false) Char.isDigit [mixedValue] ⟨0, []⟩
        (inspectLanguage (fun _ _ => false) mixedValue plainPolicy)
        (.str "\x7b\"texts\": [\"sửa 12\"]\x7d") plainPolicy).1.toOption = some ⟨1, []⟩ := by
  have distinct := mixedValue_distinct
  refine ⟨⟨⟨rfl, distinct⟩, ?_⟩, by decide +kernel⟩
  apply (repairEnds_iff smallInterpreter (fun _ _ => false) Char.isDigit plainPolicy rfl distinct
    (.str "\x7b\"texts\": [\"sửa 12\"]\x7d")).mpr
  rintro (deep | ⟨patch, -, -, deep⟩)
  · have taken : (readAnswer smallInterpreter
        (.str "\x7b\"texts\": [\"sửa 12\"]\x7d")).toOption.isSome = true := by decide +kernel
    rw [deep] at taken
    cases taken
  · revert deep
    decide +kernel

/-- An answer that is nested too deep makes a repair fail in another way. -/
theorem repairEnds_deep :
    ¬ RepairEnds smallInterpreter (fun _ _ => false) Char.isDigit plainPolicy [mixedValue] ⟨0, []⟩
      mixedValue (.str "[[[[[[")
      (applyRepair smallInterpreter (fun _ _ => false) Char.isDigit [mixedValue] ⟨0, []⟩
        (inspectLanguage (fun _ _ => false) mixedValue plainPolicy) (.str "[[[[[[") plainPolicy).1
      (applyRepair smallInterpreter (fun _ _ => false) Char.isDigit [mixedValue] ⟨0, []⟩
        (inspectLanguage (fun _ _ => false) mixedValue plainPolicy) (.str "[[[[[[")
        plainPolicy).2 := by
  intro ends
  have deep : (applyRepair smallInterpreter (fun _ _ => false) Char.isDigit [mixedValue] ⟨0, []⟩
      (inspectLanguage (fun _ _ => false) mixedValue plainPolicy) (.str "[[[[[[")
      plainPolicy).1 = .error .recursion := by rfl
  have failed := ends.result
  rw [deep] at failed
  cases failed

end Repairs

end IntramindRuntime.Content
