import Mathlib.Data.List.Sort

/-!
# JSON values

JSON values and the compact text that a serializer writes for them. A number is an
integer, or a real number that is kept as its text. The members of an object are a list;
where a name occurs twice, the last one counts.

## Main definitions

* `Json` — JSON values
* `Json.get?` — a member of an object
* `Json.sortKeys` — every object with its members in the order of their names
* `Json.dumps`, `Json.encode` — the compact text of a value, as it is and with sorted names
-/

namespace IntramindRuntime.Library

/-- Texts that a document may lack are compared. -/
instance lawfulBEq_optionString : LawfulBEq (Option String) := inferInstance

/-- JSON values. -/
inductive Json
  | null
  | bool (b : Bool)
  | int (n : ℤ)
  /-- A number with a fraction or an exponent. -/
  | real (text : String)
  | str (text : String)
  | arr (items : List Json)
  | obj (members : List (String × Json))
  deriving Repr

namespace Json

/-- The value is an object. -/
def isObj : Json → Bool
  | .obj _ => true
  | _ => false

/-- A member of an object. Of two members with one name, the last one counts. -/
def get? (name : String) : Json → Option Json
  | .obj members => members.reverse.lookup name
  | _ => none

/-- The members of an object in the order of their names. -/
def sortNames (members : List (String × Json)) : List (String × Json) :=
  members.insertionSort fun a b => a.1 ≤ b.1

mutual

/-- Every object of a value with its members in order. -/
def sortKeys : Json → Json
  | .arr items => .arr (sortItems items)
  | .obj members => .obj (sortNames (sortMembers members))
  | value => value

/-- `sortKeys` for the items of an array. -/
def sortItems : List Json → List Json
  | [] => []
  | item :: rest => item.sortKeys :: sortItems rest

/-- `sortKeys` for the values of members. -/
def sortMembers : List (String × Json) → List (String × Json)
  | [] => []
  | (name, value) :: rest => (name, value.sortKeys) :: sortMembers rest

end

/-- A hexadecimal digit. -/
def hexDigit (n : ℕ) : Char := "0123456789abcdef".toList.getD n '0'

/-- A character of a string. Quotes, backslashes and control characters are escaped, all
other characters stay as they are. -/
def escape (c : Char) : List Char :=
  if c = '"' then ['\\', '"']
  else if c = '\\' then ['\\', '\\']
  else if c = '\n' then ['\\', 'n']
  else if c = '\r' then ['\\', 'r']
  else if c = '\t' then ['\\', 't']
  else if c = '\x08' then ['\\', 'b']
  else if c = '\x0c' then ['\\', 'f']
  else if c.toNat < 0x20 then
    ['\\', 'u', '0', '0', hexDigit (c.toNat / 16), hexDigit (c.toNat % 16)]
  else [c]

/-- The decimal digits of an integer, with its sign. -/
def digits : ℤ → List Char
  | .ofNat n => Nat.toDigits 10 n
  | .negSucc n => '-' :: Nat.toDigits 10 (n + 1)

/-- A string with its quotes. -/
def quote (text : String) : List Char := '"' :: (text.toList.flatMap escape ++ ['"'])

mutual

/-- The compact text of a value. -/
def dumps : Json → List Char
  | .null => ['n', 'u', 'l', 'l']
  | .bool true => ['t', 'r', 'u', 'e']
  | .bool false => ['f', 'a', 'l', 's', 'e']
  | .int n => digits n
  | .real text => text.toList
  | .str text => quote text
  | .arr items => '[' :: (dumpsItems items ++ [']'])
  | .obj members => '{' :: (dumpsMembers members ++ ['}'])

/-- The items of an array, with commas between them. -/
def dumpsItems : List Json → List Char
  | [] => []
  | item :: rest => item.dumps ++ dumpsMoreItems rest

/-- Further items of an array. -/
def dumpsMoreItems : List Json → List Char
  | [] => []
  | item :: rest => ',' :: (item.dumps ++ dumpsMoreItems rest)

/-- The members of an object, with commas between them. -/
def dumpsMembers : List (String × Json) → List Char
  | [] => []
  | (name, value) :: rest => quote name ++ (':' :: (value.dumps ++ dumpsMoreMembers rest))

/-- Further members of an object. -/
def dumpsMoreMembers : List (String × Json) → List Char
  | [] => []
  | (name, value) :: rest =>
    ',' :: (quote name ++ (':' :: (value.dumps ++ dumpsMoreMembers rest)))

end

/-- The compact text of a value with the names of its members in order. -/
def encode (value : Json) : List Char := value.sortKeys.dumps

example : encode (.obj [("b", .arr [.int (-3), .str "a\n"]), ("a", .null)]) =
    "\x7b\"a\":null,\"b\":[-3,\"a\\n\"]\x7d".toList := by
  decide +kernel

/-! ### Members in order -/

theorem sortMembers_eq (members : List (String × Json)) :
    sortMembers members = members.map fun member => (member.1, member.2.sortKeys) := by
  induction members with
  | nil => rfl
  | cons member rest ih => rw [sortMembers, ih, List.map_cons]

/-- Where names are distinct, a member is found by its name. -/
theorem lookup_iff {members : List (String × Json)} (distinct : (members.map Prod.fst).Nodup)
    {name : String} {value : Json} :
    members.lookup name = some value ↔ (name, value) ∈ members := by
  induction members with
  | nil => simp
  | cons member rest ih =>
    obtain ⟨first, here⟩ := member
    simp only [List.map_cons, List.nodup_cons] at distinct
    by_cases same : name = first
    · subst same
      have absent : (name, value) ∉ rest := fun member =>
        distinct.1 (List.mem_map_of_mem member)
      simp [absent, eq_comm]
    · have other : (name == first) = false := by simpa using same
      rw [List.lookup_cons, other]
      simp only [ih distinct.2, List.mem_cons, Prod.mk.injEq, same, false_and, false_or]

/-- The order of members does not matter where names are distinct. -/
theorem get?_perm {first second : List (String × Json)} (perm : first.Perm second)
    (distinct : (first.map Prod.fst).Nodup) (name : String) :
    (obj first).get? name = (obj second).get? name := by
  have other : (second.map Prod.fst).Nodup := (perm.map Prod.fst).nodup_iff.mp distinct
  have turned {l : List (String × Json)} (nodup : (l.map Prod.fst).Nodup) :
      (l.reverse.map Prod.fst).Nodup := by
    rw [List.map_reverse]
    exact List.nodup_reverse.mpr nodup
  apply Option.ext
  intro value
  simp only [get?]
  rw [lookup_iff (turned distinct), lookup_iff (turned other), List.mem_reverse,
    List.mem_reverse, perm.mem_iff]

theorem get?_sortKeys {members : List (String × Json)}
    (distinct : (members.map Prod.fst).Nodup) (name : String) :
    (obj members).sortKeys.get? name = ((obj members).get? name).map sortKeys := by
  have names : ((sortMembers members).map Prod.fst).Nodup := by
    rw [sortMembers_eq, List.map_map]
    exact distinct
  have sorted : (sortNames (sortMembers members)).Perm (sortMembers members) :=
    List.perm_insertionSort _ _
  rw [sortKeys, ← get?_perm sorted.symm names, get?, get?, sortMembers_eq, ← List.map_reverse]
  generalize members.reverse = turned
  induction turned with
  | nil => rfl
  | cons member rest ih =>
    obtain ⟨first, here⟩ := member
    rw [List.map_cons, List.lookup_cons, List.lookup_cons, ih]
    cases name == first <;> rfl

end Json

end IntramindRuntime.Library
