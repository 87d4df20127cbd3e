import IntramindRuntime.Library.Json

/-!
# Shapes of JSON values

What a program asks about a value that it has not written itself: whether it is an object, by
which names, and what stands under a name. A missing member reads as null.

## Main definitions

* `Json.get`, `Json.text?`, `Json.items?` — a member, a text, the items of an array
* `Json.hasNames` — an object has members of the given names and no others
* `Json.IsDict` — an object stands for a dictionary

## Main results

* `Json.isDict_iff` — a dictionary is recognized by its names and its members
-/

namespace IntramindRuntime.Library

namespace Json

/-- A member, or null. -/
def get (name : String) (value : Json) : Json := (value.get? name).getD .null

/-- The text of a string. -/
def text? : Json → Option String
  | .str text => some text
  | _ => none

/-- The items of an array. -/
def items? : Json → Option (List Json)
  | .arr items => some items
  | _ => none

/-- The value is null. -/
def isNull : Json → Bool
  | .null => true
  | _ => false

/-- The names of an object. -/
def names : Json → List String
  | .obj members => members.map Prod.fst
  | _ => []

/-- The set of the names of an object is the given one. -/
def hasNames (value : Json) (names : List String) : Bool :=
  value.names.all (· ∈ names) && names.all (· ∈ value.names)

/-- An object with these members, whatever their order, and no others. -/
def IsDict (value : Json) (fields : List (String × Json)) : Prop :=
  value.isObj ∧ ∀ name, value.get? name = fields.lookup name

theorem text?_eq_some {value : Json} {text : String} :
    value.text? = some text ↔ value = .str text := by
  cases value <;> simp [text?]

theorem items?_eq_some {value : Json} {items : List Json} :
    value.items? = some items ↔ value = .arr items := by
  cases value <;> simp [items?]

theorem isNull_iff {value : Json} : value.isNull ↔ value = .null := by
  cases value <;> simp [isNull]

theorem isSome_lookup_iff {β : Type} {members : List (String × β)} {name : String} :
    (members.lookup name).isSome ↔ name ∈ members.map Prod.fst := by
  induction members with
  | nil => simp
  | cons member rest ih =>
    by_cases same : name = member.1
    · simp [same]
    · have other : (name == member.1) = false := beq_eq_false_iff_ne.mpr same
      rw [List.lookup_cons, other]
      simp [ih, same]

/-- An object has a member of a name exactly if the name is one of its names. -/
theorem isSome_get?_iff {value : Json} {name : String} :
    (value.get? name).isSome ↔ name ∈ value.names := by
  cases value with
  | obj members =>
    rw [get?, isSome_lookup_iff, names]
    simp
  | _ => simp [get?, names]

theorem hasNames_iff {value : Json} {expected : List String} :
    value.hasNames expected ↔ ∀ name, (value.get? name).isSome ↔ name ∈ expected := by
  simp only [hasNames, Bool.and_eq_true, List.all_eq_true, decide_eq_true_eq, isSome_get?_iff]
  constructor
  · rintro ⟨only, every⟩ name
    exact ⟨only name, every name⟩
  · intro same
    exact ⟨fun name => (same name).mp, fun name => (same name).mpr⟩

theorem get_eq_of_get? {value member : Json} {name : String} (has : value.get? name = some member) :
    value.get name = member := by
  simp [get, has]

/-- A dictionary is an object with the right names, each with the right member. -/
theorem isDict_iff {value : Json} {fields : List (String × Json)}
    (distinct : (fields.map Prod.fst).Nodup) : value.IsDict fields ↔
      value.isObj ∧ value.hasNames (fields.map Prod.fst) ∧
        ∀ field ∈ fields, value.get field.1 = field.2 := by
  have found : ∀ field ∈ fields, fields.lookup field.1 = some field.2 := fun field member =>
    (lookup_iff distinct).mpr member
  constructor
  · rintro ⟨isObj, same⟩
    refine ⟨isObj, ?_, ?_⟩
    · rw [hasNames_iff]
      intro name
      rw [same, isSome_lookup_iff]
    · intro field member
      exact get_eq_of_get? ((same field.1).trans (found field member))
  · rintro ⟨isObj, named, members⟩
    rw [hasNames_iff] at named
    refine ⟨isObj, ?_⟩
    intro name
    by_cases known : name ∈ fields.map Prod.fst
    · obtain ⟨field, member, rfl⟩ := List.mem_map.mp known
      obtain ⟨item, has⟩ := Option.isSome_iff_exists.mp ((named field.1).mpr known)
      rw [found field member, has, ← members field member, get_eq_of_get? has]
    · have missing := mt (named name).mp known
      have unknown := mt isSome_lookup_iff.mp known
      rw [Option.not_isSome_iff_eq_none] at missing unknown
      rw [missing, unknown]

end Json

end IntramindRuntime.Library
