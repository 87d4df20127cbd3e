import IntramindRuntime.Library.JsonShape

/-!
# Places in a JSON value

A place is named by the steps that lead to it. The strings of a value can be listed with their
places, and an item of a container can be replaced.

## Main definitions

* `Json.Key`, `Json.Path` — a step, and a place
* `Json.at?` — the value at a place
* `Json.assign`, `Json.assignAt` — replace an item of a container, at the root or deeper
* `Json.strings` — the strings of a value and where they are
* `Json.Distinct` — no object has two members of one name

## Main results

* `Json.at?_assignAt` — a replacement is seen at its place
* `Json.at?_assignAt_apart` — and at no other place that does not lead to it
* `Json.mem_strings_iff` — the listed strings are the strings of the value
* `Json.strings_nodup` — no place is listed twice
-/

namespace IntramindRuntime.Library

namespace Json

/-- A step into a container. -/
inductive Key
  | name (name : String)
  | index (i : ℕ)
  deriving DecidableEq, Repr

/-- A place in a value. -/
abbrev Path := List Key

/-- The item of a container. -/
def child? : Key → Json → Option Json
  | .name name, .obj members => (obj members).get? name
  | .index i, .arr items => items[i]?
  | _, _ => none

/-- The value at a place. -/
def at? : Path → Json → Option Json
  | [], value => some value
  | key :: rest, value => (value.child? key).bind (at? rest)

/-- The members with one of them replaced, or a new one added. -/
def setMember (name : String) (item : Json) (members : List (String × Json)) :
    List (String × Json) :=
  if name ∈ members.map Prod.fst then
    members.map fun member => if member.1 = name then (name, item) else member
  else members ++ [(name, item)]

/-- The container with an item replaced. An array cannot be extended in this way. -/
def assign : Json → Key → Json → Option Json
  | .obj members, .name name, item => some (.obj (setMember name item members))
  | .arr items, .index i, item => if i < items.length then some (.arr (items.set i item)) else none
  | _, _, _ => none

/-- The value after an assignment to an item of the container at a place. -/
def assignAt : Json → Path → Key → Json → Option Json
  | value, [], key, item => value.assign key item
  | value, first :: rest, key, item => do
    let child ← value.child? first
    let child ← child.assignAt rest key item
    value.assign first child

mutual

/-- The strings of a value that is at the place `path`, with their own places. -/
def stringsFrom (path : Path) : Json → List (Path × String)
  | .str text => [(path, text)]
  | .obj members => stringsOfMembers path members
  | .arr items => stringsOfItems path 0 items
  | _ => []

/-- `stringsFrom` for members. -/
def stringsOfMembers (path : Path) : List (String × Json) → List (Path × String)
  | [] => []
  | (name, item) :: rest => stringsFrom (path ++ [.name name]) item ++ stringsOfMembers path rest

/-- `stringsFrom` for items, the first of which has the index `i`. -/
def stringsOfItems (path : Path) (i : ℕ) : List Json → List (Path × String)
  | [] => []
  | item :: rest => stringsFrom (path ++ [.index i]) item ++ stringsOfItems path (i + 1) rest

end

/-- The strings of a value and where they are. -/
def strings (value : Json) : List (Path × String) := value.stringsFrom []

mutual

/-- No object has two members of one name. -/
def Distinct : Json → Prop
  | .arr items => DistinctItems items
  | .obj members => (members.map Prod.fst).Nodup ∧ DistinctMembers members
  | _ => True

/-- `Distinct` for the items of an array. -/
def DistinctItems : List Json → Prop
  | [] => True
  | item :: rest => item.Distinct ∧ DistinctItems rest

/-- `Distinct` for the values of members. -/
def DistinctMembers : List (String × Json) → Prop
  | [] => True
  | (_, value) :: rest => value.Distinct ∧ DistinctMembers rest

end

mutual

/-- The value without its texts. -/
def outline : Json → Json
  | .str _ => .str ""
  | .arr items => .arr (outlineItems items)
  | .obj members => .obj (outlineMembers members)
  | value => value

/-- `outline` for the items of an array. -/
def outlineItems : List Json → List Json
  | [] => []
  | item :: rest => item.outline :: outlineItems rest

/-- `outline` for the values of members. -/
def outlineMembers : List (String × Json) → List (String × Json)
  | [] => []
  | (name, value) :: rest => (name, value.outline) :: outlineMembers rest

end

/-! ### Replacements -/

theorem child?_name (name : String) (value : Json) :
    value.child? (.name name) = value.get? name := by
  cases value <;> rfl

@[simp] theorem at?_nil (value : Json) : value.at? [] = some value := rfl

theorem at?_cons (key : Key) (rest : Path) (value : Json) :
    value.at? (key :: rest) = (value.child? key).bind (at? rest) := rfl

theorem at?_append (first second : Path) (value : Json) :
    value.at? (first ++ second) = (value.at? first).bind (at? second) := by
  induction first generalizing value with
  | nil => rfl
  | cons key rest ih =>
    rw [List.cons_append, at?_cons, at?_cons]
    cases value.child? key with
    | none => rfl
    | some child => exact ih child

/-- A value that is no container has no items. -/
theorem at?_str_eq_none {text : String} {path : Path} (deeper : path ≠ []) :
    (Json.str text).at? path = none := by
  cases path with
  | nil => exact absurd rfl deeper
  | cons key rest => cases key <;> rfl

theorem get?_setMember (name other : String) (item : Json) (members : List (String × Json)) :
    (obj (setMember name item members)).get? other =
      if other = name then some item else (obj members).get? other := by
  unfold setMember
  split_ifs with known same same <;> simp only [get?]
  · subst same
    rw [← List.mem_reverse, ← List.map_reverse] at known
    rw [← List.map_reverse]
    generalize members.reverse = turned at known
    induction turned with
    | nil => simp at known
    | cons member rest ih =>
      rw [List.map_cons, List.lookup_cons]
      by_cases here : member.1 = other
      · simp [here]
      · have apart : (other == member.1) = false := beq_eq_false_iff_ne.mpr (Ne.symm here)
        simp only [if_neg here, apart]
        exact ih (by simpa [Ne.symm here] using known)
  · rw [← List.map_reverse]
    generalize members.reverse = turned
    induction turned with
    | nil => rfl
    | cons member rest ih =>
      rw [List.map_cons, List.lookup_cons, List.lookup_cons, ih]
      by_cases here : member.1 = name
      · have apart : (other == name) = false := beq_eq_false_iff_ne.mpr same
        simp [here, apart]
      · simp [here]
  · simp [same]
  · have apart : (other == name) = false := beq_eq_false_iff_ne.mpr same
    simp [List.lookup_cons, apart]

theorem child?_assign {key : Key} {item value next : Json} (assigned : value.assign key item = some next)
    (other : Key) : next.child? other = if other = key then some item else value.child? other := by
  cases value <;> cases key <;> simp only [assign, reduceCtorEq] at assigned
  case obj.name members name =>
    cases assigned
    cases other with
    | name other => simp [child?, get?_setMember]
    | index i => simp [child?]
  case arr.index items i =>
    split_ifs at assigned with small
    cases assigned
    cases other with
    | name other => simp [child?]
    | index j =>
      by_cases same : j = i
      · simp [child?, same, small]
      · have apart : i ≠ j := Ne.symm same
        simp [child?, same, apart]

/-- An item that is there can be replaced. -/
theorem assign_isSome {key : Key} {value : Json} (there : (value.child? key).isSome) (item : Json) :
    (value.assign key item).isSome := by
  cases value <;> cases key <;> simp_all [child?, assign]

theorem assignAt_isSome {path : Path} {key : Key} {value : Json}
    (there : (value.at? (path ++ [key])).isSome) (item : Json) :
    (value.assignAt path key item).isSome := by
  induction path generalizing value with
  | nil =>
    refine assign_isSome ?_ item
    rw [List.nil_append, at?_cons] at there
    cases found : value.child? key with
    | none => simp [found] at there
    | some child => rfl
  | cons first rest ih =>
    rw [List.cons_append, at?_cons] at there
    cases found : value.child? first with
    | none => simp [found] at there
    | some child =>
      rw [found, Option.bind_some] at there
      obtain ⟨next, assigned⟩ := Option.isSome_iff_exists.mp (ih there)
      simp only [assignAt, found, assigned, Option.bind_eq_bind, Option.bind_some]
      exact assign_isSome (by simp [found]) next

/-- A replacement is seen at its place. -/
theorem at?_assignAt {path : Path} {key : Key} {item value next : Json}
    (assigned : value.assignAt path key item = some next) :
    next.at? (path ++ [key]) = some item := by
  induction path generalizing value next with
  | nil => simp [at?_cons, child?_assign assigned]
  | cons first rest ih =>
    simp only [assignAt, Option.bind_eq_bind, Option.bind_eq_some_iff] at assigned
    obtain ⟨child, -, child', inner, outer⟩ := assigned
    rw [List.cons_append, at?_cons, child?_assign outer, if_pos rfl, Option.bind_some, ih inner]

/-- A replacement is not seen at a place that neither leads to it nor is within it. -/
theorem at?_assignAt_apart {path : Path} {key : Key} {item value next : Json}
    (assigned : value.assignAt path key item = some next) {other : Path}
    (before : ¬ other <+: path ++ [key]) (behind : ¬ path ++ [key] <+: other) :
    next.at? other = value.at? other := by
  induction path generalizing value next other with
  | nil =>
    cases other with
    | nil => exact absurd List.nil_prefix before
    | cons step further =>
      have apart : step ≠ key := by
        rintro rfl
        exact behind (List.cons_prefix_cons.mpr ⟨rfl, List.nil_prefix⟩)
      rw [at?_cons, at?_cons, child?_assign assigned, if_neg apart]
  | cons first rest ih =>
    simp only [assignAt, Option.bind_eq_bind, Option.bind_eq_some_iff] at assigned
    obtain ⟨child, found, child', inner, outer⟩ := assigned
    cases other with
    | nil => exact absurd List.nil_prefix before
    | cons step further =>
      rw [at?_cons, at?_cons, child?_assign outer]
      by_cases same : step = first
      · subst same
        rw [if_pos rfl, found, Option.bind_some, Option.bind_some]
        apply ih inner
        · exact fun more => before (List.cons_prefix_cons.mpr ⟨rfl, more⟩)
        · exact fun more => behind (List.cons_prefix_cons.mpr ⟨rfl, more⟩)
      · rw [if_neg same]

/-! ### Strings -/

/-- In an object with distinct names, a member is found by its name. -/
theorem get?_obj_iff {members : List (String × Json)} (distinct : (members.map Prod.fst).Nodup)
    {name : String} {item : Json} :
    (obj members).get? name = some item ↔ (name, item) ∈ members := by
  have turned : (members.reverse.map Prod.fst).Nodup := by
    rw [List.map_reverse]
    exact List.nodup_reverse.mpr distinct
  rw [get?, lookup_iff turned, List.mem_reverse]

mutual

/-- The listed strings are the strings of the value, each with its place. -/
theorem mem_stringsFrom_iff {value : Json} (distinct : value.Distinct) {base path : Path}
    {text : String} : (path, text) ∈ value.stringsFrom base ↔
      ∃ inner, path = base ++ inner ∧ value.at? inner = some (.str text) := by
  cases value with
  | str other =>
    constructor
    · intro member
      cases List.mem_singleton.mp member
      exact ⟨[], (List.append_nil _).symm, rfl⟩
    · rintro ⟨inner, rfl, found⟩
      cases inner with
      | nil =>
        cases Option.some.inj found
        simp [stringsFrom]
      | cons key rest => simp [at?_str_eq_none] at found
  | obj members =>
    rw [stringsFrom, mem_stringsOfMembers_iff distinct.2]
    constructor
    · rintro ⟨name, item, member, inner, rfl, found⟩
      refine ⟨.name name :: inner, rfl, ?_⟩
      rw [at?_cons, child?, (get?_obj_iff distinct.1).mpr member]
      exact found
    · rintro ⟨inner, rfl, found⟩
      cases inner with
      | nil => exact nomatch Option.some.inj found
      | cons key rest =>
        obtain ⟨item, child, deeper⟩ := Option.bind_eq_some_iff.mp found
        cases key with
        | index i => exact nomatch child
        | name name => exact ⟨name, item, (get?_obj_iff distinct.1).mp child, rest, rfl, deeper⟩
  | arr items =>
    rw [stringsFrom, mem_stringsOfItems_iff distinct]
    constructor
    · rintro ⟨i, item, there, inner, rfl, found⟩
      refine ⟨.index i :: inner, by rw [Nat.zero_add], ?_⟩
      rw [at?_cons, child?, there]
      exact found
    · rintro ⟨inner, rfl, found⟩
      cases inner with
      | nil => exact nomatch Option.some.inj found
      | cons key rest =>
        obtain ⟨item, child, deeper⟩ := Option.bind_eq_some_iff.mp found
        cases key with
        | name name => exact nomatch child
        | index i => exact ⟨i, item, child, rest, by rw [Nat.zero_add], deeper⟩
  | null | bool _ | int _ | real _ =>
    simp only [stringsFrom, List.not_mem_nil, false_iff, not_exists, not_and]
    rintro (_ | ⟨_ | _, rest⟩) - <;> simp [at?_cons, child?]

theorem mem_stringsOfMembers_iff {members : List (String × Json)}
    (distinct : DistinctMembers members) {base path : Path} {text : String} :
    (path, text) ∈ stringsOfMembers base members ↔
      ∃ name item, (name, item) ∈ members ∧
        ∃ inner, path = base ++ .name name :: inner ∧ item.at? inner = some (.str text) := by
  cases members with
  | nil => simp [stringsOfMembers]
  | cons member rest =>
    obtain ⟨name, item⟩ := member
    rw [stringsOfMembers, List.mem_append, mem_stringsFrom_iff distinct.1,
      mem_stringsOfMembers_iff distinct.2]
    constructor
    · rintro (⟨inner, rfl, found⟩ | ⟨other, item, later, further⟩)
      · exact ⟨name, item, List.mem_cons_self .., inner, by simp, found⟩
      · exact ⟨other, item, List.mem_cons_of_mem _ later, further⟩
    · rintro ⟨other, child, member, inner, rfl, found⟩
      rcases List.mem_cons.mp member with here | later
      · cases here
        exact .inl ⟨inner, by simp, found⟩
      · exact .inr ⟨other, child, later, inner, rfl, found⟩

theorem mem_stringsOfItems_iff {items : List Json} (distinct : DistinctItems items) {base : Path}
    {start : ℕ} {path : Path} {text : String} :
    (path, text) ∈ stringsOfItems base start items ↔
      ∃ i item, items[i]? = some item ∧
        ∃ inner, path = base ++ .index (start + i) :: inner ∧
          item.at? inner = some (.str text) := by
  cases items with
  | nil => simp [stringsOfItems]
  | cons item rest =>
    rw [stringsOfItems, List.mem_append, mem_stringsFrom_iff distinct.1,
      mem_stringsOfItems_iff distinct.2]
    constructor
    · rintro (⟨inner, rfl, found⟩ | ⟨i, child, there, inner, rfl, found⟩)
      · exact ⟨0, item, rfl, inner, by simp, found⟩
      · exact ⟨i + 1, child, there, inner, by rw [Nat.add_assoc, Nat.add_comm 1], found⟩
    · rintro ⟨i, child, there, inner, rfl, found⟩
      cases i with
      | zero =>
        cases Option.some.inj there
        exact .inl ⟨inner, by simp, found⟩
      | succ i => exact .inr ⟨i, child, there, inner, by rw [Nat.add_assoc, Nat.add_comm 1], found⟩

end

theorem mem_strings_iff {value : Json} (distinct : value.Distinct) {path : Path} {text : String} :
    (path, text) ∈ value.strings ↔ value.at? path = some (.str text) := by
  rw [strings, mem_stringsFrom_iff distinct]
  simp

mutual

/-- No place is listed twice. -/
theorem stringsFrom_nodup {value : Json} (distinct : value.Distinct) (base : Path) :
    ((value.stringsFrom base).map Prod.fst).Nodup := by
  cases value with
  | obj members => exact stringsOfMembers_nodup distinct.2 distinct.1 base
  | arr items => exact stringsOfItems_nodup distinct base 0
  | str _ | null | bool _ | int _ | real _ => simp [stringsFrom]

theorem stringsOfMembers_nodup {members : List (String × Json)}
    (distinct : DistinctMembers members) (names : (members.map Prod.fst).Nodup) (base : Path) :
    ((stringsOfMembers base members).map Prod.fst).Nodup := by
  cases members with
  | nil => exact List.nodup_nil
  | cons member rest =>
    obtain ⟨name, item⟩ := member
    obtain ⟨new, names⟩ := List.nodup_cons.mp names
    rw [stringsOfMembers, List.map_append]
    refine (stringsFrom_nodup distinct.1 _).append (stringsOfMembers_nodup distinct.2 names base) ?_
    -- a common place would begin with one name and with another
    intro path first second
    obtain ⟨⟨_, text⟩, member, rfl⟩ := List.mem_map.mp first
    obtain ⟨⟨_, other⟩, further, same⟩ := List.mem_map.mp second
    obtain ⟨inner, rfl, -⟩ := (mem_stringsFrom_iff distinct.1).mp member
    obtain ⟨other, child, later, inner', path, -⟩ :=
      (mem_stringsOfMembers_iff distinct.2).mp further
    have common := same.symm.trans path
    rw [List.append_assoc] at common
    cases List.append_cancel_left common
    exact new (List.mem_map.mpr ⟨_, later, rfl⟩)

theorem stringsOfItems_nodup {items : List Json} (distinct : DistinctItems items) (base : Path)
    (start : ℕ) : ((stringsOfItems base start items).map Prod.fst).Nodup := by
  cases items with
  | nil => exact List.nodup_nil
  | cons item rest =>
    rw [stringsOfItems, List.map_append]
    refine (stringsFrom_nodup distinct.1 _).append
      (stringsOfItems_nodup distinct.2 base (start + 1)) ?_
    intro path first second
    obtain ⟨⟨_, text⟩, member, rfl⟩ := List.mem_map.mp first
    obtain ⟨⟨_, other⟩, further, same⟩ := List.mem_map.mp second
    obtain ⟨inner, rfl, -⟩ := (mem_stringsFrom_iff distinct.1).mp member
    obtain ⟨i, child, there, inner', path, -⟩ := (mem_stringsOfItems_iff distinct.2).mp further
    have common := same.symm.trans path
    rw [List.append_assoc] at common
    have index := List.append_cancel_left common
    simp only [List.cons_append, List.cons.injEq, Key.index.injEq] at index
    omega

end

theorem strings_nodup {value : Json} (distinct : value.Distinct) :
    (value.strings.map Prod.fst).Nodup :=
  stringsFrom_nodup distinct []

/-- Of two strings of a value, neither is within the other. -/
theorem path_eq_of_prefix {value : Json} {first second : Path} {text other : String}
    (here : value.at? first = some (.str text)) (there : value.at? second = some (.str other))
    (leads : first <+: second) : first = second := by
  obtain ⟨further, rfl⟩ := leads
  rw [at?_append, here, Option.bind_some] at there
  by_cases none : further = []
  · rw [none, List.append_nil]
  · rw [at?_str_eq_none none] at there
    exact nomatch there

/-! ### Outlines -/

theorem outlineItems_eq (items : List Json) : outlineItems items = items.map outline := by
  induction items with
  | nil => rfl
  | cons item rest ih => rw [outlineItems, ih, List.map_cons]

theorem outlineMembers_eq (members : List (String × Json)) :
    outlineMembers members = members.map fun member => (member.1, member.2.outline) := by
  induction members with
  | nil => rfl
  | cons member rest ih => rw [outlineMembers, ih, List.map_cons]

mutual

/-- The texts of a value do not matter for its names. -/
theorem distinct_outline_iff (value : Json) : value.outline.Distinct ↔ value.Distinct := by
  cases value with
  | arr items => exact distinctItems_outline_iff items
  | obj members =>
    have names : (outlineMembers members).map Prod.fst = members.map Prod.fst := by
      rw [outlineMembers_eq, List.map_map]
      rfl
    rw [outline, Distinct, Distinct, names, distinctMembers_outline_iff members]
  | str _ | null | bool _ | int _ | real _ => simp [outline, Distinct]

theorem distinctItems_outline_iff (items : List Json) :
    DistinctItems (outlineItems items) ↔ DistinctItems items := by
  cases items with
  | nil => exact Iff.rfl
  | cons item rest =>
    rw [outlineItems, DistinctItems, DistinctItems, distinct_outline_iff item,
      distinctItems_outline_iff rest]

theorem distinctMembers_outline_iff (members : List (String × Json)) :
    DistinctMembers (outlineMembers members) ↔ DistinctMembers members := by
  cases members with
  | nil => exact Iff.rfl
  | cons member rest =>
    obtain ⟨name, value⟩ := member
    rw [outlineMembers, DistinctMembers, DistinctMembers, distinct_outline_iff value,
      distinctMembers_outline_iff rest]

end

/-- An item with the same outline does not change the outline of the container. -/
theorem outline_assign {key : Key} {value item other next : Json} (distinct : value.Distinct)
    (here : value.child? key = some item) (same : other.outline = item.outline)
    (assigned : value.assign key other = some next) : next.outline = value.outline := by
  cases value <;> cases key <;> simp only [assign, reduceCtorEq] at assigned
  case obj.name members name =>
    cases assigned
    have only {item : Json} : (obj members).get? name = some item ↔ (name, item) ∈ members :=
      get?_obj_iff distinct.1
    have known : name ∈ members.map Prod.fst :=
      List.mem_map.mpr ⟨_, only.mp here, rfl⟩
    rw [outline, outline, outlineMembers_eq, outlineMembers_eq, setMember, if_pos known,
      List.map_map]
    refine congrArg Json.obj (List.map_congr_left ?_)
    rintro ⟨first, value⟩ member
    by_cases named : first = name
    · subst named
      have found : some item = some value := here.symm.trans (only.mpr member)
      simp [same, Option.some.inj found]
    · simp [named]
  case arr.index items i =>
    split_ifs at assigned with small
    cases assigned
    have there : items[i] = item := by
      simpa [child?, small] using here
    rw [outline, outline, outlineItems_eq, outlineItems_eq, List.map_set, same, ← there]
    congr 1
    apply List.ext_getElem
    · simp
    · intro j first second
      by_cases here : i = j
      · subst here
        simp
      · simp [here]

theorem distinctItems_iff {items : List Json} :
    DistinctItems items ↔ ∀ item ∈ items, item.Distinct := by
  induction items with
  | nil => simp [DistinctItems]
  | cons item rest ih => simp [DistinctItems, ih]

theorem distinctMembers_iff {members : List (String × Json)} :
    DistinctMembers members ↔ ∀ member ∈ members, member.2.Distinct := by
  induction members with
  | nil => simp [DistinctMembers]
  | cons member rest ih => simp [DistinctMembers, ih]

theorem Distinct.child {key : Key} {value item : Json} (distinct : value.Distinct)
    (here : value.child? key = some item) : item.Distinct := by
  cases value <;> cases key <;> simp only [child?, reduceCtorEq] at here
  case obj.name members name =>
    exact distinctMembers_iff.mp distinct.2 _ ((get?_obj_iff distinct.1).mp here)
  case arr.index items i => exact distinctItems_iff.mp distinct _ (List.mem_of_getElem? here)

/-- Another text in the place of a text does not change the outline. -/
theorem outline_assignAt {path : Path} {key : Key} {value next : Json} {text other : String}
    (distinct : value.Distinct) (here : value.at? (path ++ [key]) = some (.str text))
    (assigned : value.assignAt path key (.str other) = some next) :
    next.outline = value.outline := by
  induction path generalizing value next with
  | nil =>
    obtain ⟨item, child, same⟩ := Option.bind_eq_some_iff.mp here
    cases Option.some.inj same
    exact outline_assign distinct child (rfl : (Json.str other).outline = _) assigned
  | cons first rest ih =>
    simp only [assignAt, Option.bind_eq_bind, Option.bind_eq_some_iff] at assigned
    obtain ⟨child, found, child', inner, outer⟩ := assigned
    rw [List.cons_append, at?_cons, found, Option.bind_some] at here
    exact outline_assign distinct found (ih (distinct.child found) here inner) outer

end Json

end IntramindRuntime.Library
