import IntramindRuntime.Library.JsonShape
import Mathlib.Data.Set.Insert
import Mathlib.Order.Interval.Set.Basic

/-!
# Conversations

A request carries a conversation, and before its prompt is sized the conversation is checked
turn by turn. An assistant may ask for tools; every call must then be answered, before anything
else is said, and no call may reuse the identity of an earlier one.

## Main definitions

* `validateMessages` — the check
* `Conversation` — the conversations that it is meant to accept, with the identities of their
  calls in order

## Main results

* `nextTurn_ok_iff` — the turns that the check goes on after
* `validateMessages_ok_iff` — the check accepts the conversations whose calls have distinct
  identities, and nothing else
-/

namespace IntramindRuntime.Content

open Library

/-! ### The check -/

/-- The calls that wait for a result, and all calls so far. -/
structure Calls where
  pending : List String := []
  seen : List String := []

/-- Checks a call of an assistant turn. A call without a text for its identity has none. -/
def nextCall (calls : Calls) (call : Json) : Except String Calls :=
  let id := (call.get "id").text?.getD ""
  if !call.isObj || !call.hasNames ["id", "type", "function"] ||
      (call.get "type").text? ≠ some "function" || id = "" || id ∈ calls.seen then
    .error "invalid or duplicate tool call identity"
  else
    let function := call.get "function"
    if !function.isObj || !function.hasNames ["name", "arguments"] ||
        (function.get "name").text?.isNone || (function.get "arguments").text?.isNone then
      .error "invalid tool call"
    else .ok ⟨id :: calls.pending, id :: calls.seen⟩

/-- Checks one turn. -/
def nextTurn (allowTools : Bool) (calls : Calls) (message : Json) : Except String Calls :=
  if !message.isObj then .error "invalid chat message"
  else
    let role := (message.get "role").text?
    if role = some "tool" && allowTools then
      let id := (message.get "tool_call_id").text?
      if !message.hasNames ["role", "content", "tool_call_id"] ||
          (message.get "content").text?.isNone || !id.any (· ∈ calls.pending) then
        .error "tool result does not match an outstanding call"
      else .ok { calls with pending := calls.pending.erase (id.getD "") }
    else if calls.pending ≠ [] then .error "tool calls require results before another turn"
    else if allowTools && role = some "assistant" && !(message.get "tool_calls").isNull then
      let items := (message.get "tool_calls").items?.getD []
      -- what is no list counts as a list that is too short
      if !message.hasNames ["role", "content", "tool_calls"] ||
          !(message.get "content").isNull && (message.get "content").text?.isNone ||
          !(1 ≤ items.length ∧ items.length ≤ 16) then
        .error "invalid assistant tool turn"
      else items.foldlM nextCall calls
    else if !message.hasNames ["role", "content"] ||
        role ∉ [some "system", some "user", some "assistant"] ||
        (message.get "content").text?.isNone then
      .error "unsupported chat message for this tokenizer contract"
    else .ok calls

/-- `validate_messages`. -/
def validateMessages (messages : Json) (allowTools : Bool) : Except String Unit :=
  let turns := messages.items?.getD []
  if turns.isEmpty then .error "a non-empty conversation is required"
  else do
    let calls ← turns.foldlM (nextTurn allowTools) {}
    if calls.pending ≠ [] then .error "conversation contains unfinished tool calls"

/-! ### The grammar -/

/-- A turn that only says something. -/
def Plain (turn : Json) : Prop :=
  ∃ role ∈ ["system", "user", "assistant"], ∃ text : String,
    turn.IsDict [("role", .str role), ("content", .str text)]

/-- A call of a function, by its identity. -/
def IsCall (id : String) (call : Json) : Prop :=
  id ≠ "" ∧ ∃ (name arguments : String) (function : Json),
    function.IsDict [("name", .str name), ("arguments", .str arguments)] ∧
    call.IsDict [("id", .str id), ("type", .str "function"), ("function", function)]

/-- An assistant turn that calls functions. -/
def Asks (ids : List String) (turn : Json) : Prop :=
  ∃ content calls, (content = .null ∨ ∃ text, content = .str text) ∧
    calls.length ∈ Set.Icc 1 16 ∧ List.Forall₂ IsCall ids calls ∧
    turn.IsDict [("role", .str "assistant"), ("content", content), ("tool_calls", .arr calls)]

/-- A tool turn, the result of a call. -/
def Answers (id : String) (turn : Json) : Prop :=
  ∃ text : String,
    turn.IsDict [("role", .str "tool"), ("content", .str text), ("tool_call_id", .str id)]

/-- A sequence of plain turns and, where tools are allowed, of blocks: an assistant turn with
calls, and one result for each of them in any order. -/
inductive Conversation (allowTools : Bool) : List String → List Json → Prop
  | nil : Conversation allowTools [] []
  | plain {ids : List String} {turn : Json} {rest : List Json} (plain : Plain turn)
      (further : Conversation allowTools ids rest) : Conversation allowTools ids (turn :: rest)
  | block {asked answered ids : List String} {turn : Json} {replies rest : List Json}
      (tools : allowTools = true) (asks : Asks asked turn) (all : answered.Perm asked)
      (answers : List.Forall₂ Answers answered replies)
      (further : Conversation allowTools ids rest) :
      Conversation allowTools (asked ++ ids) (turn :: (replies ++ rest))

/-! ### Turns -/

theorem isCall_iff {id : String} {call : Json} : IsCall id call ↔
    id ≠ "" ∧ call.isObj ∧ call.hasNames ["id", "type", "function"] ∧
      (call.get "id").text? = some id ∧ (call.get "type").text? = some "function" ∧
      (call.get "function").isObj ∧ (call.get "function").hasNames ["name", "arguments"] ∧
      ((call.get "function").get "name").text?.isSome ∧
      ((call.get "function").get "arguments").text?.isSome := by
  simp only [IsCall, Option.isSome_iff_exists, Json.text?_eq_some]
  constructor
  · rintro ⟨named, name, arguments, function, inner, outer⟩
    rw [Json.isDict_iff (by simp)] at inner outer
    simp only [List.forall_mem_cons, List.map_cons, List.map_nil] at inner outer
    obtain ⟨isObj, names, hasId, hasType, rfl, -⟩ := outer
    obtain ⟨innerObj, innerNames, hasName, hasArguments, -⟩ := inner
    exact ⟨named, isObj, names, hasId, hasType, innerObj, innerNames, ⟨name, hasName⟩,
      ⟨arguments, hasArguments⟩⟩
  · rintro ⟨named, isObj, names, hasId, hasType, innerObj, innerNames, ⟨name, hasName⟩,
      ⟨arguments, hasArguments⟩⟩
    refine ⟨named, name, arguments, call.get "function", ?_, ?_⟩
    · rw [Json.isDict_iff (by simp)]
      simp [innerObj, innerNames, hasName, hasArguments]
    · rw [Json.isDict_iff (by simp)]
      simp [isObj, names, hasId, hasType]

/-- A call is accepted if it is well formed and new. -/
theorem nextCall_ok_iff {calls next : Calls} {call : Json} : nextCall calls call = .ok next ↔
    ∃ id, IsCall id call ∧ id ∉ calls.seen ∧ next = ⟨id :: calls.pending, id :: calls.seen⟩ := by
  simp only [isCall_iff]
  cases hasId : (call.get "id").text? with
  | none => simp [nextCall, hasId]
  | some id =>
    simp only [nextCall, hasId, Option.getD_some]
    split_ifs with outer inner
    · simp only [false_iff, not_exists]
      rintro other ⟨⟨named, isObj, names, same, hasType, -⟩, new, -⟩
      cases same
      simp [named, isObj, names, hasType, new] at outer
    · simp only [false_iff, not_exists]
      rintro other ⟨⟨-, -, -, -, -, isObj, names, hasName, hasArguments⟩, -⟩
      rw [Option.isSome_iff_ne_none] at hasName hasArguments
      simp [isObj, names, hasName, hasArguments] at inner
    · simp only [Bool.or_eq_true, not_or, Bool.not_eq_true', decide_eq_true_eq, not_not,
        Bool.not_eq_true, Bool.not_eq_false, Option.isNone_eq_false_iff] at outer inner
      obtain ⟨⟨⟨⟨isObj, names⟩, hasType⟩, named⟩, new⟩ := outer
      obtain ⟨⟨⟨innerObj, innerNames⟩, hasName⟩, hasArguments⟩ := inner
      constructor
      · intro ok
        exact ⟨id, ⟨named, isObj, names, rfl, hasType, innerObj, innerNames, hasName,
          hasArguments⟩, new, (Except.ok.inj ok).symm⟩
      · rintro ⟨other, ⟨-, -, -, same, -⟩, -, rfl⟩
        cases same
        rfl

/-- The calls of a turn are accepted if all are well formed, and new one after another. -/
theorem foldlM_nextCall_ok_iff {calls next : Calls} {items : List Json} :
    items.foldlM nextCall calls = .ok next ↔
      ∃ ids, List.Forall₂ IsCall ids items ∧ ids.Nodup ∧ (∀ id ∈ ids, id ∉ calls.seen) ∧
        next = ⟨ids.reverse ++ calls.pending, ids.reverse ++ calls.seen⟩ := by
  induction items generalizing calls with
  | nil =>
    constructor
    · intro ok
      exact ⟨[], .nil, List.nodup_nil, by simp, (Except.ok.inj ok).symm⟩
    · rintro ⟨ids, none, -, -, rfl⟩
      cases none
      rfl
  | cons call rest ih =>
    rw [List.foldlM_cons]
    constructor
    · intro ok
      cases first : nextCall calls call with
      | error text =>
        rw [first] at ok
        exact nomatch ok
      | ok between =>
        rw [first] at ok
        obtain ⟨id, isCall, new, rfl⟩ := nextCall_ok_iff.mp first
        obtain ⟨ids, areCalls, distinct, fresh, rfl⟩ := ih.mp ok
        have apart : id ∉ ids := fun member => fresh id member (List.mem_cons_self ..)
        refine ⟨id :: ids, .cons isCall areCalls, List.nodup_cons.mpr ⟨apart, distinct⟩, ?_, ?_⟩
        · intro other member
          rcases List.mem_cons.mp member with rfl | further
          · exact new
          · exact fun old => fresh other further (List.mem_cons_of_mem _ old)
        · simp
    · rintro ⟨ids, areCalls, distinct, fresh, rfl⟩
      cases areCalls with
      | @cons id _ ids _ isCall areCalls =>
        have new : id ∉ calls.seen := fresh id (List.mem_cons_self ..)
        obtain ⟨apart, distinct⟩ := List.nodup_cons.mp distinct
        rw [nextCall_ok_iff.mpr ⟨id, isCall, new, rfl⟩]
        apply ih.mpr
        refine ⟨ids, areCalls, distinct, ?_, by simp⟩
        intro other further old
        rcases List.mem_cons.mp old with rfl | old
        · exact apart further
        · exact fresh other (List.mem_cons_of_mem _ further) old

theorem plain_iff {turn : Json} : Plain turn ↔
    turn.isObj ∧ turn.hasNames ["role", "content"] ∧
      (turn.get "role").text? ∈ [some "system", some "user", some "assistant"] ∧
      (turn.get "content").text?.isSome := by
  simp only [Plain, Option.isSome_iff_exists, Json.text?_eq_some]
  constructor
  · rintro ⟨role, known, text, dict⟩
    rw [Json.isDict_iff (by simp)] at dict
    obtain ⟨isObj, names, hasRole, hasContent, -⟩ := by
      simpa only [List.forall_mem_cons, List.map_cons, List.map_nil] using dict
    refine ⟨isObj, names, ?_, text, hasContent⟩
    rw [hasRole]
    simpa [Json.text?] using known
  · rintro ⟨isObj, names, known, text, hasContent⟩
    cases hasRole : (turn.get "role").text? with
    | none => simp [hasRole] at known
    | some role =>
      rw [Json.text?_eq_some] at hasRole
      refine ⟨role, by simpa [hasRole, Json.text?] using known, text, ?_⟩
      rw [Json.isDict_iff (by simp)]
      simp [isObj, names, hasRole, hasContent]

theorem answers_iff {id : String} {turn : Json} : Answers id turn ↔
    turn.isObj ∧ turn.hasNames ["role", "content", "tool_call_id"] ∧
      (turn.get "role").text? = some "tool" ∧ (turn.get "content").text?.isSome ∧
      (turn.get "tool_call_id").text? = some id := by
  simp only [Answers, Option.isSome_iff_exists, Json.text?_eq_some]
  constructor
  · rintro ⟨text, dict⟩
    rw [Json.isDict_iff (by simp)] at dict
    obtain ⟨isObj, names, hasRole, hasContent, hasId, -⟩ := by
      simpa only [List.forall_mem_cons, List.map_cons, List.map_nil] using dict
    exact ⟨isObj, names, hasRole, ⟨text, hasContent⟩, hasId⟩
  · rintro ⟨isObj, names, hasRole, ⟨text, hasContent⟩, hasId⟩
    refine ⟨text, ?_⟩
    rw [Json.isDict_iff (by simp)]
    simp [isObj, names, hasRole, hasContent, hasId]

theorem asks_iff {ids : List String} {turn : Json} : Asks ids turn ↔
    turn.isObj ∧ turn.hasNames ["role", "content", "tool_calls"] ∧
      (turn.get "role").text? = some "assistant" ∧
      ((turn.get "content").isNull ∨ (turn.get "content").text?.isSome) ∧
      ∃ items, (turn.get "tool_calls").items? = some items ∧ items.length ∈ Set.Icc 1 16 ∧
        List.Forall₂ IsCall ids items := by
  simp only [Asks, Option.isSome_iff_exists, Json.text?_eq_some, Json.items?_eq_some,
    Json.isNull_iff]
  constructor
  · rintro ⟨content, calls, allowed, sized, areCalls, dict⟩
    rw [Json.isDict_iff (by simp)] at dict
    obtain ⟨isObj, names, hasRole, rfl, hasCalls, -⟩ := by
      simpa only [List.forall_mem_cons, List.map_cons, List.map_nil] using dict
    exact ⟨isObj, names, hasRole, allowed, calls, hasCalls, sized, areCalls⟩
  · rintro ⟨isObj, names, hasRole, allowed, calls, hasCalls, sized, areCalls⟩
    refine ⟨turn.get "content", calls, allowed, sized, areCalls, ?_⟩
    rw [Json.isDict_iff (by simp)]
    simp [isObj, names, hasRole, hasCalls]

/-- What the check does with a turn that it goes on after: it takes a result for a call that
waits for one, or, if none does, it passes a plain turn or notes the calls of an assistant. -/
inductive Follows (allowTools : Bool) (calls : Calls) (turn : Json) : Calls → Prop
  | answers {id : String} (tools : allowTools = true) (waits : id ∈ calls.pending)
      (answers : Answers id turn) :
      Follows allowTools calls turn { calls with pending := calls.pending.erase id }
  | plain (settled : calls.pending = []) (plain : Plain turn) :
      Follows allowTools calls turn calls
  | asks {ids : List String} (tools : allowTools = true) (settled : calls.pending = [])
      (asks : Asks ids turn) (distinct : ids.Nodup) (fresh : ∀ id ∈ ids, id ∉ calls.seen) :
      Follows allowTools calls turn ⟨ids.reverse, ids.reverse ++ calls.seen⟩

/-- A turn that the check goes on after is accepted by it. -/
theorem Follows.nextTurn {allowTools : Bool} {calls next : Calls} {turn : Json}
    (follows : Follows allowTools calls turn next) : nextTurn allowTools calls turn = .ok next := by
  cases follows with
  | answers tools waits answers =>
    obtain ⟨isObj, names, hasRole, hasContent, hasId⟩ := answers_iff.mp answers
    have content := Option.isNone_eq_false_iff.mpr hasContent
    simp [Content.nextTurn, isObj, hasRole, tools, names, content, hasId, waits]
  | plain settled plain =>
    obtain ⟨isObj, names, hasRole, hasContent⟩ := plain_iff.mp plain
    have content := Option.isNone_eq_false_iff.mpr hasContent
    -- a plain turn has no member for calls
    have noCalls : (turn.get "tool_calls").isNull = true := by
      have missing := mt (Json.hasNames_iff.mp names "tool_calls").mp (by simp)
      rw [Option.not_isSome_iff_eq_none] at missing
      simp [Json.get, missing, Json.isNull]
    simp only [List.mem_cons, List.not_mem_nil, or_false] at hasRole
    rcases hasRole with role | role | role <;>
      simp [Content.nextTurn, isObj, settled, names, content, noCalls, role]
  | asks tools settled asks distinct fresh =>
    obtain ⟨isObj, names, hasRole, hasContent, items, hasItems, ⟨some, few⟩, areCalls⟩ :=
      asks_iff.mp asks
    have calls : (turn.get "tool_calls").isNull = false := by
      rw [Json.items?_eq_some.mp hasItems]
      rfl
    have content : (!(turn.get "content").isNull && (turn.get "content").text?.isNone) = false := by
      rcases hasContent with null | text
      · simp [null]
      · simp [Option.isNone_eq_false_iff.mpr text]
    have run := foldlM_nextCall_ok_iff.mpr ⟨_, areCalls, distinct, fresh, rfl⟩
    simp [Content.nextTurn, isObj, hasRole, tools, settled, names, calls, hasItems, some, few,
      content, run]

theorem nextTurn_ok_iff {allowTools : Bool} {calls next : Calls} {turn : Json} :
    nextTurn allowTools calls turn = .ok next ↔ Follows allowTools calls turn next := by
  refine ⟨?_, Follows.nextTurn⟩
  intro ok
  unfold nextTurn at ok
  cases isObj : turn.isObj with
  | false => simp [isObj] at ok
  | true =>
    rw [isObj, if_neg (by simp)] at ok
    by_cases tool : (decide ((turn.get "role").text? = some "tool") && allowTools) = true
    · rw [if_pos tool] at ok
      cases hasId : (turn.get "tool_call_id").text? with
      | none => simp [hasId] at ok
      | some id =>
        simp only [hasId] at ok
        split at ok
        · exact nomatch ok
        · rename_i result
          simp only [Bool.or_eq_true, not_or, Bool.not_eq_true', Bool.not_eq_true,
            Bool.not_eq_false, Option.isNone_eq_false_iff, Option.any_some,
            decide_eq_true_eq] at result
          obtain ⟨⟨names, hasContent⟩, waits⟩ := result
          rw [Bool.and_eq_true, decide_eq_true_eq] at tool
          cases Except.ok.inj ok
          exact .answers tool.2 waits
            (answers_iff.mpr ⟨isObj, names, tool.1, hasContent, hasId⟩)
    · rw [if_neg tool] at ok
      split at ok
      · exact nomatch ok
      · rename_i settled
        rw [not_not] at settled
        split at ok
        · rename_i asked
          dsimp only at ok
          split at ok
          · exact nomatch ok
          · rename_i result
            simp only [Bool.or_eq_true, not_or, Bool.not_eq_true', Bool.not_eq_true,
              Bool.not_eq_false, Bool.and_eq_false_iff, not_not, decide_eq_false_iff_not,
              Option.isNone_eq_false_iff] at result
            obtain ⟨⟨names, hasContent⟩, sized⟩ := result
            simp only [Bool.and_eq_true, decide_eq_true_eq] at asked
            obtain ⟨ids, areCalls, distinct, fresh, rfl⟩ := foldlM_nextCall_ok_iff.mp ok
            cases hasItems : (turn.get "tool_calls").items? with
            | none => simp [hasItems] at sized
            | some items =>
              simp only [hasItems, Option.getD_some] at sized areCalls
              have asks : Asks ids turn := asks_iff.mpr
                ⟨isObj, names, asked.1.2, hasContent.imp_left (by simp), items, hasItems, sized,
                  areCalls⟩
              rw [settled, List.append_nil]
              exact .asks asked.1.1 settled asks distinct fresh
        · split at ok
          · exact nomatch ok
          · rename_i result
            simp only [Bool.or_eq_true, not_or, Bool.not_eq_true', Bool.not_eq_true,
              Bool.not_eq_false, decide_eq_true_eq, not_not, Option.isNone_eq_false_iff] at result
            obtain ⟨⟨names, hasRole⟩, hasContent⟩ := result
            cases Except.ok.inj ok
            exact .plain settled (plain_iff.mpr ⟨isObj, names, hasRole, hasContent⟩)

/-! ### Conversations -/

/-- What may still follow while calls wait: their results in some order, and then a
conversation. -/
def Continues (allowTools : Bool) (pending ids : List String) (turns : List Json) : Prop :=
  ∃ answered replies rest, turns = replies ++ rest ∧ answered.Perm pending ∧
    List.Forall₂ Answers answered replies ∧ Conversation allowTools ids rest

theorem continues_nil_iff {allowTools : Bool} {ids : List String} {turns : List Json} :
    Continues allowTools [] ids turns ↔ Conversation allowTools ids turns := by
  constructor
  · rintro ⟨answered, replies, rest, rfl, none, answers, conversation⟩
    cases List.perm_nil.mp none
    cases answers
    exact conversation
  · intro conversation
    exact ⟨[], [], turns, rfl, .refl _, .nil, conversation⟩

/-- A turn that the check goes on after, and what may follow it. -/
theorem Follows.continues {allowTools : Bool} {calls next : Calls} {turn : Json}
    (follows : Follows allowTools calls turn next) {ids : List String} {rest : List Json}
    (distinct : ids.Nodup) (fresh : ∀ id ∈ ids, id ∉ next.seen)
    (continues : Continues allowTools next.pending ids rest) :
    ∃ all, all.Nodup ∧ (∀ id ∈ all, id ∉ calls.seen) ∧
      Continues allowTools calls.pending all (turn :: rest) := by
  cases follows with
  | @answers id tools waits answer =>
    obtain ⟨answered, replies, rest, rfl, perm, answers, conversation⟩ := continues
    have all : (id :: answered).Perm calls.pending :=
      List.cons_perm_iff_perm_erase.mpr ⟨waits, perm⟩
    exact ⟨ids, distinct, fresh, id :: answered, turn :: replies, rest, rfl, all,
      .cons answer answers, conversation⟩
  | plain settled plain =>
    rw [settled, continues_nil_iff] at continues
    refine ⟨ids, distinct, fresh, ?_⟩
    rw [settled, continues_nil_iff]
    exact .plain plain continues
  | @asks asked tools settled asks new unseen =>
    obtain ⟨answered, replies, rest, rfl, perm, answers, conversation⟩ := continues
    have apart : asked.Disjoint ids := by
      intro id first later
      exact fresh id later (List.mem_append_left _ (List.mem_reverse.mpr first))
    refine ⟨asked ++ ids, new.append distinct apart, ?_, ?_⟩
    · intro id member
      rcases List.mem_append.mp member with first | later
      · exact unseen id first
      · exact fun old => fresh id later (List.mem_append_right _ old)
    · rw [settled, continues_nil_iff]
      exact .block tools asks (perm.trans (List.reverse_perm asked)) answers conversation

/-- Turns that continue what was said start with one that the check goes on after. -/
theorem Continues.follows {allowTools : Bool} {calls : Calls} {turn : Json} {rest : List Json}
    {all : List String} (tools : calls.pending ≠ [] → allowTools = true) (distinct : all.Nodup)
    (fresh : ∀ id ∈ all, id ∉ calls.seen)
    (continues : Continues allowTools calls.pending all (turn :: rest)) :
    ∃ next ids, Follows allowTools calls turn next ∧ ids.Nodup ∧ (∀ id ∈ ids, id ∉ next.seen) ∧
      Continues allowTools next.pending ids rest := by
  obtain ⟨answered, replies, others, split, perm, answers, conversation⟩ := continues
  cases answers with
  | @cons id reply answered replies answer answers =>
    obtain ⟨rfl, rfl⟩ := List.cons.inj split
    obtain ⟨waits, remaining⟩ := List.cons_perm_iff_perm_erase.mp perm
    have allowed := tools (List.ne_nil_of_mem waits)
    exact ⟨_, all, .answers allowed waits answer, distinct, fresh, answered, replies, others, rfl,
      remaining, answers, conversation⟩
  | nil =>
    have settled := List.nil_perm.mp perm
    rw [List.nil_append] at split
    subst split
    cases conversation with
    | plain plain further =>
      refine ⟨calls, all, .plain settled plain, distinct, fresh, ?_⟩
      rw [settled, continues_nil_iff]
      exact further
    | @block asked answered ids _ replies rest tools asks perm answers further =>
      obtain ⟨new, later, apart⟩ := List.nodup_append'.mp distinct
      have unseen : ∀ id ∈ asked, id ∉ calls.seen := fun id member =>
        fresh id (List.mem_append_left _ member)
      refine ⟨_, ids, .asks tools settled asks new unseen, later, ?_, answered, replies, rest, rfl,
        perm.trans (List.reverse_perm asked).symm, answers, further⟩
      intro id member old
      rcases List.mem_append.mp old with first | before
      · exact apart (List.mem_reverse.mp first) member
      · exact fresh id (List.mem_append_right _ member) before

/-- Calls wait only where tools are allowed. -/
theorem Follows.tools {allowTools : Bool} {calls next : Calls} {turn : Json}
    (follows : Follows allowTools calls turn next) :
    next.pending ≠ [] → allowTools = true := by
  intro waits
  cases follows with
  | answers tools _ _ => exact tools
  | plain settled _ => exact absurd settled waits
  | asks tools _ _ _ _ => exact tools

/-- The check reads a list of turns to its end exactly if they continue what was said. -/
theorem foldlM_nextTurn_ok_iff {allowTools : Bool} {calls : Calls} {turns : List Json}
    (tools : calls.pending ≠ [] → allowTools = true) :
    (∃ last, turns.foldlM (nextTurn allowTools) calls = .ok last ∧ last.pending = []) ↔
      ∃ ids, ids.Nodup ∧ (∀ id ∈ ids, id ∉ calls.seen) ∧
        Continues allowTools calls.pending ids turns := by
  induction turns generalizing calls with
  | nil =>
    constructor
    · rintro ⟨last, ok, settled⟩
      cases Except.ok.inj ok
      exact ⟨[], List.nodup_nil, by simp, [], [], [], rfl, by rw [settled], .nil, .nil⟩
    · rintro ⟨ids, -, -, answered, replies, rest, split, perm, answers, -⟩
      obtain ⟨rfl, rfl⟩ := List.append_eq_nil_iff.mp split.symm
      cases answers
      exact ⟨calls, rfl, List.nil_perm.mp perm⟩
  | cons turn rest ih =>
    rw [List.foldlM_cons]
    constructor
    · rintro ⟨last, ok, settled⟩
      cases first : nextTurn allowTools calls turn with
      | error text =>
        rw [first] at ok
        exact nomatch ok
      | ok next =>
        rw [first] at ok
        have follows := nextTurn_ok_iff.mp first
        obtain ⟨ids, distinct, fresh, continues⟩ := (ih follows.tools).mp ⟨last, ok, settled⟩
        exact follows.continues distinct fresh continues
    · rintro ⟨all, distinct, fresh, continues⟩
      obtain ⟨next, ids, follows, distinct, fresh, further⟩ :=
        continues.follows tools distinct fresh
      rw [nextTurn_ok_iff.mpr follows]
      exact (ih follows.tools).mpr ⟨ids, distinct, fresh, further⟩

/-- A list of turns is accepted if it is not empty, and no call waits at its end. -/
theorem validateMessages_arr_iff (turns : List Json) (allowTools : Bool) :
    validateMessages (.arr turns) allowTools = .ok () ↔ turns ≠ [] ∧
      ∃ last, turns.foldlM (nextTurn allowTools) {} = .ok last ∧ last.pending = [] := by
  cases turns with
  | nil => simp [validateMessages, Json.items?]
  | cons turn rest =>
    simp only [validateMessages, Json.items?, Option.getD_some, List.isEmpty_cons]
    cases (turn :: rest).foldlM (nextTurn allowTools) {} with
    | error text => simp [bind, Except.bind]
    | ok last =>
      by_cases settled : last.pending = []
      · simp [settled, bind, Except.bind, pure, Except.pure]
      · simp [settled, bind, Except.bind]

/-- The check accepts exactly the conversations in which no two calls have one identity. -/
theorem validateMessages_ok_iff (messages : Json) (allowTools : Bool) :
    validateMessages messages allowTools = .ok () ↔
      ∃ turns ids, messages = .arr turns ∧ turns ≠ [] ∧ ids.Nodup ∧
        Conversation allowTools ids turns := by
  have reads (turns : List Json) :
      (∃ last, turns.foldlM (nextTurn allowTools) {} = .ok last ∧ last.pending = []) ↔
        ∃ ids, ids.Nodup ∧ Conversation allowTools ids turns := by
    rw [foldlM_nextTurn_ok_iff (by simp)]
    simp [continues_nil_iff]
  constructor
  · intro ok
    cases hasTurns : messages.items? with
    | none => simp [validateMessages, hasTurns] at ok
    | some turns =>
      rw [Json.items?_eq_some] at hasTurns
      subst hasTurns
      obtain ⟨some, read⟩ := (validateMessages_arr_iff turns allowTools).mp ok
      obtain ⟨ids, distinct, conversation⟩ := (reads turns).mp read
      exact ⟨turns, ids, rfl, some, distinct, conversation⟩
  · rintro ⟨turns, ids, rfl, some, distinct, conversation⟩
    have read := (reads turns).mpr ⟨ids, distinct, conversation⟩
    exact (validateMessages_arr_iff turns allowTools).mpr ⟨some, read⟩

/-- A result that no call waits for is refused, and so is a call that no result follows. -/
example :
    validateMessages (.arr [.obj [("role", .str "tool"), ("content", .str "forged"),
      ("tool_call_id", .str "absent")]]) true =
        .error "tool result does not match an outstanding call" ∧
    validateMessages (.arr [.obj [("role", .str "assistant"), ("content", .null),
      ("tool_calls", .arr [.obj [("id", .str "one"), ("type", .str "function"),
        ("function", .obj [("name", .str "read"), ("arguments", .str "\x7b\x7d")])]])]]) true =
        .error "conversation contains unfinished tool calls" :=
  ⟨rfl, rfl⟩

end IntramindRuntime.Content
