import IntramindRuntime.Library.JsonText
import IntramindRuntime.Workflow.Children

/-!
# Operation identities

The identity of an operation is the digest of a JSON text, which holds the root of the
workflow, the path of the context and the key. The key of a child is a JSON text itself, of
the key of its `map_children` call and the identity of its item, and becomes a component of
the path. Both texts are read back here, so that nothing that differs can be told alike: a
JSON text inside of a string of another included.

## Main definitions

* `TaskContext.preimage` — the text that the digest is taken of
* `Mapped` — contexts that chains of `map_children` calls reach

## Main results

* `preimage_injective` — the text decides the root, the path and the key
* `pairText_injective` — the key of a child decides the call's key and the item's identity
* `Mapped.path` — the path of a context lists the keys of the children above it
* `operation_identities` — operation identities are injective
-/

namespace IntramindRuntime.Workflow

open Library

variable {sha256 : List Char → String} {ctx ctx' : TaskContext} {key key' id : String}

/-! ### The text of an identity -/

/-- The text whose digest is the identity of an operation. -/
def TaskContext.preimage (ctx : TaskContext) (key : String) : List Char :=
  Json.dumps (.arr [.str ctx.rootId, .arr (ctx.path.map .str), .str key])

theorem TaskContext.key_of_ok (keyed : ctx.key sha256 key = .ok id) :
    id = sha256 (ctx.preimage key) := by
  unfold TaskContext.key at keyed
  split at keyed
  · cases keyed
  · exact (Except.ok.inj keyed).symm

theorem isPlain_strings (texts : List String) : Json.arePlain (texts.map .str) := by
  rw [Json.arePlain_iff]
  intro item member
  obtain ⟨text, -, rfl⟩ := List.mem_map.mp member
  rfl

/-- The text decides the root, the path and the key. -/
theorem preimage_injective (same : ctx.preimage key = ctx'.preimage key') :
    ctx.rootId = ctx'.rootId ∧ ctx.path = ctx'.path ∧ key = key' := by
  have read (ctx : TaskContext) (key : String) : Json.loads (ctx.preimage key) =
      some (.arr [.str ctx.rootId, .arr (ctx.path.map .str), .str key]) := by
    refine Json.loads_dumps ?_
    have path : Json.arePlain (ctx.path.map .str) := isPlain_strings ctx.path
    simp only [Json.isPlain, Json.arePlain, path, Bool.and_self]
  have values := (read ctx key).symm.trans ((congrArg Json.loads same).trans (read ctx' key'))
  simp only [Option.some.injEq, Json.arr.injEq, List.cons.injEq, Json.str.injEq, and_true] at values
  obtain ⟨root, path, key⟩ := values
  exact ⟨root, List.map_injective_iff.mpr (fun _ _ => Json.str.inj) path, key⟩

/-! ### The keys of children -/

/-- `json.dumps([key, identity])`, which sets a blank behind the comma. -/
def pairText (key identity : String) : List Char :=
  '[' :: (Json.quote key ++ [',', ' '] ++ Json.quote identity ++ [']'])

theorem loads_pairText (key identity : String) :
    Json.loads (pairText key identity) = some (.arr [.str key, .str identity]) := by
  have blank (place : Json.Place) :
      Json.reads (.between, place) (' ' :: Json.quote identity ++ [']']) =
        Json.reads (.between, place) (Json.quote identity ++ [']']) := by
    rw [List.cons_append, Json.reads_cons, Json.read_quiet place rfl, Option.bind_some]
  have text : pairText key identity =
      '[' :: (Json.quote key ++ ',' :: (' ' :: Json.quote identity ++ [']'])) := by
    simp only [pairText, List.append_assoc, List.cons_append, List.nil_append]
  rw [Json.loads, text, Json.reads_punct _ (by simp) rfl, Json.reads_append, Json.reads_quote]
  simp only [Json.Place.step, Json.Place.begin, Json.Place.complete, Option.map_some,
    Option.bind_some]
  rw [Json.reads_punct _ (by simp) rfl, blank, Json.reads_append, Json.reads_quote]
  rfl

/-- The key of a child decides the key of the call and the identity of the item. -/
theorem pairText_injective {identity identity' : String}
    (same : pairText key identity = pairText key' identity') :
    key = key' ∧ identity = identity' := by
  have values := (loads_pairText key identity).symm.trans
    ((congrArg Json.loads same).trans (loads_pairText key' identity'))
  simp only [Option.some.injEq, Json.arr.injEq, List.cons.injEq, Json.str.injEq, and_true] at values
  exact values

/-! ### Trees of children -/

/-- The link of a chain that starts the child for an item. -/
def MapChildren.link (call : MapChildren Json) (item : Json) (now : Time) (policy : TaskPolicy)
    (info : RunInfo) (early : List (String × Json)) : Link :=
  .child now (call.command item).taskType (call.command item).taskQueue
    (String.ofList (call.command item).key) (call.command item).inputs policy info early

/-- A chain of workflows goes from `first` to `run`. The children on it are those of calls of
`map_children`, and the pairs are their keys and the identities of the items. In between, the
workflows may take signals, run commands and roll over. -/
inductive Mapped (sha256 : List Char → String) (manifestBytes : Envelope → ℕ)
    (first : WorkflowRun) : List (String × String) → WorkflowRun → Prop
  | root : Mapped sha256 manifestBytes first [] first
  | within {pairs : List (String × String)} {run next : WorkflowRun} {link : Link}
      (mapped : Mapped sha256 manifestBytes first pairs run)
      (same : ∀ now taskType taskQueue key inputs policy info early,
        link ≠ .child now taskType taskQueue key inputs policy info early)
      (followed : run.follow sha256 manifestBytes link = .ok next) :
    Mapped sha256 manifestBytes first pairs next
  | child {pairs : List (String × String)} {run next : WorkflowRun} {call : MapChildren Json}
      {item : Json} {now : Time} {policy : TaskPolicy} {info : RunInfo}
      {early : List (String × Json)} (mapped : Mapped sha256 manifestBytes first pairs run)
      (member : item ∈ call.items)
      (followed : run.follow sha256 manifestBytes (call.link item now policy info early) =
        .ok next) :
    Mapped sha256 manifestBytes first (pairs ++ [(call.key, call.identity item)]) next

variable {manifestBytes : Envelope → ℕ} {first run run' next : WorkflowRun}
  {pairs pairs' : List (String × String)}

/-- A workflow keeps its path. -/
theorem path_of_within {link : Link}
    (same : ∀ now taskType taskQueue key inputs policy info early,
      link ≠ .child now taskType taskQueue key inputs policy info early)
    (followed : run.follow sha256 manifestBytes link = .ok next) :
    next.context.path = run.context.path := by
  cases link with
  | signal | consume | enter | leave =>
    cases followed
    rfl
  | rollover => exact (WorkflowRun.follow_rollover followed).1.path
  | child => exact absurd rfl (same _ _ _ _ _ _ _ _)

/-- The path of a context lists the keys of the children above it. -/
theorem Mapped.path (mapped : Mapped sha256 manifestBytes first pairs run) :
    run.context.path =
      first.context.path ++ pairs.map fun pair => String.ofList (pairText pair.1 pair.2) := by
  induction mapped with
  | root => rw [List.map_nil, List.append_nil]
  | within mapped same followed ih => rw [path_of_within same followed, ih]
  | child mapped member followed ih =>
    rw [(WorkflowRun.follow_child followed).1, ih, List.map_append, List.append_assoc]
    rfl

/-- Contexts with the same path were reached by the same pairs. -/
theorem Mapped.pairs_unique (mapped : Mapped sha256 manifestBytes first pairs run)
    (mapped' : Mapped sha256 manifestBytes first pairs' run')
    (same : run.context.path = run'.context.path) : pairs = pairs' := by
  rw [mapped.path, mapped'.path] at same
  refine List.map_injective_iff.mpr (fun pair pair' texts => ?_) (List.append_cancel_left same)
  obtain ⟨keys, identities⟩ := pairText_injective (String.ofList_injective texts)
  exact Prod.ext keys identities

/-- **Operation identities are injective.** An identity is the digest of a text that decides
the root, the path and the key, whatever characters they hold; so it decides them itself,
unless the digests of two texts collide. And along the calls of `map_children` in a tree of
workflows, contexts that are reached by different keys and items have different paths. -/
theorem operation_identities (sha256 : List Char → String) (manifestBytes : Envelope → ℕ) :
    (∀ (ctx : TaskContext) (key id : String), ctx.key sha256 key = .ok id →
      id = sha256 (ctx.preimage key)) ∧
    (∀ (ctx ctx' : TaskContext) (key key' : String),
      (ctx.rootId, ctx.path, key) ≠ (ctx'.rootId, ctx'.path, key') →
      ctx.preimage key ≠ ctx'.preimage key') ∧
    (∀ (ctx ctx' : TaskContext) (key key' id : String), ctx.key sha256 key = .ok id →
      ctx'.key sha256 key' = .ok id →
      (sha256 (ctx.preimage key) = sha256 (ctx'.preimage key') →
        ctx.preimage key = ctx'.preimage key') →
      (ctx.rootId, ctx.path, key) = (ctx'.rootId, ctx'.path, key')) ∧
    ∀ (first run run' : WorkflowRun) (pairs pairs' : List (String × String)),
      Mapped sha256 manifestBytes first pairs run →
      Mapped sha256 manifestBytes first pairs' run' → pairs ≠ pairs' →
      run.context.path ≠ run'.context.path := by
  have decided {ctx ctx' : TaskContext} {key key' : String}
      (same : ctx.preimage key = ctx'.preimage key') :
      (ctx.rootId, ctx.path, key) = (ctx'.rootId, ctx'.path, key') := by
    obtain ⟨root, path, keys⟩ := preimage_injective same
    rw [root, path, keys]
  refine ⟨fun _ _ _ keyed => TaskContext.key_of_ok keyed, ?_, ?_, ?_⟩
  · intro ctx ctx' key key' different same
    exact different (decided same)
  · intro ctx ctx' key key' id keyed keyed' apart
    have digest := TaskContext.key_of_ok keyed
    exact decided (apart (digest.symm.trans (TaskContext.key_of_ok keyed')))
  · intro first run run' pairs pairs' mapped mapped' different same
    exact different (mapped.pairs_unique mapped' same)

end IntramindRuntime.Workflow
