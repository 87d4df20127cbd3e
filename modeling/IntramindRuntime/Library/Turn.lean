import Mathlib.Logic.Relation
import Mathlib.Tactic.TypeStar

/-!
# Turns of a cooperative task

Between two points where it awaits, a task of an event loop runs without
interruption: it reads and writes the state of the process, and it may raise. A
raised error undoes nothing. Such a stretch of code is a program of `EStateM`.

## Main definitions

* `Turn` — a stretch of code between two awaits
* `Turn.Ensures` — what holds of the outcome and of the state a turn leaves
* `Turn.Moves` — a turn changes the state by moves of a relation only
* `Turn.cleanup` — the code of a `finally` block

## Main results

* `Turn.ensures_bind`, `Turn.Ensures.mono` — the sequence rule and consequence
* `Turn.Moves.bind`, `Turn.Moves.ensures` — moves compose, and ensure what their paths ensure
-/

namespace IntramindRuntime.Library

variable {σ ε α β : Type}

/-- Code that runs between two awaits. What it changed stays changed if it raises. -/
abbrev Turn (σ ε α : Type) := EStateM ε σ α

namespace Turn

/-- The value of a turn, or the error it raised. -/
def outcome (p : Turn σ ε α) (s : σ) : Except ε α :=
  match p s with
  | .ok value _ => .ok value
  | .error error _ => .error error

/-- The state a turn leaves, also when it raises. -/
def final (p : Turn σ ε α) (s : σ) : σ :=
  match p s with
  | .ok _ s' => s'
  | .error _ s' => s'

/-- `post` holds of the outcome of a turn and of the state it leaves. -/
def Ensures (p : Turn σ ε α) (s : σ) (post : Except ε α → σ → Prop) : Prop :=
  post (p.outcome s) (p.final s)

/-- Run `f` on the way out, as a `finally` block does. -/
def cleanup (p : Turn σ ε α) (f : Except ε α → σ → σ) : Turn σ ε α := fun s =>
  match p s with
  | .ok value s' => .ok value (f (.ok value) s')
  | .error error s' => .error error (f (.error error) s')

/-- Catch the error of a turn. What the turn changed stays changed. -/
def attempt (p : Turn σ ε α) : Turn σ ε (Except ε α) := fun s => .ok (p.outcome s) (p.final s)

variable {p : Turn σ ε α} {s : σ} {post post' : Except ε α → σ → Prop}

theorem Ensures.mono (holds : p.Ensures s post)
    (weaker : ∀ outcome s', post outcome s' → post' outcome s') : p.Ensures s post' :=
  weaker _ _ holds

@[simp] theorem ensures_pure {value : α} :
    Ensures (pure value : Turn σ ε α) s post ↔ post (.ok value) s := Iff.rfl

@[simp] theorem ensures_throw {error : ε} :
    Ensures (throw error : Turn σ ε α) s post ↔ post (.error error) s := Iff.rfl

@[simp] theorem ensures_get {post : Except ε σ → σ → Prop} :
    Ensures (get : Turn σ ε σ) s post ↔ post (.ok s) s := Iff.rfl

@[simp] theorem ensures_modify {f : σ → σ} {post : Except ε PUnit → σ → Prop} :
    Ensures (modify f : Turn σ ε PUnit) s post ↔ post (.ok ⟨⟩) (f s) := Iff.rfl

/-- The sequence rule: an error ends the turn, a value goes on. -/
theorem ensures_bind {f : α → Turn σ ε β} {post : Except ε β → σ → Prop} :
    Ensures (p >>= f) s post ↔ p.Ensures s fun outcome s' =>
      match outcome with
      | .ok value => (f value).Ensures s' post
      | .error error => post (.error error) s' := by
  simp only [Ensures, outcome, final, bind, EStateM.bind]
  cases p s <;> rfl

theorem ensures_discard {post : σ → Prop} :
    Ensures (discard p) s (fun _ s' => post s') ↔ Ensures p s fun _ s' => post s' := by
  simp only [Ensures, final, Functor.discard, Functor.mapConst, EStateM.map, Function.comp]
  cases p s <;> rfl

/-- A caught error goes on as a value. -/
theorem ensures_attempt_bind {f : Except ε α → Turn σ ε β} {post : Except ε β → σ → Prop} :
    Ensures (p.attempt >>= f) s post ↔ Ensures (f (p.outcome s)) (p.final s) post := Iff.rfl

@[simp] theorem final_cleanup {f : Except ε α → σ → σ} :
    (p.cleanup f).final s = f (p.outcome s) (p.final s) := by
  simp only [cleanup, final, outcome]
  cases p s <;> rfl

@[simp] theorem outcome_cleanup {f : Except ε α → σ → σ} :
    (p.cleanup f).outcome s = p.outcome s := by
  simp only [cleanup, outcome]
  cases p s <;> rfl

/-! ### Turns that only look -/

/-- The turn leaves the state alone, and a value it returns satisfies `fact`. -/
def Looks (p : Turn σ ε α) (s : σ) (fact : α → Prop) : Prop :=
  match p s with
  | .ok value s' => s' = s ∧ fact value
  | .error _ s' => s' = s

theorem looks_pure {value : α} {fact : α → Prop} (holds : fact value) :
    Looks (pure value : Turn σ ε α) s fact := ⟨rfl, holds⟩

theorem looks_throw (error : ε) {fact : α → Prop} : Looks (throw error : Turn σ ε α) s fact := rfl

theorem looks_get_bind {f : σ → Turn σ ε β} {fact : β → Prop} (rest : Looks (f s) s fact) :
    Looks (get >>= f) s fact := rest

theorem Looks.bind_ensures {f : α → Turn σ ε β} {fact : α → Prop}
    {post : Except ε β → σ → Prop} (looks : Looks p s fact)
    (raised : ∀ error, post (.error error) s)
    (rest : ∀ value, fact value → (f value).Ensures s post) : Ensures (p >>= f) s post := by
  simp only [Looks, Ensures, outcome, final, Bind.bind, EStateM.bind] at looks rest ⊢
  cases ran : p s with
  | ok value s' =>
    rw [ran] at looks
    obtain ⟨rfl, holds⟩ := looks
    exact rest value holds
  | error error s' =>
    rw [ran] at looks
    obtain rfl := looks
    exact raised error

/-! ### Turns that change the state by moves -/

/-- Every way the turn ends, the state changed by moves of `R` only. -/
def Moves (R : σ → σ → Prop) (p : Turn σ ε α) (s : σ) : Prop :=
  Relation.ReflTransGen R s (p.final s)

variable {R : σ → σ → Prop}

theorem moves_pure (value : α) : Moves R (pure value : Turn σ ε α) s := .refl

theorem moves_throw (error : ε) : Moves R (throw error : Turn σ ε α) s := .refl

theorem moves_modify {f : σ → σ} (path : Relation.ReflTransGen R s (f s)) :
    Moves R (modify f : Turn σ ε PUnit) s := path

/-- Moves compose: what follows starts from the state and with the value reached. -/
theorem Moves.bind {f : α → Turn σ ε β} (first : Moves R p s)
    (rest : ∀ value s', p s = .ok value s' → Moves R (f value) s') : Moves R (p >>= f) s := by
  simp only [Moves, final, Bind.bind, EStateM.bind] at first rest ⊢
  cases ran : p s with
  | ok value s' =>
    rw [ran] at first
    exact first.trans (rest value s' ran)
  | error error s' =>
    rw [ran] at first
    exact first

/-- Reading the state is no move. -/
theorem Moves.get_bind {f : σ → Turn σ ε β} (rest : Moves R (f s) s) :
    Moves R (get >>= f) s := rest

theorem Moves.modify_bind {g : σ → σ} {f : PUnit → Turn σ ε β}
    (path : Relation.ReflTransGen R s (g s)) (rest : Moves R (f ⟨⟩) (g s)) :
    Moves R (modify g >>= f) s := path.trans rest

/-- A turn that only looks goes on in the state it started from. -/
theorem Looks.bind_moves {f : α → Turn σ ε β} {fact : α → Prop} (looks : Looks p s fact)
    (rest : ∀ value, fact value → Moves R (f value) s) : Moves R (p >>= f) s := by
  simp only [Looks, Moves, final, Bind.bind, EStateM.bind] at looks rest ⊢
  cases ran : p s with
  | ok value s' =>
    rw [ran] at looks
    obtain ⟨rfl, holds⟩ := looks
    exact rest value holds
  | error error s' =>
    rw [ran] at looks
    obtain rfl := looks
    exact .refl

theorem Moves.ensures {post : σ → Prop} (moves : Moves R p s)
    (path : ∀ s', Relation.ReflTransGen R s s' → post s') : Ensures p s fun _ s' => post s' :=
  path _ moves

theorem Moves.discard (moves : Moves R p s) : Moves R (discard p) s := by
  simp only [Moves, final, Functor.discard, Functor.mapConst, EStateM.map,
    Function.comp] at moves ⊢
  cases ran : p s <;> rw [ran] at moves <;> exact moves

end Turn

end IntramindRuntime.Library
