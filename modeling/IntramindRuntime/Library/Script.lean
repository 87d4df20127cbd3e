import Mathlib.Logic.Relation
import Mathlib.Data.Nat.Notation

/-!
# Tasks that ask other parties

A task of an event loop runs until it asks another party for something, and goes on with the
answer. Until the answer is there everybody else may act, and the answer may be an error of any
kind. A task is the tree of the calls that it makes, with what it does after each answer. A loop
is unrolled any number of times: what is shown of all unrollings is shown of every run.

## Main definitions

* `Script` — a task
* `Routine` — a task with local variables, which may raise
* `Parties` — what other parties may do, and how they answer
* `Script.Holds`, `Routine.Ensures` — what a task asks is allowed, and what holds in the end
* `Parties.free` — parties that keep nothing
* `Parties.logged` — parties that remember what they were asked
* `Crew` — tasks that run side by side, some of them started by others

## Main results

* `Script.Holds.bind`, `Routine.Ensures.bind`, `Routine.Ensures.tryCatch`,
  `Routine.Ensures.loop` — the rules
* `Routine.Ensures.of_free` — what holds whatever the parties are is not lost among others
* `Script.Holds.run` — a rule holds along every run of one task
* `Script.Holds.asked` — whatever a task has asked was allowed when it asked
* `Crew.holds_of_run` — and along every run of tasks that only do what others allow for
-/

namespace IntramindRuntime.Library

open Relation

/-- A task: it has a value, or it asks and goes on with the answer. -/
inductive Script (C : Type) (A : C → Type) (α : Type) : Type
  | value (a : α)
  | ask (call : C) (next : A call → Script C A α)
  /-- The later rounds of a loop. -/
  | cut

/-- The other parties: what they may do at any time, and how they answer a call. -/
structure Parties (S C : Type) (A : C → Type) where
  moves : S → S → Prop
  serves : S → (call : C) → A call → S → Prop

namespace Script

variable {S C α β : Type} {A : C → Type}

/-- Go on with the value of a task. -/
def bind : Script C A α → (α → Script C A β) → Script C A β
  | .value a, f => f a
  | .ask call next, f => .ask call fun answer => (next answer).bind f
  | .cut, _ => .cut

/-- The task asks for what `asks` allows only, whatever the others do and answer, and `ends` holds
of its value when it has one. -/
def Holds (P : Parties S C A) (asks : S → C → Prop) (ends : S → α → Prop) :
    Script C A α → S → Prop
  | .value a, s => ends s a
  | .ask call next, s => ∀ s₁, ReflTransGen P.moves s s₁ → asks s₁ call ∧
      ∀ answer s₂, P.serves s₁ call answer s₂ → (next answer).Holds P asks ends s₂
  | .cut, _ => True

variable {P : Parties S C A} {asks asks' : S → C → Prop} {ends ends' : S → α → Prop}

theorem Holds.mono {p : Script C A α} {s : S} (holds : p.Holds P asks ends s)
    (weaker : ∀ s a, ends s a → ends' s a) : p.Holds P asks ends' s := by
  induction p generalizing s with
  | value a => exact weaker s a holds
  | ask call next ih =>
    intro s₁ others
    obtain ⟨allowed, later⟩ := holds s₁ others
    exact ⟨allowed, fun answer s₂ served => ih answer (later answer s₂ served)⟩
  | cut => trivial

theorem Holds.bind {p : Script C A α} {f : α → Script C A β} {ends : S → β → Prop} {s : S}
    (holds : p.Holds P asks (fun s a => (f a).Holds P asks ends s) s) :
    (p.bind f).Holds P asks ends s := by
  induction p generalizing s with
  | value a => exact holds
  | ask call next ih =>
    intro s₁ others
    obtain ⟨allowed, later⟩ := holds s₁ others
    exact ⟨allowed, fun answer s₂ served => ih answer (later answer s₂ served)⟩
  | cut => trivial

/-- What others do takes nothing from a task that waits. -/
theorem Holds.later {p : Script C A α} {s s' : S} (holds : p.Holds P asks ends s)
    (stable : ∀ s s' a, P.moves s s' → ends s a → ends s' a) (others : ReflTransGen P.moves s s') :
    p.Holds P asks ends s' := by
  cases p with
  | value a =>
    induction others with
    | refl => exact holds
    | tail _ move ih => exact stable _ _ a move ih
  | ask call next => exact fun s₁ more => holds s₁ (others.trans more)
  | cut => trivial

/-! ### Runs of one task -/

/-- One step of a task among others. -/
inductive Step (P : Parties S C A) : Script C A α × S → Script C A α × S → Prop
  | move {p : Script C A α} {s s' : S} : P.moves s s' → Step P (p, s) (p, s')
  | answer {call : C} {next : A call → Script C A α} {s s' : S} {answer : A call} :
      P.serves s call answer s' → Step P (.ask call next, s) (next answer, s')

/-- A run of a task among others. -/
abbrev Run (P : Parties S C A) (before after : Script C A α × S) : Prop :=
  ReflTransGen (Step P) before after

theorem Holds.run {p p' : Script C A α} {s s' : S} (holds : p.Holds P asks ends s)
    (stable : ∀ s s' a, P.moves s s' → ends s a → ends s' a) (run : Run P (p, s) (p', s')) :
    p'.Holds P asks ends s' := by
  generalize reached : (p', s') = final at run
  induction run generalizing p' s' with
  | refl =>
    cases reached
    exact holds
  | tail _ step ih =>
    cases step with
    | move move =>
      cases reached
      exact (ih rfl).later stable (.single move)
    | answer served =>
      cases reached
      exact ((ih rfl) _ .refl).2 _ _ served

end Script

/-! ### Routines -/

/-- A task with local variables. What it has assigned stays assigned if it raises. -/
def Routine (C : Type) (A : C → Type) (L ε α : Type) : Type :=
  L → Script C A (Except ε α × L)

namespace Routine

variable {S C L ε α β τ : Type} {A : C → Type}

instance monad : Monad (Routine C A L ε) where
  pure a := fun l => .value (.ok a, l)
  bind p f := fun l => (p l).bind fun (outcome, l') =>
    match outcome with
    | .ok a => f a l'
    | .error e => .value (.error e, l')

instance monadExcept : MonadExceptOf ε (Routine C A L ε) where
  throw e := fun l => .value (.error e, l)
  tryCatch p handler := fun l => (p l).bind fun (outcome, l') =>
    match outcome with
    | .ok a => .value (.ok a, l')
    | .error e => handler e l'

instance monadState : MonadStateOf L (Routine C A L ε) where
  get := fun l => .value (.ok l, l)
  set l' := fun _ => .value (.ok ⟨⟩, l')
  modifyGet f := fun l => .value (.ok (f l).1, (f l).2)

/-- Wait for the answer to a call. An error is raised. -/
def call {R : C → Type} (c : C) : Routine C (fun c => Except ε (R c)) L ε (R c) := fun l =>
  .ask c fun answer => .value (answer, l)

/-- `while True`: a round leaves the loop with a value, or goes on. -/
def loop (body : τ → Routine C A L ε (τ ⊕ α)) : ℕ → τ → Routine C A L ε α
  | 0, _ => fun _ => .cut
  | rounds + 1, t => do
    match ← body t with
    | .inl t' => loop body rounds t'
    | .inr a => pure a

/-- Run `last` on the way out, as a `finally` block does. What it raises is raised instead. -/
def onExit (p : Routine C A L ε α) (last : Routine C A L ε PUnit) : Routine C A L ε α := fun l =>
  (p l).bind fun (outcome, l') => (last l').bind fun (lastly, l'') =>
    match lastly with
    | .ok _ => .value (outcome, l'')
    | .error e => .value (.error e, l'')

/-- The routine asks for what `asks` allows only, and `post` holds of how it ends. -/
def Ensures (P : Parties S C A) (asks : S → C → Prop) (p : Routine C A L ε α) (l : L) (s : S)
    (post : Except ε α → L → S → Prop) : Prop :=
  (p l).Holds P asks (fun s ended => post ended.1 ended.2 s) s

variable {P : Parties S C A} {asks : S → C → Prop} {p : Routine C A L ε α} {l : L} {s : S}
  {post post' : Except ε α → L → S → Prop}

theorem Ensures.mono (ensures : p.Ensures P asks l s post)
    (weaker : ∀ outcome l s, post outcome l s → post' outcome l s) :
    p.Ensures P asks l s post' :=
  Script.Holds.mono ensures fun _ _ => weaker _ _ _

theorem Ensures.pure {a : α} (holds : post (.ok a) l s) :
    Ensures P asks (Pure.pure a : Routine C A L ε α) l s post := holds

theorem Ensures.throw {e : ε} (holds : post (.error e) l s) :
    Ensures P asks (throw e : Routine C A L ε α) l s post := holds

theorem Ensures.get {post : Except ε L → L → S → Prop} (holds : post (.ok l) l s) :
    Ensures P asks (MonadState.get : Routine C A L ε L) l s post := holds

theorem Ensures.modify {f : L → L} {post : Except ε PUnit → L → S → Prop}
    (holds : post (.ok ⟨⟩) (f l) s) :
    Ensures P asks (modify f : Routine C A L ε PUnit) l s post := holds

/-- The rule of sequence: an error ends the routine, a value goes on. -/
theorem Ensures.bind {f : α → Routine C A L ε β} {post : Except ε β → L → S → Prop}
    (ensures : p.Ensures P asks l s fun outcome l s => match outcome with
      | .ok a => (f a).Ensures P asks l s post
      | .error e => post (.error e) l s) : (p >>= f).Ensures P asks l s post := by
  refine Script.Holds.bind (Script.Holds.mono ensures ?_)
  rintro s ⟨outcome, l'⟩ holds
  cases outcome <;> exact holds

/-- The rule of `except`: a value leaves the block, an error is handled. -/
theorem Ensures.tryCatch {handler : ε → Routine C A L ε α}
    (ensures : p.Ensures P asks l s fun outcome l s => match outcome with
      | .ok a => post (.ok a) l s
      | .error e => (handler e).Ensures P asks l s post) :
    (MonadExcept.tryCatch p handler).Ensures P asks l s post := by
  refine Script.Holds.bind (Script.Holds.mono ensures ?_)
  rintro s ⟨outcome, l'⟩ holds
  cases outcome <;> exact holds

theorem Ensures.onExit {last : Routine C A L ε PUnit}
    (ensures : p.Ensures P asks l s fun outcome l s => last.Ensures P asks l s fun lastly l s =>
      match lastly with
      | .ok _ => post outcome l s
      | .error e => post (.error e) l s) : (p.onExit last).Ensures P asks l s post := by
  refine Script.Holds.bind (Script.Holds.mono ensures ?_)
  rintro s ⟨outcome, l'⟩ holds
  refine Script.Holds.bind (Script.Holds.mono holds ?_)
  rintro s ⟨lastly, l''⟩ holds
  cases lastly <;> exact holds

theorem Ensures.call {R : C → Type} {P : Parties S C fun c => Except ε (R c)} {c : C}
    {post : Except ε (R c) → L → S → Prop}
    (ensures : ∀ s₁, ReflTransGen P.moves s s₁ → asks s₁ c ∧
      ∀ answer s₂, P.serves s₁ c answer s₂ → post answer l s₂) :
    (Routine.call c : Routine C (fun c => Except ε (R c)) L ε (R c)).Ensures P asks l s post :=
  ensures

/-- The rule of loops: what holds before a round holds before the next one. -/
theorem Ensures.loop {body : τ → Routine C A L ε (τ ⊕ α)} {I : τ → L → S → Prop}
    (round : ∀ t l s, I t l s → (body t).Ensures P asks l s fun outcome l s => match outcome with
      | .ok (.inl t') => I t' l s
      | .ok (.inr a) => post (.ok a) l s
      | .error e => post (.error e) l s) (rounds : ℕ) {t : τ} (holds : I t l s) :
    (Routine.loop body rounds t).Ensures P asks l s post := by
  induction rounds generalizing t l s with
  | zero => trivial
  | succ rounds ih =>
    refine Ensures.bind ((round t l s holds).mono fun outcome l s after => ?_)
    rcases outcome with e | (t' | a)
    · exact after
    · exact ih after
    · exact after

end Routine

/-! ### Parties that keep nothing -/

section Free

variable {S C L ε α : Type} {A : C → Type}

/-- Parties that answer anything `may` admits, whatever was asked before. -/
def Parties.free (may : (call : C) → A call → Prop) : Parties Unit C A where
  moves _ _ := False
  serves _ call answer _ := may call answer

variable {may : (call : C) → A call → Prop} {P : Parties S C A} {asks : S → C → Prop}
  {only : C → Prop}

/-- What a task asks of parties that keep nothing, it asks among others as well; and if such calls
do what others may do, so does the task. -/
theorem Script.Holds.of_free {ends : α → Prop} {p : Script C A α}
    (holds : p.Holds (Parties.free may) (fun _ => only) (fun _ => ends) ())
    (admits : ∀ s call answer s', P.serves s call answer s' → may call answer)
    (allows : ∀ s call, only call → asks s call)
    (moves : ∀ s call answer s', only call → P.serves s call answer s' →
      ReflTransGen P.moves s s') {start s : S} (sofar : ReflTransGen P.moves start s) :
    p.Holds P asks (fun s' a => ReflTransGen P.moves start s' ∧ ends a) s := by
  induction p generalizing s with
  | value a => exact ⟨sofar, holds⟩
  | ask call next ih =>
    obtain ⟨allowed, later⟩ := holds () .refl
    intro s₁ others
    refine ⟨allows s₁ call allowed, fun answer s₂ served => ?_⟩
    have path := (sofar.trans others).trans (moves s₁ call answer s₂ allowed served)
    exact ih answer (later answer () (admits s₁ call answer s₂ served)) path
  | cut => trivial

theorem Routine.Ensures.of_free {p : Routine C A L ε α} {l : L} {s : S}
    {post : Except ε α → L → Prop}
    (ensures : p.Ensures (Parties.free may) (fun _ => only) l () fun outcome l' _ =>
      post outcome l')
    (admits : ∀ s call answer s', P.serves s call answer s' → may call answer)
    (allows : ∀ s call, only call → asks s call)
    (moves : ∀ s call answer s', only call → P.serves s call answer s' →
      ReflTransGen P.moves s s') :
    p.Ensures P asks l s fun outcome l' s' => ReflTransGen P.moves s s' ∧ post outcome l' := by
  have holds : (p l).Holds (Parties.free may) (fun _ => only)
      (fun _ ended => post ended.1 ended.2) () := ensures
  exact holds.of_free admits allows moves .refl

end Free

/-! ### What a task has asked -/

/-- A call and its answer. -/
structure Asking (C : Type) (A : C → Type) where
  call : C
  answer : A call

section Logged

variable {C L ε α : Type} {A : C → Type}

/-- Parties that answer anything `may` admits. The state is what was asked so far. -/
def Parties.logged (may : (call : C) → A call → Prop) : Parties (List (Asking C A)) C A where
  moves _ _ := False
  serves log call answer log' := may call answer ∧ log' = log ++ [⟨call, answer⟩]

variable {asks : List (Asking C A) → C → Prop} {ends : List (Asking C A) → α → Prop}
  {log : List (Asking C A)}

theorem eq_of_logged {may : (call : C) → A call → Prop} {log' : List (Asking C A)}
    (others : ReflTransGen (Parties.logged may).moves log log') : log' = log := by
  induction others with
  | refl => rfl
  | tail _ move => exact move.elim

/-- The run in which `oracle` gives the answers, for `n` calls. -/
def Script.follow (oracle : List (Asking C A) → (call : C) → A call) :
    ℕ → Script C A α × List (Asking C A) → Script C A α × List (Asking C A)
  | 0, state => state
  | n + 1, (.ask call next, log) =>
    follow oracle n (next (oracle log call), log ++ [⟨call, oracle log call⟩])
  | _ + 1, state => state

theorem Script.run_follow {may : (call : C) → A call → Prop}
    {oracle : List (Asking C A) → (call : C) → A call}
    (admitted : ∀ log call, may call (oracle log call)) (n : ℕ)
    (state : Script C A α × List (Asking C A)) :
    Script.Run (Parties.logged may) state (Script.follow oracle n state) := by
  induction n generalizing state with
  | zero => exact .refl
  | succ n ih =>
    obtain ⟨p, log⟩ := state
    cases p with
    | ask call next => exact .head (.answer ⟨admitted log call, rfl⟩) (ih _)
    | value | cut => exact .refl

/-- Whatever a task has asked was allowed after what had been asked before. -/
theorem Script.Holds.asked {may : (call : C) → A call → Prop} {p p' : Script C A α}
    {start : List (Asking C A)} (holds : p.Holds (Parties.logged may) asks ends start)
    (run : Script.Run (Parties.logged may) (p, start) (p', log)) {before after : List (Asking C A)}
    {event : Asking C A} (split : log = before ++ event :: after)
    (later : start.length ≤ before.length) : asks before event.call := by
  generalize reached : (p', log) = final at run
  induction run generalizing p' log after with
  | refl =>
    cases reached
    have := congrArg List.length split
    rw [List.length_append, List.length_cons] at this
    omega
  | @tail middle final first step ih =>
    obtain ⟨q, sofar⟩ := middle
    cases step with
    | move move => exact move.elim
    | @answer call next _ s' answer served =>
      cases reached
      obtain ⟨-, grown⟩ := served
      have waits := holds.run (fun _ _ _ move => move.elim) first
      -- the last event is new, and the task has just asked for it
      rcases List.eq_nil_or_concat after with rfl | ⟨rest, last, rfl⟩
      · obtain ⟨rfl, same⟩ := List.append_inj' (grown.symm.trans split) rfl
        cases same
        exact (waits _ .refl).1
      · have split : sofar ++ [⟨call, answer⟩] = (before ++ event :: rest) ++ [last] := by
          simpa [grown] using split
        exact ih (List.append_inj' split rfl).1 rfl

theorem Routine.Ensures.ask {R : C → Type} {may : (call : C) → Except ε (R call) → Prop}
    {asks : List (Asking C fun c => Except ε (R c)) → C → Prop}
    {log : List (Asking C fun c => Except ε (R c))} {l : L} {c : C}
    {post : Except ε (R c) → L → List (Asking C fun c => Except ε (R c)) → Prop}
    (allowed : asks log c) (holds : ∀ answer, may c answer → post answer l (log ++ [⟨c, answer⟩])) :
    (Routine.call c : Routine C (fun c => Except ε (R c)) L ε (R c)).Ensures
      (Parties.logged may) asks l log post := by
  refine Routine.Ensures.call fun s₁ others => ?_
  obtain rfl := eq_of_logged others
  refine ⟨allowed, fun answer s₂ served => ?_⟩
  obtain ⟨admitted, rfl⟩ := served
  exact holds answer admitted

end Logged

/-! ### Tasks side by side -/

/-- Tasks, and what they share with each other and with everybody else. -/
structure Crew (S C : Type) (A : C → Type) (α : Type) where
  shared : S
  tasks : List (Script C A α)

namespace Crew

variable {S C α : Type} {A : C → Type} {P : Parties S C A}

/-- One step: others move, the call of a task is answered, which may start tasks, or a new task
begins. -/
inductive Step (P : Parties S C A) (spawned : C → List (Script C A α))
    (begins : Script C A α → Prop) : Crew S C A α → Crew S C A α → Prop
  | move {s s' : S} {tasks : List (Script C A α)} : P.moves s s' →
      Step P spawned begins ⟨s, tasks⟩ ⟨s', tasks⟩
  | answer {s s' : S} {tasks : List (Script C A α)} {i : ℕ} {call : C}
      {next : A call → Script C A α} {answer : A call} : tasks[i]? = some (.ask call next) →
      P.serves s call answer s' →
      Step P spawned begins ⟨s, tasks⟩ ⟨s', tasks.set i (next answer) ++ spawned call⟩
  | begin_ {s : S} {tasks : List (Script C A α)} {task : Script C A α} : begins task →
      Step P spawned begins ⟨s, tasks⟩ ⟨s, tasks ++ [task]⟩

variable {spawned : C → List (Script C A α)} {begins : Script C A α → Prop}
  {asks : S → C → Prop} {ends : S → α → Prop} {I : S → Prop} {crew crew' : Crew S C A α}

/-- The invariant of the shared state, and what holds of each task. -/
structure Sound (P : Parties S C A) (asks : S → C → Prop) (ends : S → α → Prop) (I : S → Prop)
    (crew : Crew S C A α) : Prop where
  shared : I crew.shared
  tasks : ∀ task ∈ crew.tasks, task.Holds P asks ends crew.shared

/-- What makes tasks fit together: an allowed call does to the shared state what others may do,
nobody breaks the invariant, and a task that starts keeps to the rules. -/
structure Fits (P : Parties S C A) (asks : S → C → Prop) (ends : S → α → Prop) (I : S → Prop)
    (spawned : C → List (Script C A α)) (begins : Script C A α → Prop) : Prop where
  kept : ∀ s s', I s → P.moves s s' → I s'
  guarantee : ∀ s call answer s', I s → asks s call → P.serves s call answer s' →
    ReflTransGen P.moves s s'
  stable : ∀ s s' a, P.moves s s' → ends s a → ends s' a
  spawned : ∀ s call answer s', I s → asks s call → P.serves s call answer s' →
    ∀ task ∈ spawned call, task.Holds P asks ends s'
  begins : ∀ s task, I s → begins task → task.Holds P asks ends s

theorem Fits.kept_of_path (fits : Fits P asks ends I spawned begins) {s s' : S} (holds : I s)
    (path : ReflTransGen P.moves s s') : I s' := by
  induction path with
  | refl => exact holds
  | tail _ move ih => exact fits.kept _ _ ih move

theorem Sound.step (fits : Fits P asks ends I spawned begins) (sound : crew.Sound P asks ends I)
    (step : Step P spawned begins crew crew') : crew'.Sound P asks ends I := by
  cases step with
  | move move =>
    exact ⟨fits.kept _ _ sound.shared move, fun task member =>
      (sound.tasks task member).later fits.stable (.single move)⟩
  | @answer s s' tasks i call next answer here served =>
    have asked := sound.tasks _ (List.mem_of_getElem? here) s .refl
    have path := fits.guarantee s call answer s' sound.shared asked.1 served
    refine ⟨fits.kept_of_path sound.shared path, fun task member => ?_⟩
    rcases List.mem_append.mp member with old | new
    · rcases List.mem_or_eq_of_mem_set old with kept | rfl
      · exact (sound.tasks task kept).later fits.stable path
      · exact asked.2 answer s' served
    · exact fits.spawned s call answer s' sound.shared asked.1 served task new
  | begin_ begins =>
    refine ⟨sound.shared, fun task member => ?_⟩
    rcases List.mem_append.mp member with old | new
    · exact sound.tasks task old
    · obtain rfl := List.mem_singleton.mp new
      exact fits.begins _ _ sound.shared begins

/-- What holds of a crew holds along every run. -/
theorem holds_of_run (fits : Fits P asks ends I spawned begins) (sound : crew.Sound P asks ends I)
    (run : ReflTransGen (Step P spawned begins) crew crew') : crew'.Sound P asks ends I := by
  induction run with
  | refl => exact sound
  | tail _ step ih => exact ih.step fits step

end Crew

end IntramindRuntime.Library
