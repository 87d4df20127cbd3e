import Mathlib.Data.List.Basic
import Mathlib.Tactic.TypeStar

/-!
# Transactions as trees of statements

A transaction is a finite tree: at every node it performs one statement and
continues with the statement's result, until it returns or raises. The tree says
nothing about scheduling. This file gives it the serial meaning, in which the
statements run one after another with nobody else around and a raised error
undoes everything; `IntramindRuntime.Library.ReadCommitted` gives it the
interleaved one.

## Main definitions

* `RowStore` — a database whose writes each replace one row
* `Engine` — the meaning of a statement language over a database
* `Tx` — a transaction, as a tree of statements
* `Tx.Uses`, `Tx.Raises` — which statements a transaction may perform, and which errors it
  may raise
* `Tx.run` — the serial meaning of a transaction
* `Tx.Ensures`, `Tx.Returns` — partial and total correctness of the serial meaning
* `Tx.Fails`, `Tx.Yields` — what it raises, and what it leaves from wherever it starts

## Main results

* `Tx.run_bind` — running a sequence is running its parts
* `Tx.Ensures.bind`, `Tx.Ensures.forEach` — the sequence rule and the loop rule
* `Tx.Returns.bind`, `Tx.Returns.forEach` — the same for transactions that do return
-/

namespace IntramindRuntime.Library

/-- A database `D` changed by writes `W`, each of which replaces the content of
one row `K` by a value that does not depend on the rest of the database. -/
class RowStore (D : Type) (W K : outParam Type) where
  /-- Perform one write. -/
  apply : W → D → D
  /-- The row a write replaces. -/
  key : W → K
  /-- The content of a row. -/
  Cell : Type
  /-- Read the content of a row. -/
  cell : K → D → Cell
  cell_apply_of_ne : ∀ {k : K} {w : W} (d : D), k ≠ key w → cell k (apply w d) = cell k d
  cell_apply_self : ∀ (w : W) (d d' : D), cell (key w) (apply w d) = cell (key w) (apply w d')

namespace RowStore

variable {D W K : Type} [RowStore D W K]

/-- Perform writes in order. -/
def applyAll (writes : List W) (d : D) : D := writes.foldl (fun d w => apply w d) d

@[simp] theorem applyAll_nil (d : D) : applyAll ([] : List W) d = d := rfl

@[simp] theorem applyAll_cons (w : W) (writes : List W) (d : D) :
    applyAll (w :: writes) d = applyAll writes (apply w d) := rfl

theorem applyAll_append (first second : List W) (d : D) :
    applyAll (first ++ second) d = applyAll second (applyAll first d) :=
  List.foldl_append

/-- A row nobody writes keeps its content. -/
theorem cell_applyAll_of_notMem {k : K} {writes : List W} (d : D)
    (untouched : ∀ w ∈ writes, key D w ≠ k) : cell k (applyAll writes d) = cell k d := by
  induction writes generalizing d with
  | nil => rfl
  | cons w rest ih =>
    rw [applyAll_cons, ih _ fun v member => untouched v (List.mem_cons_of_mem w member),
      cell_apply_of_ne d (untouched w List.mem_cons_self).symm]

/-- After the same writes, a row agrees in two databases that agreed on it. -/
theorem cell_applyAll_congr {k : K} (writes : List W) {d d' : D}
    (same : cell k d = cell k d') :
    cell k (applyAll writes d) = cell k (applyAll writes d') := by
  induction writes generalizing d d' with
  | nil => exact same
  | cons w rest ih =>
    refine ih ?_
    by_cases written : k = key D w
    · subst written
      exact cell_apply_self w d d'
    · rw [cell_apply_of_ne d written, cell_apply_of_ne d' written, same]

/-- A row that is written has the content of one of the writes to it. -/
theorem cell_applyAll_of_mem {k : K} {writes : List W} (d : D)
    (written : ∃ w ∈ writes, key D w = k) :
    ∃ w ∈ writes, key D w = k ∧ cell k (applyAll writes d) = cell k (apply w d) := by
  induction writes generalizing d with
  | nil =>
    obtain ⟨w, member, -⟩ := written
    cases member
  | cons first rest ih =>
    rw [applyAll_cons]
    by_cases later : ∃ w ∈ rest, key D w = k
    · obtain ⟨w, member, here, content⟩ := ih (apply first d) later
      refine ⟨w, List.mem_cons_of_mem first member, here, content.trans ?_⟩
      subst here
      exact cell_apply_self w (apply first d) d
    · obtain ⟨w, member, here⟩ := written
      rcases List.mem_cons.mp member with rfl | member
      · refine ⟨w, List.mem_cons_self, here, cell_applyAll_of_notMem _ fun v inRest same => ?_⟩
        exact later ⟨v, inRest, same⟩
      · exact absurd ⟨w, member, here⟩ later

/-- After writes, a row has its old content, or that of one of the writes to it. -/
theorem cell_applyAll_cases (k : K) (writes : List W) (d : D) :
    cell k (applyAll writes d) = cell k d ∨
      ∃ w ∈ writes, key D w = k ∧ cell k (applyAll writes d) = cell k (apply w d) := by
  induction writes generalizing d with
  | nil => exact Or.inl rfl
  | cons w rest ih =>
    rcases ih (apply w d) with same | ⟨v, member, here, written⟩
    · by_cases here : key D w = k
      · exact Or.inr ⟨w, List.mem_cons_self, here, same⟩
      · exact Or.inl (same.trans (cell_apply_of_ne d (Ne.symm here)))
    · refine Or.inr ⟨v, List.mem_cons_of_mem w member, here, written.trans ?_⟩
      subst here
      exact cell_apply_self v (apply w d) d

end RowStore

/-- What one statement does: the rows it locks beside those it writes, its
writes, and the value it returns. -/
structure Outcome (W K β : Type) where
  locks : List K
  writes : List W
  result : β

/-- The meaning of a statement language `S` over a database. A statement looks
for its rows in the `snapshot` taken when it starts; a row it locks or writes is
read again, and its condition checked again, in the `current` database, which is
newer when the statement waited. `busy` tells the rows other transactions have
locked. -/
class Engine (S : Type → Type) (D : outParam Type) {W K : outParam Type}
    [RowStore D W K] where
  exec : {β : Type} → S β → (busy : K → Bool) → (snapshot current : D) → Outcome W K β

/-- A transaction: statements of `S`, errors in `ε`. -/
inductive Tx (S : Type → Type) (ε α : Type) : Type 1
  | ret (value : α)
  | raise (error : ε)
  | perform {β : Type} (statement : S β) (next : β → Tx S ε α)

namespace Tx

variable {S : Type → Type} {ε α β γ : Type}

/-- Continue a transaction with its result. -/
def bind : Tx S ε α → (α → Tx S ε β) → Tx S ε β
  | ret value, f => f value
  | raise error, _ => raise error
  | perform statement next, f => perform statement fun result => (next result).bind f

instance : Monad (Tx S ε) where
  pure := ret
  bind := bind

/-- The transaction of one statement. -/
def stmt (statement : S β) : Tx S ε β := perform statement ret

/-- Run a transaction on each element in turn. -/
def forEach : List β → (β → Tx S ε Unit) → Tx S ε Unit
  | [], _ => ret ()
  | x :: rest, body => bind (body x) fun _ => forEach rest body

@[simp] theorem pure_eq (value : α) : (pure value : Tx S ε α) = ret value := rfl

@[simp] theorem bind_eq (p : Tx S ε α) (f : α → Tx S ε β) : p >>= f = p.bind f := rfl

@[simp] theorem ret_bind (value : α) (f : α → Tx S ε β) : (ret value).bind f = f value := rfl

@[simp] theorem raise_bind (error : ε) (f : α → Tx S ε β) :
    (raise error : Tx S ε α).bind f = raise error := rfl

@[simp] theorem perform_bind (statement : S γ) (next : γ → Tx S ε α) (f : α → Tx S ε β) :
    (perform statement next).bind f = perform statement fun r => (next r).bind f := rfl

@[simp] theorem stmt_bind (statement : S γ) (f : γ → Tx S ε β) :
    (stmt statement).bind f = perform statement f := rfl

@[simp] theorem forEach_nil (body : β → Tx S ε Unit) : forEach [] body = ret () := rfl

@[simp] theorem forEach_cons (x : β) (rest : List β) (body : β → Tx S ε Unit) :
    forEach (x :: rest) body = (body x).bind fun _ => forEach rest body := rfl

theorem bind_assoc (p : Tx S ε α) (f : α → Tx S ε β) (g : β → Tx S ε γ) :
    (p.bind f).bind g = p.bind fun a => (f a).bind g := by
  induction p with
  | ret value => rfl
  | raise error => rfl
  | perform statement next ih =>
    simp only [perform_bind]
    exact congrArg (perform statement) (funext ih)

/-- Every statement that the transaction may perform satisfies `P`. -/
def Uses (P : {β : Type} → S β → Prop) : Tx S ε α → Prop
  | ret _ => True
  | raise _ => True
  | perform statement next => P statement ∧ ∀ result, (next result).Uses P

namespace Uses

variable {P : {β : Type} → S β → Prop}

theorem bind {p : Tx S ε α} {f : α → Tx S ε β} (first : p.Uses P)
    (rest : ∀ value, (f value).Uses P) : (p.bind f).Uses P := by
  induction p with
  | ret value => exact rest value
  | raise error => trivial
  | perform statement next ih => exact ⟨first.1, fun result => ih result (first.2 result)⟩

theorem forEach {xs : List β} {body : β → Tx S ε Unit} (each : ∀ x, (body x).Uses P) :
    (Tx.forEach xs body).Uses P := by
  induction xs with
  | nil => trivial
  | cons x rest ih => exact (each x).bind fun _ => ih

theorem always (p : Tx S ε α) : p.Uses fun _ => True := by
  induction p with
  | ret value => trivial
  | raise error => trivial
  | perform statement next ih => exact ⟨trivial, ih⟩

theorem mono {Q : {β : Type} → S β → Prop} {p : Tx S ε α} (uses : p.Uses P)
    (weaker : ∀ {β : Type} (statement : S β), P statement → Q statement) : p.Uses Q := by
  induction p with
  | ret value => trivial
  | raise error => trivial
  | perform statement next ih =>
    exact ⟨weaker statement uses.1, fun result => ih result (uses.2 result)⟩

end Uses

/-- Every error that the transaction may raise satisfies `P`. -/
def Raises (P : ε → Prop) : Tx S ε α → Prop
  | ret _ => True
  | raise error => P error
  | perform _ next => ∀ result, (next result).Raises P

namespace Raises

variable {P : ε → Prop}

theorem bind {p : Tx S ε α} {f : α → Tx S ε β} (first : p.Raises P)
    (rest : ∀ value, (f value).Raises P) : (p.bind f).Raises P := by
  induction p with
  | ret value => exact rest value
  | raise error => exact first
  | perform statement next ih => exact fun result => ih result (first result)

theorem forEach {xs : List β} {body : β → Tx S ε Unit} (each : ∀ x, (body x).Raises P) :
    (Tx.forEach xs body).Raises P := by
  induction xs with
  | nil => trivial
  | cons x rest ih => exact (each x).bind fun _ => ih

end Raises

/-- A class of transactions that is closed under composition. -/
structure Closed (C : ∀ {α : Type}, Tx S ε α → Prop) : Prop where
  ret : ∀ {α : Type} (value : α), C (ret value : Tx S ε α)
  raise : ∀ {α : Type} (error : ε), C (raise error : Tx S ε α)
  bind : ∀ {α β : Type} {p : Tx S ε α} {f : α → Tx S ε β}, C p → (∀ value, C (f value)) →
    C (p.bind f)

namespace Closed

variable {C : ∀ {α : Type}, Tx S ε α → Prop}

theorem perform (closed : Closed C) {statement : S β} {next : β → Tx S ε α}
    (first : C (stmt statement : Tx S ε β)) (rest : ∀ result, C (next result)) :
    C (.perform statement next) :=
  closed.bind first rest

theorem forEach (closed : Closed C) {xs : List β} {body : β → Tx S ε Unit}
    (each : ∀ x, C (body x)) : C (Tx.forEach xs body) := by
  induction xs with
  | nil => exact closed.ret ()
  | cons x rest ih => exact closed.bind (each x) fun _ => ih

end Closed

/-! ### The serial meaning -/

section Serial

variable {D W K : Type} [RowStore D W K] [Engine S D]

open RowStore

/-- Run a transaction alone: it returns its result and the database it commits,
or the error it raised, after which the database is as before. -/
def run : Tx S ε α → D → Except ε (α × D)
  | ret value, d => .ok (value, d)
  | raise error, _ => .error error
  | perform statement next, d =>
    let outcome := Engine.exec statement (fun _ => false) d d
    (next outcome.result).run (applyAll outcome.writes d)

@[simp] theorem run_ret (value : α) (d : D) : (ret value : Tx S ε α).run d = .ok (value, d) := rfl

@[simp] theorem run_raise (error : ε) (d : D) :
    (raise error : Tx S ε α).run d = .error error := rfl

theorem run_perform (statement : S β) (next : β → Tx S ε α) (d : D) :
    (perform statement next).run d =
      (next (Engine.exec statement (fun _ => false) d d).result).run
        (applyAll (Engine.exec statement (fun _ => false) d d).writes d) := rfl

theorem run_bind (p : Tx S ε α) (f : α → Tx S ε β) (d : D) :
    (p.bind f).run d = p.run d >>= fun r => (f r.1).run r.2 := by
  induction p generalizing d with
  | ret value => rfl
  | raise error => rfl
  | perform statement next ih =>
    simp only [perform_bind, run_perform, ih]

theorem Raises.error_of_run {P : ε → Prop} {p : Tx S ε α} {d : D} {error : ε} (raises : p.Raises P)
    (failed : p.run d = .error error) : P error := by
  induction p generalizing d with
  | ret value => cases failed
  | raise error =>
    cases failed
    exact raises
  | perform statement next ih => exact ih _ (raises _) failed

/-- Whenever the transaction returns, its result and the database it commits
satisfy `post`. -/
def Ensures (p : Tx S ε α) (d : D) (post : α → D → Prop) : Prop :=
  ∀ value d', p.run d = .ok (value, d') → post value d'

namespace Ensures

variable {p : Tx S ε α} {d : D} {post : α → D → Prop}

theorem ret {value : α} (holds : post value d) : Ensures (.ret value : Tx S ε α) d post := by
  intro value' d' h
  cases h
  exact holds

theorem raise {error : ε} : Ensures (.raise error : Tx S ε α) d post := by
  intro value' d' h
  cases h

theorem perform {statement : S β} {next : β → Tx S ε α}
    (holds : Ensures (next (Engine.exec statement (fun _ => false) d d).result)
      (applyAll (Engine.exec statement (fun _ => false) d d).writes d) post) :
    Ensures (.perform statement next) d post :=
  holds

/-- The sequence rule. -/
theorem bind {f : α → Tx S ε β} {post : β → D → Prop}
    (holds : Ensures p d fun value d' => Ensures (f value) d' post) :
    Ensures (p.bind f) d post := by
  intro value d' h
  rw [run_bind] at h
  cases first : p.run d with
  | error error => rw [first] at h; cases h
  | ok r => rw [first] at h; exact holds r.1 r.2 first value d' h

theorem mono {post' : α → D → Prop} (holds : Ensures p d post')
    (weaker : ∀ value d', post' value d' → post value d') : Ensures p d post :=
  fun value d' h => weaker value d' (holds value d' h)

/-- What every statement of a transaction leaves alone, the transaction leaves alone. -/
theorem of_uses {P : {β : Type} → S β → Prop} {γ : Type*} {view : D → γ} (uses : p.Uses P)
    (keeps : ∀ {β : Type} (statement : S β) (d : D), P statement →
      view (applyAll (Engine.exec statement (fun _ => false) d d).writes d) = view d) :
    Ensures p d fun _ d' => view d' = view d := by
  induction p generalizing d with
  | ret value => exact Ensures.ret rfl
  | raise error => exact Ensures.raise
  | perform statement next ih =>
    refine Ensures.perform ((ih _ (uses.2 _)).mono fun _ _ same => ?_)
    exact same.trans (keeps statement d uses.1)

theorem and {post' : α → D → Prop} (left : Ensures p d post) (right : Ensures p d post') :
    Ensures p d fun value d' => post value d' ∧ post' value d' :=
  fun value d' h => ⟨left value d' h, right value d' h⟩

/-- The loop rule: `invariant` relates the elements still to come to the
database reached so far. -/
theorem forEach {xs : List β} {body : β → Tx S ε Unit} (invariant : List β → D → Prop)
    (start : invariant xs d)
    (step : ∀ x rest d, invariant (x :: rest) d →
      Ensures (body x) d fun _ d' => invariant rest d') :
    Ensures (Tx.forEach xs body) d fun _ d' => invariant [] d' := by
  induction xs generalizing d with
  | nil => exact Ensures.ret start
  | cons x rest ih =>
    exact Ensures.bind ((step x rest d start).mono fun _ d' held => ih held)

end Ensures

/-- The transaction returns, and its result and the database it commits satisfy `post`. -/
def Returns (p : Tx S ε α) (d : D) (post : α → D → Prop) : Prop :=
  ∃ value d', p.run d = .ok (value, d') ∧ post value d'

namespace Returns

variable {p : Tx S ε α} {d : D} {post : α → D → Prop}

theorem ret {value : α} (holds : post value d) : Returns (.ret value : Tx S ε α) d post :=
  ⟨value, d, rfl, holds⟩

theorem perform {statement : S β} {next : β → Tx S ε α}
    (holds : Returns (next (Engine.exec statement (fun _ => false) d d).result)
      (applyAll (Engine.exec statement (fun _ => false) d d).writes d) post) :
    Returns (.perform statement next) d post :=
  holds

/-- The sequence rule. -/
theorem bind {f : α → Tx S ε β} {post : β → D → Prop}
    (holds : Returns p d fun value d' => Returns (f value) d' post) :
    Returns (p.bind f) d post := by
  obtain ⟨value, d', first, value', d'', second, reached⟩ := holds
  refine ⟨value', d'', ?_, reached⟩
  rw [run_bind, first]
  exact second

theorem mono {post' : α → D → Prop} (holds : Returns p d post')
    (weaker : ∀ value d', post' value d' → post value d') : Returns p d post := by
  obtain ⟨value, d', returned, reached⟩ := holds
  exact ⟨value, d', returned, weaker value d' reached⟩

/-- What a transaction returns is determined. -/
theorem ensures (holds : Returns p d post) : Ensures p d post := by
  intro value d' returned
  obtain ⟨value', d'', returned', reached⟩ := holds
  rw [returned] at returned'
  cases returned'
  exact reached

/-- The loop rule: `invariant` relates the elements still to come to the
database reached so far. -/
theorem forEach {xs : List β} {body : β → Tx S ε Unit} (invariant : List β → D → Prop)
    (start : invariant xs d)
    (step : ∀ x rest d, invariant (x :: rest) d →
      Returns (body x) d fun _ d' => invariant rest d') :
    Returns (Tx.forEach xs body) d fun _ d' => invariant [] d' := by
  induction xs generalizing d with
  | nil => exact Returns.ret start
  | cons x rest ih =>
    exact Returns.bind ((step x rest d start).mono fun _ d' held => ih held)

end Returns

/-- Whatever error the transaction raises satisfies `post`. -/
def Fails (p : Tx S ε α) (d : D) (post : ε → Prop) : Prop :=
  ∀ error, p.run d = .error error → post error

namespace Fails

variable {p : Tx S ε α} {d : D} {post : ε → Prop}

theorem ret {value : α} : Fails (.ret value : Tx S ε α) d post := fun _ never => by cases never

theorem raise {error : ε} (holds : post error) : Fails (.raise error : Tx S ε α) d post := by
  intro error' same
  cases same
  exact holds

theorem perform {statement : S β} {next : β → Tx S ε α}
    (holds : Fails (next (Engine.exec statement (fun _ => false) d d).result)
      (applyAll (Engine.exec statement (fun _ => false) d d).writes d) post) :
    Fails (.perform statement next) d post :=
  holds

/-- The sequence rule: the first part fails, or the second one does after it. -/
theorem bind {f : α → Tx S ε β} (first : Fails p d post)
    (rest : Ensures p d fun value d' => Fails (f value) d' post) : Fails (p.bind f) d post := by
  intro error failed
  rw [run_bind] at failed
  cases ran : p.run d with
  | error other =>
    rw [ran] at failed
    cases failed
    exact first _ ran
  | ok reached =>
    rw [ran] at failed
    exact rest _ _ ran _ failed

theorem of_raises {P : ε → Prop} (raises : p.Raises P) (weaker : ∀ error, P error → post error) :
    Fails p d post := fun error failed => weaker error (raises.error_of_run failed)

end Fails

/-- From every database, the result and what is committed satisfy `post`. -/
def Yields (p : Tx S ε α) (post : α → D → Prop) : Prop := ∀ d, p.Ensures d post

namespace Yields

variable {p : Tx S ε α} {post : α → D → Prop}

theorem ret {value : α} (holds : ∀ d, post value d) : Yields (.ret value : Tx S ε α) post :=
  fun d => Ensures.ret (holds d)

theorem raise {error : ε} : Yields (.raise error : Tx S ε α) post := fun _ => Ensures.raise

theorem perform {statement : S β} {next : β → Tx S ε α} (rest : ∀ value, (next value).Yields post) :
    Yields (.perform statement next) post := fun _ => Ensures.perform (rest _ _)

theorem bind {f : α → Tx S ε β} {post : β → D → Prop} (rest : ∀ value, (f value).Yields post) :
    Yields (p.bind f) post := fun _ => Ensures.bind fun value d' _ => rest value d'

end Yields

end Serial

end Tx

end IntramindRuntime.Library
