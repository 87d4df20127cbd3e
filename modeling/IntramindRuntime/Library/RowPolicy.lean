import IntramindRuntime.Library.ReadCommitted

/-!
# Row policies

A policy says of every row which contents are sound, and how its content may
change. Rows that a transaction writes are locked until it ends, so the changes
that its statements make to a row one after the other are the change that its
commit makes. A policy that every statement follows is followed by every run.

## Main definitions

* `RowChange`, `RowPolicy` — allowed changes and sound contents, row by row
* `RowChange.Follows`, `RowPolicy.Kept` — what a transaction has done so far follows it
* `RowPolicy.Allows` — a write follows the policy
* `RowPolicy.Lasting` — a fact that the policy keeps
* `RowChange.KeptBy` — a transaction that runs alone changes rows only as allowed
* `Pins` — a transaction has locked a row and knows a fact about it

## Main results

* `RowPolicy.Kept.stable`, `RowPolicy.Kept.after` — interference and allowed writes
  keep `Kept`
* `RowPolicy.relates`, `RowPolicy.persists` — what follows for every run
-/

namespace IntramindRuntime.Library

open RowStore

/-- How the content of a row may change. -/
structure RowChange (D : Type) {W K : Type} [RowStore D W K] where
  keeps : K → Cell D → Cell D → Prop
  refl : ∀ k content, keeps k content content
  trans : ∀ k {first middle last}, keeps k first middle → keeps k middle last →
    keeps k first last

/-- Which contents of a row are sound, and how the content of a row may change. -/
structure RowPolicy (D : Type) {W K : Type} [RowStore D W K] extends RowChange D where
  sound : K → Cell D → Prop

/-! ### Locked rows -/

section Pins

variable {S : Type → Type} {D W K β : Type} [RowStore D W K] {k : K} {fact : Cell D → Prop}
  {σ : Local S D W K}

/-- The transaction has locked the row `k`, whose content satisfies `fact`. -/
def Pins (k : K) (fact : Cell D → Prop) (σ : Local S D W K) : Prop :=
  σ.held k ∧ fact (cell k σ.view)

namespace Pins

theorem mono {weaker : Cell D → Prop} (pinned : Pins k fact σ)
    (implies : ∀ content, fact content → weaker content) : Pins k weaker σ :=
  ⟨pinned.1, implies _ pinned.2⟩

theorem stable (𝓓 : Discipline S D W K) : Wp.Stable 𝓓 (Pins k fact) := by
  intro σ d pinned rely
  refine ⟨pinned.1, ?_⟩
  rw [rely.cell_view pinned.1]
  exact pinned.2

theorem after (pinned : Pins k fact σ) {outcome : Outcome W K β}
    (writes : ∀ w ∈ outcome.writes, key D w = k → fact (cell k (apply w σ.view))) :
    Pins k fact (σ.after outcome) := by
  refine ⟨Local.held_after _ _ pinned.1, ?_⟩
  rw [Local.view_after]
  rcases cell_applyAll_cases k outcome.writes σ.view with same | ⟨w, member, here, written⟩
  · rw [same]
    exact pinned.2
  · rw [written]
    exact writes w member here

/-- A row that a statement locks is pinned with what the statement reads there. -/
theorem of_lock {outcome : Outcome W K β} (locked : k ∈ outcome.locks)
    (reads : outcome.writes = []) (holds : fact (cell k σ.view)) : Pins k fact (σ.after outcome) := by
  refine ⟨Local.held_after_of_lock _ _ locked, ?_⟩
  rw [Local.view_after, reads]
  exact holds

end Pins

end Pins

/-! ### Changes -/

namespace RowChange

variable {S : Type → Type} {ε : Type} {D W K β : Type} [RowStore D W K] (R : RowChange D)

/-- Every row has changed as allowed. -/
def Keeps (d d' : D) : Prop := ∀ k, R.keeps k (cell k d) (cell k d')

theorem Keeps.refl (d : D) : R.Keeps d d := fun k => R.refl k _

variable {R}

theorem Keeps.trans {d d' d'' : D} (first : R.Keeps d d') (second : R.Keeps d' d'') :
    R.Keeps d d'' := fun k => R.trans k (first k) (second k)

variable (R)

/-- What the transaction will change if it commits now is allowed. -/
structure Follows (σ : Local S D W K) : Prop where
  locked : ∀ w ∈ σ.writes, σ.held (key D w)
  keeps : R.Keeps σ.committed σ.view

namespace Follows

variable {R} {σ : Local S D W K} {d : D} {𝓓 : Discipline S D W K}

theorem initial (d : D) : R.Follows (Local.initial d : Local S D W K) :=
  ⟨fun _ member => (List.not_mem_nil member).elim, Keeps.refl R d⟩

theorem started (follows : R.Follows σ) (statement : S β) : R.Follows (σ.started statement) :=
  ⟨follows.locked, follows.keeps⟩

/-- Behind the back of a transaction, a row it has not written changes with the
committed database, and a row it has written does not change. -/
theorem cell_upon (follows : R.Follows σ) (rely : 𝓓.Rely σ d) (k : K) :
    (cell k d = cell k σ.committed ∧ cell k (σ.upon d).view = cell k σ.view) ∨
      (cell k (σ.upon d).view = cell k d ∧ cell k σ.view = cell k σ.committed) :=
  rely.cell_upon follows.locked k

theorem stable (𝓓 : Discipline S D W K) : Wp.Stable 𝓓 R.Follows := by
  intro σ d follows rely
  refine ⟨follows.locked, fun k => ?_⟩
  rcases follows.cell_upon rely k with ⟨unchanged, same⟩ | ⟨moved, -⟩
  · rw [same, Local.upon_committed, unchanged]
    exact follows.keeps k
  · rw [moved]
    exact R.refl k _

/-- Writes that are allowed after what is committed keep the changes of a transaction
allowed, whatever it has written before. -/
theorem after_over (follows : R.Follows σ) {outcome : Outcome W K β}
    (allowed : ∀ w ∈ outcome.writes,
      R.keeps (key D w) (cell (key D w) σ.committed) (cell (key D w) (apply w σ.view))) :
    R.Follows (σ.after outcome) := by
  refine ⟨fun w member => ?_, fun k => ?_⟩
  · rcases List.mem_append.mp member with old | new
    · exact Local.held_after _ _ (follows.locked w old)
    · exact Local.held_after_of_write _ _ new
  · rw [Local.view_after]
    rcases cell_applyAll_cases k outcome.writes σ.view with same | ⟨w, member, rfl, written⟩
    · rw [same]
      exact follows.keeps k
    · rw [written]
      exact allowed w member

/-- Allowed writes keep the changes of a transaction allowed. -/
theorem after (follows : R.Follows σ) {outcome : Outcome W K β}
    (allowed : ∀ w ∈ outcome.writes,
      R.keeps (key D w) (cell (key D w) σ.view) (cell (key D w) (apply w σ.view))) :
    R.Follows (σ.after outcome) :=
  follows.after_over fun w member => R.trans _ (follows.keeps _) (allowed w member)

end Follows

/-! ### Changes of a transaction that runs alone -/

section Serial

variable {S : Type → Type} {ε : Type} {D W K α β : Type} [RowStore D W K] [Engine S D]
  (R R' : RowChange D)

/-- The changes that both of two laws allow. -/
def both : RowChange D where
  keeps k content content' := R.keeps k content content' ∧ R'.keeps k content content'
  refl k content := ⟨R.refl k content, R'.refl k content⟩
  trans k _ _ _ first second := ⟨R.trans k first.1 second.1, R'.trans k first.2 second.2⟩

variable {R R'} in
theorem Keeps.left {d d' : D} (keeps : (R.both R').Keeps d d') : R.Keeps d d' :=
  fun k => (keeps k).1

variable {R R'} in
theorem Keeps.right {d d' : D} (keeps : (R.both R').Keeps d d') : R'.Keeps d d' :=
  fun k => (keeps k).2

/-- Run alone, the transaction changes rows only as allowed. -/
def KeptBy (p : Tx S ε α) : Prop := ∀ d, p.Ensures d fun _ d' => R.Keeps d d'

theorem keptBy_closed : Tx.Closed (S := S) (ε := ε) fun p => R.KeptBy p where
  ret _ d := Tx.Ensures.ret (Keeps.refl R d)
  raise _ _ := Tx.Ensures.raise
  bind first rest d := Tx.Ensures.bind ((first d).mono fun value d' before =>
    (rest value d').mono fun _ _ after => before.trans after)

variable {R R'}

theorem KeptBy.both {p : Tx S ε α} (left : R.KeptBy p) (right : R'.KeptBy p) :
    (R.both R').KeptBy p :=
  fun d => ((left d).and (right d)).mono fun _ _ keeps k => ⟨keeps.1 k, keeps.2 k⟩

/-- A statement changes a row only as one of its writes does. -/
theorem keptBy_stmt {statement : S β}
    (allowed : ∀ d, ∀ w ∈ (Engine.exec statement (fun _ => false) d d).writes,
      R.keeps (key D w) (cell (key D w) d) (cell (key D w) (apply w d))) :
    R.KeptBy (Tx.stmt statement : Tx S ε β) := by
  refine fun d => Tx.Ensures.perform (Tx.Ensures.ret fun k => ?_)
  rcases cell_applyAll_cases k (Engine.exec statement (fun _ => false) d d).writes d with
    same | ⟨w, member, rfl, written⟩
  · rw [same]
    exact R.refl k _
  · rw [written]
    exact allowed d w member

/-- A law that all statements of a transaction keep. -/
theorem keptBy_of_uses {P : {β : Type} → S β → Prop} {p : Tx S ε α} (uses : p.Uses P)
    (kept : ∀ {β : Type} (statement : S β), P statement →
      R.KeptBy (Tx.stmt statement : Tx S ε β)) : R.KeptBy p := by
  induction p with
  | ret value => exact R.keptBy_closed.ret value
  | raise error => exact R.keptBy_closed.raise error
  | perform statement next ih =>
    exact R.keptBy_closed.perform (kept statement uses.1) fun result => ih result (uses.2 result)

end Serial

end RowChange

/-! ### Policies -/

namespace RowPolicy

variable {S : Type → Type} {ε ρ C D W K β : Type} [RowStore D W K] (P : RowPolicy D)

/-- Every row is sound. -/
def Sound (d : D) : Prop := ∀ k, P.sound k (cell k d)

/-- A fact that holds on, as long as rows change only as the policy allows. -/
def Lasting (fact : D → Prop) : Prop := ∀ ⦃d d'⦄, fact d → P.Keeps d d' → fact d'

/-- The write `w` to the database `d` follows the policy. -/
structure Allows (d : D) (w : W) : Prop where
  sound : P.sound (key D w) (cell (key D w) (apply w d))
  keeps : P.keeps (key D w) (cell (key D w) d) (cell (key D w) (apply w d))

/-- What everybody follows, everybody relies on. -/
def discipline (admits : Local S D W K → ∀ {β : Type}, S β → Prop) : Discipline S D W K where
  extra σ d := (P.Sound σ.committed → P.Sound d) ∧ P.Keeps σ.committed d
  extra_refl σ := ⟨id, RowChange.Keeps.refl _ σ.committed⟩
  extra_trans first second := ⟨second.1 ∘ first.1, first.2.trans second.2⟩
  admits := admits

/-- What the transaction has done so far follows the policy. -/
structure Kept (σ : Local S D W K) : Prop extends P.Follows σ where
  sound : P.Sound σ.committed
  view : P.Sound σ.view

variable {P} {σ : Local S D W K} {d : D} {admits : Local S D W K → ∀ {β : Type}, S β → Prop}

namespace Kept

theorem initial (sound : P.Sound d) : P.Kept (Local.initial d : Local S D W K) :=
  ⟨.initial d, sound, sound⟩

theorem started (kept : P.Kept σ) (statement : S β) : P.Kept (σ.started statement) :=
  ⟨kept.toFollows.started statement, kept.sound, kept.view⟩

/-- Interference changes what a transaction sees only as the policy allows. -/
theorem keeps_view (kept : P.Kept σ) (rely : (P.discipline admits).Rely σ d) :
    P.Keeps σ.view (σ.upon d).view := by
  intro k
  rcases kept.cell_upon rely k with ⟨-, same⟩ | ⟨moved, same⟩
  · rw [same]
    exact P.refl k _
  · rw [moved, same]
    exact rely.2.2 k

theorem stable : Wp.Stable (P.discipline admits) (P.Kept (S := S)) := by
  intro σ d kept rely
  have sound := rely.2.1 kept.sound
  refine ⟨RowChange.Follows.stable _ σ d kept.toFollows rely, sound, fun k => ?_⟩
  rcases kept.cell_upon rely k with ⟨-, same⟩ | ⟨moved, -⟩
  · rw [same]
    exact kept.view k
  · rw [moved]
    exact sound k

/-- A fact that the policy keeps is stable. -/
theorem stable_with {fact : D → Prop} (lasts : P.Lasting fact) :
    Wp.Stable (P.discipline admits) fun σ : Local S D W K => P.Kept σ ∧ fact σ.view :=
  fun σ d here rely => ⟨stable σ d here.1 rely, lasts here.2 (here.1.keeps_view rely)⟩

/-- Allowed writes change what a transaction sees as the policy allows. -/
theorem keeps_after {outcome : Outcome W K β} (allowed : ∀ w ∈ outcome.writes, P.Allows σ.view w) :
    P.Keeps σ.view (σ.after outcome).view := by
  intro k
  rw [Local.view_after]
  rcases cell_applyAll_cases k outcome.writes σ.view with same | ⟨w, member, rfl, written⟩
  · rw [same]
    exact P.refl k _
  · rw [written]
    exact (allowed w member).keeps

/-- Sound writes that are allowed after what is committed keep what a transaction has done
within the policy. -/
theorem after_over (kept : P.Kept σ) {outcome : Outcome W K β}
    (allowed : ∀ w ∈ outcome.writes, P.sound (key D w) (cell (key D w) (apply w σ.view)) ∧
      P.keeps (key D w) (cell (key D w) σ.committed) (cell (key D w) (apply w σ.view))) :
    P.Kept (σ.after outcome) := by
  refine ⟨kept.toFollows.after_over fun w member => (allowed w member).2, kept.sound,
    fun k => ?_⟩
  rw [Local.view_after]
  rcases cell_applyAll_cases k outcome.writes σ.view with same | ⟨w, member, rfl, written⟩
  · rw [same]
    exact kept.view k
  · rw [written]
    exact (allowed w member).1

/-- Allowed writes keep what a transaction has done within the policy. -/
theorem after (kept : P.Kept σ) {outcome : Outcome W K β}
    (allowed : ∀ w ∈ outcome.writes, P.Allows σ.view w) : P.Kept (σ.after outcome) :=
  kept.after_over fun w member =>
    ⟨(allowed w member).sound, P.trans _ (kept.keeps _) (allowed w member).keeps⟩

theorem after_read (kept : P.Kept σ) {outcome : Outcome W K β} (reads : outcome.writes = []) :
    P.Kept (σ.after outcome) := by
  refine kept.after fun w member => ?_
  rw [reads] at member
  cases member

variable [Engine S D]

/-- A statement whose writes all follow the policy. -/
theorem stmt {statement : S β}
    (allowed : ∀ snap (σ : Local S D W K) busy, P.Kept σ → admits σ statement →
      ∀ w ∈ (Engine.exec statement busy snap σ.view).writes, P.Allows σ.view w) :
    Wp.Preserves (P.discipline admits) P.Kept (Tx.stmt statement : Tx S ε β) :=
  Wp.Preserves.stmt stable (fun _ kept => kept.started statement)
    fun snap σ busy kept ok => kept.after (allowed snap σ busy kept ok)

/-- A statement whose writes all follow the policy, with a fact that the policy keeps. -/
theorem stmt_with {statement : S β} {fact : D → Prop} (lasts : P.Lasting fact)
    (allowed : ∀ snap (σ : Local S D W K) busy, P.Kept σ → admits σ statement →
      ∀ w ∈ (Engine.exec statement busy snap σ.view).writes, P.Allows σ.view w) :
    Wp.Preserves (P.discipline admits) (fun σ => P.Kept σ ∧ fact σ.view)
      (Tx.stmt statement : Tx S ε β) := by
  refine Wp.Preserves.stmt (stable_with lasts) (fun σ here => ⟨here.1.started statement, here.2⟩)
    fun snap σ busy here ok => ?_
  have allowed := allowed snap σ busy here.1 ok
  exact ⟨here.1.after allowed, lasts here.2 (keeps_after allowed)⟩

/-- A plain read returns what it finds in a sound snapshot, since when rows have
changed only as the policy allows. -/
theorem read (kept : P.Kept σ) (statement : S β) (fact : β → D → Prop)
    (lasts : ∀ result, P.Lasting (fact result))
    (reads : ∀ busy snap d, (Engine.exec statement busy snap d).writes = [])
    (holds : ∀ busy snap d, P.Sound snap → P.Keeps snap d →
      fact (Engine.exec statement busy snap d).result d) :
    Wp (P.discipline admits) (Tx.stmt statement : Tx S ε β) σ
      fun result σ' => P.Kept σ' ∧ fact result σ'.view := by
  have waiting : ∀ snap, Wp.Stable (P.discipline admits)
      fun σ' : Local S D W K => P.Kept σ' ∧ P.Sound snap ∧ P.Keeps snap σ'.view :=
    fun snap σ' d here rely => ⟨stable σ' d here.1 rely, here.2.1,
      here.2.2.trans (here.1.keeps_view rely)⟩
  refine Wp.perform waiting (fun d rely => ?_) fun snap σ' busy here _ => Wp.ret fun d rely => ?_
  · have kept := stable σ d kept rely
    exact ⟨kept.started statement, kept.view, RowChange.Keeps.refl _ _⟩
  · refine stable_with (lasts _) _ d ⟨here.1.after_read (reads ..), ?_⟩ rely
    rw [Local.view_after, reads]
    exact holds _ _ _ here.2.1 here.2.2

end Kept

section Runs

variable [Engine S D] {code : C → Tx S ε ρ}
  {allowed : System S ε ρ C D W K → Event C → Prop} {fact : C → ρ → D → Prop}
  {post : C → ρ → Local S D W K → Prop} {first last : System S ε ρ C D W K}

/-- A policy that every program follows, with what the programs guarantee beside it. -/
theorem toSound (kept : ∀ {call value σ}, post call value σ → P.Kept σ)
    (admitted : ∀ {sys : System S ε ρ C D W K} {t session β} {statement : S β} {next},
      sys.sessions t = .active session → session.prog = .perform statement next →
      allowed sys (.exec t) → admits (sys.localOf t session) statement)
    (follows : ∀ call d, P.Sound d →
      Wp (P.discipline admits) (code call) (Local.initial d) (post call)) :
    Library.Sound code allowed (fun _ => P.discipline admits) P.Sound post where
  admits := admitted
  code := follows
  commit _ _ _ _ done :=
    ⟨(kept done).view, fun _ _ _ _ => ⟨fun _ => (kept done).view, (kept done).keeps⟩⟩

variable [DecidableEq K] (kept : ∀ {call value σ}, post call value σ → P.Kept σ)
  (sound : Library.Sound code allowed (fun _ => P.discipline admits) P.Sound post)

include kept sound

/-- Every row changes as the policy allows from any state of a run to any later one. -/
theorem relates (start : P.Sound d) (before : System.Run code allowed (System.initial d) first)
    (after : System.Run code allowed first last) : P.Keeps first.committed last.committed :=
  sound.relates (RowChange.Keeps.refl _) RowChange.Keeps.trans
    (fun _ _ _ _ done => (kept done).keeps) (sound.held (Held.initial start) before) after

/-- What a transaction guarantees, and the policy keeps, holds from its commit on. -/
theorem persists (guarantees : ∀ {call value σ}, post call value σ → fact call value σ.view)
    (lasts : ∀ call value, P.Lasting (fact call value))
    (start : P.Sound d) (run : System.Run code allowed (System.initial d) last) :
    ∀ t call value, last.sessions t = .committed call value → fact call value last.committed :=
  sound.persists fact (fun _ _ _ _ done =>
      ⟨guarantees done, fun call value before => lasts call value before (kept done).keeps⟩)
    (Held.initial start) (fun _ _ _ ended => by cases ended) run

end Runs

end RowPolicy

end IntramindRuntime.Library
