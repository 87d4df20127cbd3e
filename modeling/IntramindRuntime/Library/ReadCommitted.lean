import IntramindRuntime.Library.Transaction

/-!
# Interleaved transactions under READ COMMITTED

Any number of transactions run side by side. Each statement sees what was
committed when it started together with its own transaction's writes. Rows that
are written or selected for update stay locked until the transaction ends, so a
statement that needs such a row waits, and then looks at the row again.

Proofs about such runs use rely and guarantee. Between two statements of a
transaction the committed database may change, but never in a row the
transaction has locked, and only as the other transactions guarantee. A program
verified under that interference keeps its verification in every run.

## Main definitions

* `System`, `Event`, `System.step`, `System.Run` — the interleaved semantics
* `Local` — what a running transaction owns, over the committed database
* `Discipline` — the interference a proof relies on
* `Wp` — correctness of a program under that interference
* `System.Sparing` — a transaction commits only when the others in flight can bear it
* `Sound` — the obligations of a rely-guarantee proof

## Main results

* `Wp.bind`, `Wp.perform`, `Wp.forEach` — the rules of the program logic
* `Sound.held`, `Sound.invariant_of_run` — in every run, the committed database
  keeps its invariant and every running transaction keeps its verification
* `Sound.relates` — a preorder that every commit respects relates any two states
* `Sound.persists` — what a transaction guarantees, and no commit breaks, holds from then on
-/

namespace IntramindRuntime.Library

open RowStore

/-- The state of a running transaction: the rest of its program, the snapshot of
a statement that has started but not yet run, its writes, and the statements it
has started. -/
structure Session (S : Type → Type) (ε ρ C D W : Type) : Type 1 where
  call : C
  prog : Tx S ε ρ
  snapshot : Option D
  writes : List W
  log : List (Σ β, S β)

/-- Where a transaction is in its life. -/
inductive Status (S : Type → Type) (ε ρ C D W : Type) : Type 1
  | idle
  | active (session : Session S ε ρ C D W)
  | committed (call : C) (value : ρ)
  | aborted (call : C) (error : Option ε)

/-- The transaction, while it is in flight. -/
def Status.running {S : Type → Type} {ε ρ C D W : Type} :
    Status S ε ρ C D W → Option (Session S ε ρ C D W)
  | .active session => some session
  | _ => none

/-- The committed database, the transaction holding each row lock, and the
transactions. -/
structure System (S : Type → Type) (ε ρ C D W K : Type) : Type 1 where
  committed : D
  owner : K → Option ℕ
  sessions : ℕ → Status S ε ρ C D W

/-- What the scheduler may do next: begin a transaction, start its next
statement, run that statement, commit, or roll back. -/
inductive Event (C : Type)
  | start (t : ℕ) (call : C)
  | look (t : ℕ)
  | exec (t : ℕ)
  | commit (t : ℕ)
  | abort (t : ℕ)

variable {S : Type → Type} {ε ρ C D W K : Type}

/-- The transaction that an event moves. -/
def Event.transaction : Event C → ℕ
  | .start t _ | .look t | .exec t | .commit t | .abort t => t

namespace System

/-- Give transaction `t` a new status. -/
def setStatus (sys : System S ε ρ C D W K) (t : ℕ) (status : Status S ε ρ C D W) :
    System S ε ρ C D W K :=
  { sys with sessions := fun u => if u = t then status else sys.sessions u }

/-- Another transaction than `t` holds the lock of row `k`. -/
def busy (sys : System S ε ρ C D W K) (t : ℕ) (k : K) : Bool :=
  match sys.owner k with
  | some u => decide (u ≠ t)
  | none => false

/-- Give up the locks of `t`. -/
def release (sys : System S ε ρ C D W K) (t : ℕ) : System S ε ρ C D W K :=
  { sys with owner := fun k => if sys.owner k = some t then none else sys.owner k }

/-- The error a program is about to roll back with, if it raised one. -/
def raised : Tx S ε ρ → Option ε
  | .raise error => some error
  | _ => none

section Lookups

variable {sys : System S ε ρ C D W K} {t u : ℕ} {k : K}

@[simp] theorem setStatus_sessions_self (status : Status S ε ρ C D W) :
    (sys.setStatus t status).sessions t = status := by simp [setStatus]

theorem setStatus_sessions_of_ne (status : Status S ε ρ C D W) (different : u ≠ t) :
    (sys.setStatus t status).sessions u = sys.sessions u := by simp [setStatus, different]

@[simp] theorem setStatus_committed (status : Status S ε ρ C D W) :
    (sys.setStatus t status).committed = sys.committed := rfl

@[simp] theorem setStatus_owner (status : Status S ε ρ C D W) :
    (sys.setStatus t status).owner = sys.owner := rfl

theorem busy_of_owner (owned : sys.owner k = some u) (different : u ≠ t) :
    sys.busy t k = true := by simp [busy, owned, different]

theorem release_owner_of_ne (different : u ≠ t) :
    (sys.release t).owner k = some u ↔ sys.owner k = some u := by
  by_cases mine : sys.owner k = some t
  · simp only [release, mine, if_true, Option.some.injEq, reduceCtorEq, false_iff]
    exact fun h => different h.symm
  · simp [release, mine]

theorem release_owner_self : (sys.release t).owner k ≠ some t := by
  by_cases mine : sys.owner k = some t <;> simp [release, mine]

end Lookups

variable [DecidableEq K] [RowStore D W K] [Engine S D]

/-- One step of the interleaved semantics. A statement runs only when nobody else
holds a row it locks or writes. A transaction may roll back at any time. -/
def step (code : C → Tx S ε ρ) (sys : System S ε ρ C D W K) :
    Event C → Option (System S ε ρ C D W K)
  | .start t call =>
    match sys.sessions t with
    | .idle => some (sys.setStatus t (.active ⟨call, code call, none, [], []⟩))
    | _ => none
  | .look t =>
    match sys.sessions t with
    | .active session =>
      match session.snapshot, session.prog with
      | none, .perform statement _ => some (sys.setStatus t
          (.active { session with
            snapshot := some sys.committed
            log := session.log ++ [⟨_, statement⟩] }))
      | _, _ => none
    | _ => none
  | .exec t =>
    match sys.sessions t with
    | .active session =>
      match session.snapshot, session.prog with
      | some snapshot, .perform statement next =>
        let outcome := Engine.exec statement (sys.busy t)
          (applyAll session.writes snapshot) (applyAll session.writes sys.committed)
        let keys := outcome.locks ++ outcome.writes.map (key D)
        if keys.any (sys.busy t) then none
        else some (System.setStatus
          { sys with owner := fun k => if k ∈ keys then some t else sys.owner k } t
          (.active { session with
            prog := next outcome.result
            snapshot := none
            writes := session.writes ++ outcome.writes }))
      | _, _ => none
    | _ => none
  | .commit t =>
    match sys.sessions t with
    | .active session =>
      match session.prog with
      | .ret value => some (System.setStatus
          { sys.release t with committed := applyAll session.writes sys.committed } t
          (.committed session.call value))
      | _ => none
    | _ => none
  | .abort t =>
    match sys.sessions t with
    | .active session =>
      some ((sys.release t).setStatus t (.aborted session.call (raised session.prog)))
    | _ => none

/-- Runs all of whose steps are `allowed` in the state they are taken in. -/
inductive Run (code : C → Tx S ε ρ) (allowed : System S ε ρ C D W K → Event C → Prop) :
    System S ε ρ C D W K → System S ε ρ C D W K → Prop
  | refl (sys) : Run code allowed sys sys
  | tail {first middle last} (event : Event C) (run : Run code allowed first middle)
      (ok : allowed middle event) (step : middle.step code event = some last) :
      Run code allowed first last

theorem Run.trans {code : C → Tx S ε ρ} {allowed : System S ε ρ C D W K → Event C → Prop}
    {first middle last : System S ε ρ C D W K} (before : Run code allowed first middle)
    (after : Run code allowed middle last) : Run code allowed first last := by
  induction after with
  | refl => exact before
  | tail event _ ok step ih => exact ih.tail event ok step

theorem Run.mono {code : C → Tx S ε ρ} {allowed fewer : System S ε ρ C D W K → Event C → Prop}
    {first last : System S ε ρ C D W K} (run : Run code fewer first last)
    (implies : ∀ sys event, fewer sys event → allowed sys event) :
    Run code allowed first last := by
  induction run with
  | refl => exact .refl _
  | tail event _ ok step ih => exact ih.tail event (implies _ _ ok) step

/-- Take the events of a list in turn, as long as they are allowed and possible. -/
def play (code : C → Tx S ε ρ) (allowed : System S ε ρ C D W K → Event C → Prop)
    [∀ sys event, Decidable (allowed sys event)] :
    System S ε ρ C D W K → List (Event C) → Option (System S ε ρ C D W K)
  | sys, [] => some sys
  | sys, event :: rest =>
    if allowed sys event then (sys.step code event).bind fun next => play code allowed next rest
    else none

theorem Run.of_play {code : C → Tx S ε ρ} {allowed : System S ε ρ C D W K → Event C → Prop}
    [∀ sys event, Decidable (allowed sys event)] {first last : System S ε ρ C D W K}
    {events : List (Event C)} (played : play code allowed first events = some last) :
    Run code allowed first last := by
  induction events generalizing first with
  | nil =>
    cases played
    exact .refl _
  | cons event rest ih =>
    unfold play at played
    split at played
    · next ok =>
      obtain ⟨next, step, played⟩ := Option.bind_eq_some_iff.mp played
      exact Run.trans (.tail event (.refl first) ok step) (ih played)
    · cases played

/-- A step moves one transaction. -/
theorem step_moves {code : C → Tx S ε ρ} {sys sys' : System S ε ρ C D W K} {event : Event C}
    (step : sys.step code event = some sys') {u : ℕ} (other : u ≠ event.transaction) :
    sys'.sessions u = sys.sessions u := by
  cases event with
  | start t | look t | exec t | commit t | abort t =>
    simp only [System.step] at step
    repeat' split at step
    all_goals cases step
    all_goals exact setStatus_sessions_of_ne _ other

/-- No transaction from `n` on has begun. -/
def IdleFrom (sys : System S ε ρ C D W K) (n : ℕ) : Prop := ∀ t, n ≤ t → sys.sessions t = .idle

/-- A schedule of the first `n` transactions, played with a test of every step that says
no less than what is allowed, as long as the others have not begun. -/
theorem Run.of_play_below {code : C → Tx S ε ρ}
    {allowed tested : System S ε ρ C D W K → Event C → Prop}
    [∀ sys event, Decidable (tested sys event)] {n : ℕ}
    (implies : ∀ sys event, sys.IdleFrom n → tested sys event → allowed sys event)
    {first last : System S ε ρ C D W K} (idle : first.IdleFrom n) {events : List (Event C)}
    (below : ∀ event ∈ events, event.transaction < n)
    (played : play code tested first events = some last) :
    Run code allowed first last ∧ last.IdleFrom n := by
  induction events generalizing first with
  | nil =>
    cases played
    exact ⟨.refl _, idle⟩
  | cons event rest ih =>
    unfold play at played
    split at played
    · next ok =>
      obtain ⟨next, step, played⟩ := Option.bind_eq_some_iff.mp played
      have mine := below event List.mem_cons_self
      have idle' : next.IdleFrom n := by
        intro t le
        have other : t ≠ event.transaction := by omega
        rw [step_moves step other]
        exact idle t le
      obtain ⟨run, idle'⟩ := ih idle' (fun later member =>
        below later (List.mem_cons_of_mem _ member)) played
      exact ⟨Run.trans (.tail event (.refl first) (implies _ _ idle ok) step) run, idle'⟩
    · cases played

/-- There is always a transaction that has not begun. -/
theorem Run.exists_idle {code : C → Tx S ε ρ} {allowed : System S ε ρ C D W K → Event C → Prop}
    {first last : System S ε ρ C D W K} (run : Run code allowed first last) (from_ : ℕ)
    (idle : first.IdleFrom from_) : ∃ from_, last.IdleFrom from_ := by
  induction run with
  | refl => exact ⟨from_, idle⟩
  | tail event _ _ step ih =>
    obtain ⟨from_, idle⟩ := ih
    refine ⟨max from_ (event.transaction + 1), fun t le => ?_⟩
    have other : t ≠ event.transaction := by omega
    rw [step_moves step other]
    exact idle t (by omega)

/-- A statement runs when its rows are free. -/
theorem step_exec {code : C → Tx S ε ρ} {sys : System S ε ρ C D W K} {t : ℕ}
    {session : Session S ε ρ C D W} {snapshot : D} {β : Type} {statement : S β}
    {next : β → Tx S ε ρ} {outcome : Outcome W K β} (active : sys.sessions t = .active session)
    (looked : session.snapshot = some snapshot) (program : session.prog = .perform statement next)
    (exec : outcome = Engine.exec statement (sys.busy t)
      (applyAll session.writes snapshot) (applyAll session.writes sys.committed))
    (free : ∀ k ∈ outcome.locks ++ outcome.writes.map (key D), sys.busy t k = false) :
    sys.step code (.exec t) = some (System.setStatus
      { sys with owner := fun k =>
          if k ∈ outcome.locks ++ outcome.writes.map (key D) then some t else sys.owner k } t
      (.active { session with
        prog := next outcome.result
        snapshot := none
        writes := session.writes ++ outcome.writes })) := by
  subst exec
  simp only [System.step, active, looked, program]
  refine if_neg fun taken => ?_
  obtain ⟨k, member, busy⟩ := List.any_eq_true.mp taken
  rw [free k member] at busy
  cases busy

/-- A transaction of one statement whose rows are free runs from its beginning to its end. -/
theorem run_of_free {code : C → Tx S ε ρ} {sys : System S ε ρ C D W K} {t : ℕ} {call : C}
    {β : Type} {statement : S β} {reply : β → ρ} {outcome : Outcome W K β}
    (idle : sys.sessions t = .idle)
    (program : code call = .perform statement fun result => .ret (reply result))
    (exec : outcome = Engine.exec statement (sys.busy t) sys.committed sys.committed)
    (free : ∀ k ∈ outcome.locks ++ outcome.writes.map (key D), sys.busy t k = false) :
    ∃ last, Run code (fun _ _ => True) sys last ∧
      last.committed = applyAll outcome.writes sys.committed ∧
      last.sessions t = .committed call (reply outcome.result) ∧
      (∀ u, u ≠ t → last.sessions u = sys.sessions u) ∧
      ∀ k, sys.owner k = none → last.owner k = none := by
  let begun := sys.setStatus t (.active ⟨call, code call, none, [], []⟩)
  let waiting : Session S ε ρ C D W :=
    ⟨call, code call, some sys.committed, [], [⟨_, statement⟩]⟩
  let looked := begun.setStatus t (.active waiting)
  let keys := outcome.locks ++ outcome.writes.map (key D)
  let ran := System.setStatus
    { looked with owner := fun k => if k ∈ keys then some t else sys.owner k } t
    (.active ⟨call, .ret (reply outcome.result), none, outcome.writes, [⟨_, statement⟩]⟩)
  let last := System.setStatus
    { ran.release t with committed := applyAll outcome.writes sys.committed } t
    (.committed call (reply outcome.result))
  have start : sys.step code (.start t call) = some begun := by
    simp only [System.step, idle, begun]
  have look : begun.step code (.look t) = some looked := by
    simp only [System.step, begun, setStatus_sessions_self, program, looked, waiting,
      setStatus_committed]
    rfl
  have run : looked.step code (.exec t) = some ran := by
    have active : looked.sessions t = .active waiting := setStatus_sessions_self _
    exact step_exec active rfl program exec free
  have commit : ran.step code (.commit t) = some last := by
    simp only [System.step, ran, setStatus_sessions_self]
    rfl
  have whole : Run code (fun _ _ => True) sys last :=
    ((((Run.refl sys).tail _ trivial start).tail _ trivial look).tail _ trivial run).tail _ trivial
      commit
  refine ⟨last, whole, rfl, setStatus_sessions_self _, fun u other => ?_, fun k unowned => ?_⟩
  · simp only [last, ran, looked, begun, setStatus_sessions_of_ne _ other, release]
  · -- the lock table of the transaction is given up with it
    by_cases mine : k ∈ keys
    · simp only [last, ran, setStatus_owner, release, mine, if_true]
    · simp only [last, ran, setStatus_owner, release, mine, if_false, unowned, reduceCtorEq]

/-- Nothing is running on the database `d`. -/
def initial (d : D) : System S ε ρ C D W K := ⟨d, fun _ => none, fun _ => .idle⟩

end System

/-! ### What a running transaction sees -/

/-- A running transaction over the committed database: the rows it has locked,
its writes, and the statements it has started. -/
structure Local (S : Type → Type) (D W K : Type) : Type 1 where
  committed : D
  held : K → Prop
  writes : List W
  log : List (Σ β, S β)

namespace Local

/-- A transaction that has not done anything yet. -/
def initial (d : D) : Local S D W K := ⟨d, fun _ => False, [], []⟩

/-- The same transaction after others have committed. -/
def upon (σ : Local S D W K) (d : D) : Local S D W K := { σ with committed := d }

@[simp] theorem upon_committed (σ : Local S D W K) (d : D) : (σ.upon d).committed = d := rfl
@[simp] theorem upon_held (σ : Local S D W K) (d : D) : (σ.upon d).held = σ.held := rfl
@[simp] theorem upon_writes (σ : Local S D W K) (d : D) : (σ.upon d).writes = σ.writes := rfl
@[simp] theorem upon_log (σ : Local S D W K) (d : D) : (σ.upon d).log = σ.log := rfl
@[simp] theorem upon_upon (σ : Local S D W K) (d d' : D) : (σ.upon d).upon d' = σ.upon d' := rfl
@[simp] theorem upon_self (σ : Local S D W K) : σ.upon σ.committed = σ := rfl

/-- The transaction with one more statement started. -/
def started {β : Type} (σ : Local S D W K) (statement : S β) : Local S D W K :=
  { σ with log := σ.log ++ [⟨β, statement⟩] }

section Started

variable {β : Type} (σ : Local S D W K) (statement : S β)

@[simp] theorem started_committed : (σ.started statement).committed = σ.committed := rfl
@[simp] theorem started_held : (σ.started statement).held = σ.held := rfl
@[simp] theorem started_writes : (σ.started statement).writes = σ.writes := rfl
@[simp] theorem started_log : (σ.started statement).log = σ.log ++ [⟨β, statement⟩] := rfl

end Started

variable [RowStore D W K]

/-- What the transaction's own statements see. -/
def view (σ : Local S D W K) : D := applyAll σ.writes σ.committed

/-- The transaction after the outcome of a statement. -/
def after {β : Type} (σ : Local S D W K) (outcome : Outcome W K β) : Local S D W K where
  committed := σ.committed
  held := fun k => σ.held k ∨ k ∈ outcome.locks ∨ k ∈ outcome.writes.map (key D)
  writes := σ.writes ++ outcome.writes
  log := σ.log

variable {β : Type} (σ : Local S D W K) (statement : S β) (outcome : Outcome W K β)

@[simp] theorem started_view : (σ.started statement).view = σ.view := rfl

@[simp] theorem after_committed : (σ.after outcome).committed = σ.committed := rfl
@[simp] theorem after_writes : (σ.after outcome).writes = σ.writes ++ outcome.writes := rfl
@[simp] theorem after_log : (σ.after outcome).log = σ.log := rfl

theorem view_after : (σ.after outcome).view = applyAll outcome.writes σ.view :=
  applyAll_append ..

/-- Locks are kept. -/
theorem held_after {k : K} (held : σ.held k) : (σ.after outcome).held k := Or.inl held

theorem held_after_of_lock {k : K} (locked : k ∈ outcome.locks) : (σ.after outcome).held k :=
  Or.inr (Or.inl locked)

theorem held_after_of_write {w : W} (written : w ∈ outcome.writes) :
    (σ.after outcome).held (key D w) :=
  Or.inr (Or.inr (List.mem_map_of_mem written))

end Local

/-! ### The program logic -/

/-- The interference a proof relies on, beside the locks: `extra σ d` says that
`σ` may find the committed database changed to `d`. `admits` restricts the states
in which a statement may run. -/
structure Discipline (S : Type → Type) (D W K : Type) : Type 1 where
  extra : Local S D W K → D → Prop
  extra_refl : ∀ σ, extra σ σ.committed
  extra_trans : ∀ {σ d d'}, extra σ d → extra (σ.upon d) d' → extra σ d'
  admits : Local S D W K → ∀ {β : Type}, S β → Prop

/-- Nothing is relied on beside the locks. -/
def Discipline.locks : Discipline S D W K where
  extra _ _ := True
  extra_refl _ := trivial
  extra_trans _ _ := trivial
  admits _ _ _ := True

/-- Interference that both disciplines bear. -/
def Discipline.both (first second : Discipline S D W K) : Discipline S D W K where
  extra σ d := first.extra σ d ∧ second.extra σ d
  extra_refl σ := ⟨first.extra_refl σ, second.extra_refl σ⟩
  extra_trans before after :=
    ⟨first.extra_trans before.1 after.1, second.extra_trans before.2 after.2⟩
  admits σ _ statement := first.admits σ statement ∧ second.admits σ statement

namespace Discipline

variable [RowStore D W K] {𝓓 : Discipline S D W K} {σ : Local S D W K} {d d' : D}

/-- The committed database may change to `d` behind the back of `σ`: no row that
`σ` holds changes. -/
def Rely (𝓓 : Discipline S D W K) (σ : Local S D W K) (d : D) : Prop :=
  (∀ k, σ.held k → cell k d = cell k σ.committed) ∧ 𝓓.extra σ d

theorem rely_refl : 𝓓.Rely σ σ.committed := ⟨fun _ _ => rfl, 𝓓.extra_refl σ⟩

theorem Rely.trans (first : 𝓓.Rely σ d) (second : 𝓓.Rely (σ.upon d) d') : 𝓓.Rely σ d' :=
  ⟨fun k held => (second.1 k held).trans (first.1 k held), 𝓓.extra_trans first.2 second.2⟩

/-- A row that a transaction holds looks the same to it after interference. -/
theorem Rely.cell_view (rely : 𝓓.Rely σ d) {k : K} (held : σ.held k) :
    cell k (σ.upon d).view = cell k σ.view :=
  cell_applyAll_congr σ.writes (rely.1 k held)

/-- Behind the back of a transaction, a row it has not written changes with the
committed database, and a row it has written does not change. -/
theorem Rely.cell_upon (rely : 𝓓.Rely σ d) (locked : ∀ w ∈ σ.writes, σ.held (key D w)) (k : K) :
    (cell k d = cell k σ.committed ∧ cell k (σ.upon d).view = cell k σ.view) ∨
      (cell k (σ.upon d).view = cell k d ∧ cell k σ.view = cell k σ.committed) := by
  by_cases written : ∃ w ∈ σ.writes, key D w = k
  · obtain ⟨w, member, rfl⟩ := written
    have held := locked w member
    exact Or.inl ⟨rely.1 _ held, rely.cell_view held⟩
  · have untouched : ∀ w ∈ σ.writes, key D w ≠ k := fun w member here => written ⟨w, member, here⟩
    exact Or.inr ⟨cell_applyAll_of_notMem _ untouched, cell_applyAll_of_notMem _ untouched⟩

end Discipline

section Logic

variable [RowStore D W K] [Engine S D] {α β γ : Type}

/-- `p` started in `σ` ends, if it returns, in a state satisfying `post`, whatever
the others commit meanwhile. -/
def Wp (𝓓 : Discipline S D W K) : Tx S ε α → Local S D W K → (α → Local S D W K → Prop) → Prop
  | .ret value, σ, post => ∀ d, 𝓓.Rely σ d → post value (σ.upon d)
  | .raise _, _, _ => True
  | .perform statement next, σ, post =>
    ∀ d, 𝓓.Rely σ d → ∀ d', 𝓓.Rely ((σ.upon d).started statement) d' → ∀ busy,
      𝓓.admits ((σ.upon d').started statement) statement →
      let outcome := Engine.exec statement busy (σ.upon d).view (σ.upon d').view
      Wp 𝓓 (next outcome.result) (((σ.upon d').started statement).after outcome) post

namespace Wp

variable {𝓓 : Discipline S D W K} {p : Tx S ε α} {σ : Local S D W K}
  {post : α → Local S D W K → Prop}

/-- Verification survives interference. -/
theorem upon {d : D} (holds : Wp 𝓓 p σ post) (rely : 𝓓.Rely σ d) : Wp 𝓓 p (σ.upon d) post := by
  cases p with
  | ret value => exact fun d' rely' => holds d' (rely.trans rely')
  | raise error => trivial
  | perform statement next => exact fun d' rely' => holds d' (rely.trans rely')

theorem mono {post' : α → Local S D W K → Prop} (holds : Wp 𝓓 p σ post')
    (weaker : ∀ value σ', post' value σ' → post value σ') : Wp 𝓓 p σ post := by
  induction p generalizing σ with
  | ret value => exact fun d rely => weaker _ _ (holds d rely)
  | raise error => trivial
  | perform statement next ih =>
    exact fun d rely d' rely' busy admits => ih _ (holds d rely d' rely' busy admits)

/-- Verification under more interference is verification under less. -/
theorem of_relies {𝓓' : Discipline S D W K} (holds : Wp 𝓓' p σ post)
    (rely : ∀ σ d, 𝓓.Rely σ d → 𝓓'.Rely σ d)
    (admits : ∀ σ {β : Type} (statement : S β), 𝓓.admits σ statement → 𝓓'.admits σ statement) :
    Wp 𝓓 p σ post := by
  induction p generalizing σ with
  | ret value => exact fun d less => holds d (rely σ d less)
  | raise error => trivial
  | perform statement next ih =>
    intro d less d' less' busy admitted
    exact ih _ (holds d (rely _ _ less) d' (rely _ _ less') busy (admits _ statement admitted))

theorem and {post' : α → Local S D W K → Prop} (left : Wp 𝓓 p σ post) (right : Wp 𝓓 p σ post') :
    Wp 𝓓 p σ fun value σ' => post value σ' ∧ post' value σ' := by
  induction p generalizing σ with
  | ret value => exact fun d rely => ⟨left d rely, right d rely⟩
  | raise error => trivial
  | perform statement next ih =>
    exact fun d rely d' rely' busy admits =>
      ih _ (left d rely d' rely' busy admits) (right d rely d' rely' busy admits)

/-- Two verifications, under the interference that both bear. -/
theorem both {𝓓' : Discipline S D W K} {post' : α → Local S D W K → Prop} (left : Wp 𝓓 p σ post)
    (right : Wp 𝓓' p σ post') :
    Wp (𝓓.both 𝓓') p σ fun value σ' => post value σ' ∧ post' value σ' := by
  have left : Wp (𝓓.both 𝓓') p σ post :=
    left.of_relies (fun _ _ rely => ⟨rely.1, rely.2.1⟩) fun _ _ _ admitted => admitted.1
  have right : Wp (𝓓.both 𝓓') p σ post' :=
    right.of_relies (fun _ _ rely => ⟨rely.1, rely.2.2⟩) fun _ _ _ admitted => admitted.2
  exact left.and right

/-- The sequence rule. -/
theorem bind {f : α → Tx S ε γ} {post : γ → Local S D W K → Prop}
    (holds : Wp 𝓓 p σ fun value σ' => Wp 𝓓 (f value) σ' post) : Wp 𝓓 (p.bind f) σ post := by
  induction p generalizing σ with
  | ret value => exact holds σ.committed 𝓓.rely_refl
  | raise error => trivial
  | perform statement next ih =>
    exact fun d rely d' rely' busy admits => ih _ (holds d rely d' rely' busy admits)

/-- The sequence rule, with an assertion in the middle. -/
theorem seq {f : α → Tx S ε γ} {post' : γ → Local S D W K → Prop} (first : Wp 𝓓 p σ post)
    (rest : ∀ value σ', post value σ' → Wp 𝓓 (f value) σ' post') : Wp 𝓓 (p.bind f) σ post' :=
  bind (first.mono rest)

theorem ret {value : α} (holds : ∀ d, 𝓓.Rely σ d → post value (σ.upon d)) :
    Wp 𝓓 (.ret value : Tx S ε α) σ post := holds

theorem raise {error : ε} : Wp 𝓓 (.raise error : Tx S ε α) σ post := trivial

/-- An assertion that interference cannot break. -/
def Stable (𝓓 : Discipline S D W K) (assertion : Local S D W K → Prop) : Prop :=
  ∀ σ d, assertion σ → 𝓓.Rely σ d → assertion (σ.upon d)

/-- The statement rule. `during snap` holds while the statement waits, after it took
the snapshot `snap`. -/
theorem perform {statement : S β} {next : β → Tx S ε α} {during : D → Local S D W K → Prop}
    (stable : ∀ snap, Stable 𝓓 (during snap))
    (look : ∀ d, 𝓓.Rely σ d → during (σ.upon d).view ((σ.upon d).started statement))
    (exec : ∀ snap σ busy, during snap σ → 𝓓.admits σ statement →
      let outcome := Engine.exec statement busy snap σ.view
      Wp 𝓓 (next outcome.result) (σ.after outcome) post) :
    Wp 𝓓 (.perform statement next) σ post := by
  intro d rely d' rely' busy admits
  exact exec _ ((σ.upon d').started statement) busy
    (stable _ ((σ.upon d).started statement) d' (look d rely) rely') admits

/-- Programs that keep a stable assertion. -/
def Preserves (𝓓 : Discipline S D W K) (assertion : Local S D W K → Prop) {α : Type}
    (p : Tx S ε α) : Prop := ∀ σ, assertion σ → Wp 𝓓 p σ fun _ σ' => assertion σ'

theorem Preserves.of_relies {𝓓' : Discipline S D W K} {assertion : Local S D W K → Prop}
    (holds : Preserves 𝓓' assertion p) (rely : ∀ σ d, 𝓓.Rely σ d → 𝓓'.Rely σ d)
    (admits : ∀ σ {β : Type} (statement : S β), 𝓓.admits σ statement → 𝓓'.admits σ statement) :
    Preserves 𝓓 assertion p :=
  fun σ here => (holds σ here).of_relies rely admits

theorem Preserves.and {first second : Local S D W K → Prop} (left : Preserves 𝓓 first p)
    (right : Preserves 𝓓 second p) : Preserves 𝓓 (fun σ => first σ ∧ second σ) p :=
  fun σ here => Wp.and (left σ here.1) (right σ here.2)

/-- The programs that keep a stable assertion are closed under composition. -/
theorem Preserves.closed {assertion : Local S D W K → Prop} (stable : Stable 𝓓 assertion) :
    Tx.Closed (S := S) (ε := ε) fun p => Preserves 𝓓 assertion p where
  ret _ σ here d rely := stable σ d here rely
  raise _ _ _ := trivial
  bind first rest σ here := Wp.bind ((first σ here).mono fun value σ' held => rest value σ' held)

omit [Engine S D] in
theorem Stable.and {first second : Local S D W K → Prop} (left : Stable 𝓓 first)
    (right : Stable 𝓓 second) : Stable 𝓓 fun σ => first σ ∧ second σ :=
  fun σ d here rely => ⟨left σ d here.1 rely, right σ d here.2 rely⟩

/-- A statement keeps an assertion that does not depend on the log, if running it does. -/
theorem Preserves.stmt {statement : S β} {assertion : Local S D W K → Prop}
    (stable : Stable 𝓓 assertion)
    (started : ∀ σ, assertion σ → assertion (σ.started statement))
    (exec : ∀ snap σ busy, assertion σ → 𝓓.admits σ statement →
      assertion (σ.after (Engine.exec statement busy snap σ.view))) :
    Preserves 𝓓 assertion (Tx.stmt statement : Tx S ε β) := by
  intro σ here
  refine Wp.perform (fun _ => stable) (fun d rely => started _ (stable σ d here rely))
    fun snap σ busy here admits => ?_
  exact fun d rely => stable _ d (exec snap σ busy here admits) rely

/-- A stable assertion that a transaction cannot break by itself holds until its end. -/
theorem Preserves.always {assertion : Local S D W K → Prop} (stable : Stable 𝓓 assertion)
    (started : ∀ σ {β : Type} (statement : S β), assertion σ → assertion (σ.started statement))
    (after : ∀ σ {β : Type} (outcome : Outcome W K β), assertion σ → assertion (σ.after outcome))
    (p : Tx S ε α) : Preserves 𝓓 assertion p := by
  induction p with
  | ret value => exact (closed stable).ret value
  | raise error => exact (closed stable).raise error
  | perform statement next ih =>
    refine (closed stable).perform ?_ ih
    exact Preserves.stmt stable (fun σ => started σ statement)
      fun snap σ busy here _ => after σ _ here

/-- The loop rule, for an invariant that interference cannot break. -/
theorem forEach {xs : List β} {body : β → Tx S ε Unit}
    (invariant : List β → Local S D W K → Prop) (stable : ∀ rest, Stable 𝓓 (invariant rest))
    (start : invariant xs σ)
    (step : ∀ x rest σ, invariant (x :: rest) σ →
      Wp 𝓓 (body x) σ fun _ σ' => invariant rest σ') :
    Wp 𝓓 (Tx.forEach xs body) σ fun _ σ' => invariant [] σ' := by
  induction xs generalizing σ with
  | nil => exact Wp.ret fun d rely => stable [] σ d start rely
  | cons x rest ih => exact Wp.bind ((step x rest σ start).mono fun _ σ' held => ih held)

end Wp

end Logic

/-! ### Soundness -/

section Soundness

variable [RowStore D W K] [Engine S D]

namespace System

/-- Transaction `t` as it sees itself. -/
def localOf (sys : System S ε ρ C D W K) (t : ℕ) (session : Session S ε ρ C D W) :
    Local S D W K :=
  ⟨sys.committed, fun k => sys.owner k = some t, session.writes, session.log⟩

/-- A condition on schedules: a transaction commits only when every other one in flight
may find the database so changed. `spares call σ d` says that a transaction of `call` may,
when it has come to `σ`. -/
def Sparing (spares : C → Local S D W K → D → Prop) (sys : System S ε ρ C D W K) :
    Event C → Prop
  | .commit t => ∀ session, sys.sessions t = .active session → ∀ u other, u ≠ t →
      sys.sessions u = .active other →
        spares other.call (sys.localOf u other) (sys.localOf t session).view
  | _ => True

/-- The condition, tested for the first `n` transactions. -/
def SparingBelow (spares : C → Local S D W K → D → Prop) (n : ℕ) (sys : System S ε ρ C D W K) :
    Event C → Prop
  | .commit t => ∀ session ∈ (sys.sessions t).running, ∀ u < n, u ≠ t →
      ∀ other ∈ (sys.sessions u).running,
        spares other.call (sys.localOf u other) (sys.localOf t session).view
  | _ => True

instance {spares : C → Local S D W K → D → Prop} [∀ call σ d, Decidable (spares call σ d)]
    {n : ℕ} {sys : System S ε ρ C D W K} : (event : Event C) →
      Decidable (SparingBelow spares n sys event)
  | .commit t => inferInstanceAs (Decidable (∀ session ∈ (sys.sessions t).running, ∀ u < n,
      u ≠ t → ∀ other ∈ (sys.sessions u).running,
        spares other.call (sys.localOf u other) (sys.localOf t session).view))
  | .start .. | .look _ | .exec _ | .abort _ => instDecidableTrue

omit [Engine S D] in
theorem SparingBelow.sparing {spares : C → Local S D W K → D → Prop} {n : ℕ}
    {sys : System S ε ρ C D W K} (idle : sys.IdleFrom n) {event : Event C}
    (tested : SparingBelow spares n sys event) : Sparing spares sys event := by
  cases event with
  | commit t =>
    intro session active u other apart running
    by_cases below : u < n
    · refine tested session ?_ u below apart other ?_
      · rw [active]
        rfl
      · rw [running]
        rfl
    · rw [idle u (Nat.le_of_not_lt below)] at running
      cases running
  | _ => trivial

/-- What the commit of a transaction does. -/
theorem step_commit [DecidableEq K] {code : C → Tx S ε ρ} {sys sys' : System S ε ρ C D W K} {t : ℕ}
    {session : Session S ε ρ C D W} (active : sys.sessions t = .active session)
    (step : sys.step code (.commit t) = some sys') :
    ∃ value, session.prog = .ret value ∧ sys'.committed = (sys.localOf t session).view ∧
      sys'.sessions t = .committed session.call value := by
  simp only [System.step, active] at step
  split at step
  · next value prog =>
    cases step
    exact ⟨value, prog, rfl, setStatus_sessions_self _⟩
  · cases step

/-- Transactions that are over stay so, and a step adds the one that commits. -/
theorem step_commits [DecidableEq K] {code : C → Tx S ε ρ} {sys sys' : System S ε ρ C D W K}
    {event : Event C} (step : sys.step code event = some sys') :
    (sys'.committed = sys.committed ∧ ∀ u call value,
      sys'.sessions u = .committed call value ↔ sys.sessions u = .committed call value) ∨
    ∃ t session value, event = .commit t ∧ sys.sessions t = .active session ∧
      session.prog = .ret value ∧ sys'.committed = (sys.localOf t session).view ∧
      sys'.sessions t = .committed session.call value ∧
      ∀ u, u ≠ t → sys'.sessions u = sys.sessions u := by
  -- a transaction that is not over gets a status in which it is not over
  have unfinished {base : System S ε ρ C D W K} {t : ℕ} {status : Status S ε ρ C D W}
      (same : base.sessions = sys.sessions)
      (before : ∀ call value, sys.sessions t ≠ .committed call value)
      (after : ∀ call value, status ≠ .committed call value) (u : ℕ) (call : C) (value : ρ) :
      (base.setStatus t status).sessions u = .committed call value ↔
        sys.sessions u = .committed call value := by
    by_cases here : u = t
    · subst here
      rw [setStatus_sessions_self]
      exact ⟨fun now => (after call value now).elim, fun then_ => (before call value then_).elim⟩
    · rw [setStatus_sessions_of_ne _ here, same]
  cases event with
  | start t call =>
    simp only [System.step] at step
    split at step
    · next idle =>
      cases step
      exact Or.inl ⟨rfl, unfinished rfl (fun _ _ here => by rw [idle] at here; cases here) nofun⟩
    · cases step
  | look t =>
    simp only [System.step] at step
    split at step
    · next active =>
      split at step
      · cases step
        exact Or.inl
          ⟨rfl, unfinished rfl (fun _ _ here => by rw [active] at here; cases here) nofun⟩
      · cases step
    · cases step
  | exec t =>
    simp only [System.step] at step
    split at step
    · next active =>
      split at step
      · split at step
        · cases step
        · cases step
          exact Or.inl
            ⟨rfl, unfinished rfl (fun _ _ here => by rw [active] at here; cases here) nofun⟩
      · cases step
    · cases step
  | commit t =>
    simp only [System.step] at step
    split at step
    · next session active =>
      split at step
      · next value prog =>
        cases step
        exact Or.inr ⟨t, session, value, rfl, active, prog, rfl, setStatus_sessions_self _,
          fun u other => setStatus_sessions_of_ne _ other⟩
      · cases step
    · cases step
  | abort t =>
    simp only [System.step] at step
    split at step
    · next active =>
      cases step
      exact Or.inl ⟨rfl, unfinished rfl (fun _ _ here => by rw [active] at here; cases here) nofun⟩
    · cases step

/-- Only a commit changes the committed database, and only the transaction that
commits becomes committed. -/
theorem step_cases [DecidableEq K] {code : C → Tx S ε ρ} {sys sys' : System S ε ρ C D W K}
    {event : Event C} (step : sys.step code event = some sys') :
    (sys'.committed = sys.committed ∧ ∀ u call value,
      sys'.sessions u = .committed call value → sys.sessions u = .committed call value) ∨
    ∃ t session value, event = .commit t ∧ sys.sessions t = .active session ∧
      session.prog = .ret value ∧ sys'.committed = (sys.localOf t session).view ∧
      ∀ u call result, sys'.sessions u = .committed call result →
        sys.sessions u = .committed call result ∨ (call = session.call ∧ result = value) := by
  rcases step_commits step with
    ⟨same, isOver⟩ | ⟨t, session, value, rfl, active, prog, after, committed, others⟩
  · exact Or.inl ⟨same, fun u call value => (isOver u call value).mp⟩
  · refine Or.inr ⟨t, session, value, rfl, active, prog, after, fun u call result ended => ?_⟩
    by_cases same : u = t
    · rw [same, committed] at ended
      cases ended
      exact Or.inr ⟨rfl, rfl⟩
    · rw [others u same] at ended
      exact Or.inl ended

end System

/-- The verification a running transaction still carries. Once its next statement
has taken a snapshot, only interference after that snapshot is left. -/
def Verified (𝓓 : Discipline S D W K) (post : ρ → Local S D W K → Prop)
    (snapshot : Option D) (prog : Tx S ε ρ) (σ : Local S D W K) : Prop :=
  match snapshot, prog with
  | some snap, .perform statement next =>
    ∀ d, 𝓓.Rely σ d → ∀ busy, 𝓓.admits (σ.upon d) statement →
      let outcome := Engine.exec statement busy (σ.upon snap).view (σ.upon d).view
      Wp 𝓓 (next outcome.result) ((σ.upon d).after outcome) post
  | _, prog => Wp 𝓓 prog σ post

namespace Verified

variable {𝓓 : Discipline S D W K} {post : ρ → Local S D W K → Prop} {snapshot : Option D}
  {prog : Tx S ε ρ} {σ : Local S D W K}

theorem upon {d : D} (holds : Verified 𝓓 post snapshot prog σ) (rely : 𝓓.Rely σ d) :
    Verified 𝓓 post snapshot prog (σ.upon d) := by
  cases snapshot with
  | none => exact Wp.upon holds rely
  | some snap =>
    cases prog with
    | ret value => exact Wp.upon holds rely
    | raise error => trivial
    | perform statement next => exact fun d' rely' => holds d' (rely.trans rely')

/-- Starting a statement keeps the verification. -/
theorem look {β : Type} {statement : S β} {next : β → Tx S ε ρ}
    (holds : Verified 𝓓 post none (.perform statement next) σ) :
    Verified 𝓓 post (some σ.committed) (.perform statement next) (σ.started statement) :=
  fun d rely busy admits => holds σ.committed 𝓓.rely_refl d rely busy admits

/-- Running a statement keeps the verification. -/
theorem exec {β : Type} {statement : S β} {next : β → Tx S ε ρ} {snap : D}
    (holds : Verified 𝓓 post (some snap) (.perform statement next) σ)
    (admits : 𝓓.admits σ statement) (busy : K → Bool) :
    Wp 𝓓 (next (Engine.exec statement busy (σ.upon snap).view σ.view).result)
      (σ.after (Engine.exec statement busy (σ.upon snap).view σ.view)) post :=
  holds σ.committed 𝓓.rely_refl busy admits

theorem ret {value : ρ} (holds : Verified 𝓓 post snapshot (.ret value : Tx S ε ρ) σ) :
    post value σ := by
  cases snapshot with
  | some snap => exact holds σ.committed 𝓓.rely_refl
  | none => exact holds σ.committed 𝓓.rely_refl

end Verified

/-- The state of a run under a rely-guarantee proof: the invariant holds, every
running transaction holds the locks of the rows it wrote, and is verified. -/
structure Held (𝓓 : C → Discipline S D W K) (invariant : D → Prop)
    (post : C → ρ → Local S D W K → Prop) (sys : System S ε ρ C D W K) : Prop where
  invariant : invariant sys.committed
  owned : ∀ k t, sys.owner k = some t → ∃ session, sys.sessions t = .active session
  locked : ∀ t session, sys.sessions t = .active session →
    ∀ w ∈ session.writes, sys.owner (key D w) = some t
  verified : ∀ t session, sys.sessions t = .active session →
    Verified (𝓓 session.call) (post session.call) session.snapshot session.prog
      (sys.localOf t session)

namespace Held

variable {𝓓 : C → Discipline S D W K} {invariant : D → Prop}
  {post : C → ρ → Local S D W K → Prop} {sys sys' : System S ε ρ C D W K} {t : ℕ}
  {session : Session S ε ρ C D W}

theorem initial {d : D} (start : invariant d) :
    Held 𝓓 invariant post (System.initial d : System S ε ρ C D W K) where
  invariant := start
  owned := by intro k t h; cases h
  locked := by intro t session h; cases h
  verified := by intro t session h; cases h

/-- A new status for `t` and a new lock table that only `t` can notice keep the
verification, once it is shown for `t` itself. -/
private theorem update (held : Held 𝓓 invariant post sys) (owner : K → Option ℕ)
    {status : Status S ε ρ C D W}
    (others : ∀ k u, u ≠ t → (owner k = some u ↔ sys.owner k = some u))
    (mine : ∀ k, owner k = some t → ∃ session, status = .active session)
    (locked : ∀ session, status = .active session →
      ∀ w ∈ session.writes, owner (key D w) = some t)
    (verified : ∀ session, status = .active session →
      Verified (𝓓 session.call) (post session.call) session.snapshot session.prog
        ⟨sys.committed, fun k => owner k = some t, session.writes, session.log⟩) :
    Held 𝓓 invariant post (System.setStatus { sys with owner := owner } t status) where
  invariant := held.invariant
  owned := by
    intro k u owns
    by_cases same : u = t
    · subst same
      obtain ⟨session, active⟩ := mine k owns
      exact ⟨session, by simpa using active⟩
    · obtain ⟨session, active⟩ := held.owned k u ((others k u same).mp owns)
      exact ⟨session, by rwa [System.setStatus_sessions_of_ne _ same]⟩
  locked := by
    intro u session active w member
    by_cases same : u = t
    · subst same
      exact locked session (by simpa using active) w member
    · rw [System.setStatus_sessions_of_ne _ same] at active
      exact (others _ u same).mpr (held.locked u session active w member)
  verified := by
    intro u session active
    by_cases same : u = t
    · subst same
      exact verified session (by simpa using active)
    · rw [System.setStatus_sessions_of_ne _ same] at active
      have unchanged : (System.setStatus { sys with owner := owner } t status).localOf u session =
          sys.localOf u session := by
        simp only [System.localOf, System.setStatus_committed, System.setStatus_owner,
          Local.mk.injEq, true_and, and_true]
        exact funext fun k => propext (others k u same)
      rw [unchanged]
      exact held.verified u session active

theorem look (held : Held 𝓓 invariant post sys) (active : sys.sessions t = .active session)
    {β : Type} {statement : S β} {next : β → Tx S ε ρ} (waiting : session.snapshot = none)
    (prog : session.prog = .perform statement next) :
    Held 𝓓 invariant post (sys.setStatus t
      (.active { session with
        snapshot := some sys.committed
        log := session.log ++ [⟨_, statement⟩] })) := by
  refine held.update sys.owner (fun _ _ _ => Iff.rfl) (fun _ _ => ⟨_, rfl⟩) ?_ ?_
  · rintro _ ⟨⟩ w member
    exact held.locked t session active w member
  · rintro _ ⟨⟩
    have verified := held.verified t session active
    rw [waiting, prog] at verified
    simp only [prog]
    exact verified.look

theorem abort (held : Held 𝓓 invariant post sys) (call : C) (error : Option ε) :
    Held 𝓓 invariant post ((sys.release t).setStatus t (.aborted call error)) := by
  refine held.update _ (fun _ _ different => System.release_owner_of_ne different)
    (fun _ owns => (System.release_owner_self owns).elim) ?_ ?_
  · rintro _ ⟨⟩
  · rintro _ ⟨⟩

/-- What a transaction guarantees holds when it is about to commit. -/
theorem post_of_ret (held : Held 𝓓 invariant post sys)
    (active : sys.sessions t = .active session) {value : ρ} (prog : session.prog = .ret value) :
    post session.call value (sys.localOf t session) := by
  have verified := held.verified t session active
  rw [prog] at verified
  exact verified.ret

end Held

/-- The obligations of a rely-guarantee proof about all runs whose steps are
`allowed`: every program is verified, and a transaction that commits with its
postcondition keeps the invariant and disturbs nobody more than they rely on. -/
structure Sound (code : C → Tx S ε ρ) (allowed : System S ε ρ C D W K → Event C → Prop)
    (𝓓 : C → Discipline S D W K) (invariant : D → Prop)
    (post : C → ρ → Local S D W K → Prop) : Prop where
  admits : ∀ {sys : System S ε ρ C D W K} {t session β} {statement : S β} {next},
    sys.sessions t = .active session → session.prog = .perform statement next →
    allowed sys (.exec t) → (𝓓 session.call).admits (sys.localOf t session) statement
  code : ∀ call d, invariant d → Wp (𝓓 call) (code call) (Local.initial d) (post call)
  commit : ∀ {sys : System S ε ρ C D W K} {t session value},
    sys.sessions t = .active session → session.prog = .ret value →
    allowed sys (.commit t) → invariant sys.committed →
    post session.call value (sys.localOf t session) →
    invariant (sys.localOf t session).view ∧
      ∀ u other, u ≠ t → sys.sessions u = .active other →
        (𝓓 other.call).extra (sys.localOf u other) (sys.localOf t session).view

namespace Held

variable {code : C → Tx S ε ρ} {allowed : System S ε ρ C D W K → Event C → Prop}
  {𝓓 : C → Discipline S D W K} {invariant : D → Prop} {post : C → ρ → Local S D W K → Prop}
  {sys sys' : System S ε ρ C D W K} {t : ℕ} {session : Session S ε ρ C D W}

theorem start (sound : Sound code allowed 𝓓 invariant post) (held : Held 𝓓 invariant post sys)
    {call : C} (idle : sys.sessions t = .idle) :
    Held 𝓓 invariant post (sys.setStatus t (.active ⟨call, code call, none, [], []⟩)) := by
  have free : ∀ k, sys.owner k ≠ some t := by
    intro k owns
    obtain ⟨session, active⟩ := held.owned k t owns
    rw [idle] at active
    cases active
  refine held.update sys.owner (fun _ _ _ => Iff.rfl)
    (fun k owns => (free k owns).elim) ?_ ?_
  · rintro _ ⟨⟩ w member
    cases member
  · rintro _ ⟨⟩
    have nothing : (fun k => sys.owner k = some t) = fun _ => False :=
      funext fun k => propext (iff_false_intro (free k))
    simp only [nothing]
    exact sound.code call sys.committed held.invariant

theorem commit (sound : Sound code allowed 𝓓 invariant post) (held : Held 𝓓 invariant post sys)
    (active : sys.sessions t = .active session) {value : ρ} (prog : session.prog = .ret value)
    (ok : allowed sys (.commit t)) :
    Held 𝓓 invariant post (System.setStatus
      { sys.release t with committed := applyAll session.writes sys.committed } t
      (.committed session.call value)) := by
  obtain ⟨kept, extra⟩ := sound.commit active prog ok held.invariant
    (held.post_of_ret active prog)
  refine ⟨kept, ?_, ?_, ?_⟩
  · intro k u owns
    by_cases same : u = t
    · subst same
      exact (System.release_owner_self owns).elim
    · obtain ⟨other, running⟩ := held.owned k u ((System.release_owner_of_ne same).mp owns)
      exact ⟨other, by rwa [System.setStatus_sessions_of_ne _ same]⟩
  · intro u other running w member
    by_cases same : u = t
    · subst same
      simp at running
    · rw [System.setStatus_sessions_of_ne _ same] at running
      exact (System.release_owner_of_ne same).mpr (held.locked u other running w member)
  · intro u other running
    by_cases same : u = t
    · subst same
      simp at running
    · rw [System.setStatus_sessions_of_ne _ same] at running
      have rely : (𝓓 other.call).Rely (sys.localOf u other) (sys.localOf t session).view := by
        refine ⟨fun k holds => ?_, extra u other same running⟩
        refine cell_applyAll_of_notMem _ fun w member written => same ?_
        have owns := held.locked t session active w member
        rw [written, holds] at owns
        exact Option.some.inj owns
      have moved : (System.setStatus
          { sys.release t with committed := applyAll session.writes sys.committed } t
          (.committed session.call value)).localOf u other =
            (sys.localOf u other).upon (sys.localOf t session).view := by
        simp only [System.localOf, Local.upon, System.setStatus_committed,
          System.setStatus_owner, Local.mk.injEq, and_true]
        exact ⟨rfl, funext fun k => propext (System.release_owner_of_ne same)⟩
      rw [moved]
      exact (held.verified u other running).upon rely

variable [DecidableEq K]

theorem exec (sound : Sound code allowed 𝓓 invariant post) (held : Held 𝓓 invariant post sys)
    (active : sys.sessions t = .active session) {β : Type} {statement : S β}
    {next : β → Tx S ε ρ} {snap : D} (looked : session.snapshot = some snap)
    (prog : session.prog = .perform statement next)
    (ok : allowed sys (.exec t)) {outcome : Outcome W K β}
    (outcome_eq : outcome = Engine.exec statement (sys.busy t)
      (applyAll session.writes snap) (applyAll session.writes sys.committed))
    (free : (outcome.locks ++ outcome.writes.map (key D)).any (sys.busy t) = false) :
    Held 𝓓 invariant post (System.setStatus
      { sys with owner := fun k =>
          if k ∈ outcome.locks ++ outcome.writes.map (key D) then some t else sys.owner k } t
      (.active { session with
        prog := next outcome.result
        snapshot := none
        writes := session.writes ++ outcome.writes })) := by
  have available : ∀ k u, u ≠ t → sys.owner k = some u →
      k ∉ outcome.locks ++ outcome.writes.map (key D) := by
    intro k u different owns member
    have := List.any_eq_false.mp free k member
    exact this (System.busy_of_owner owns different)
  refine held.update _ ?_ (fun _ _ => ⟨_, rfl⟩) ?_ ?_
  · intro k u different
    by_cases member : k ∈ outcome.locks ++ outcome.writes.map (key D)
    · simp only [member, if_true, Option.some.injEq]
      exact ⟨fun h => (different h.symm).elim,
        fun owns => (available k u different owns member).elim⟩
    · simp only [member, if_false]
  · rintro _ ⟨⟩ w member
    rcases List.mem_append.mp member with old | new
    · simp only [held.locked t session active w old, ite_self]
    · rw [if_pos (List.mem_append_right _ (List.mem_map_of_mem new))]
  · rintro _ ⟨⟩
    have verified := held.verified t session active
    rw [looked, prog] at verified
    have run := verified.exec (sound.admits active prog ok) (sys.busy t)
    have moved : (⟨sys.committed, fun k =>
          (if k ∈ outcome.locks ++ outcome.writes.map (key D) then some t else sys.owner k) =
            some t,
          session.writes ++ outcome.writes, session.log⟩ : Local S D W K) =
        (sys.localOf t session).after outcome := by
      simp only [System.localOf, Local.after, Local.mk.injEq, true_and, and_true]
      funext k
      rw [← List.mem_append]
      by_cases member : k ∈ outcome.locks ++ outcome.writes.map (key D)
      · simp only [member, if_true, or_true]
      · simp only [member, if_false, or_false]
    simp only [moved]
    rw [outcome_eq]
    exact run

/-- Every allowed step keeps the invariant and all verifications. -/
theorem step (sound : Sound code allowed 𝓓 invariant post) (held : Held 𝓓 invariant post sys)
    {event : Event C} (ok : allowed sys event) (stepped : sys.step code event = some sys') :
    Held 𝓓 invariant post sys' := by
  cases event with
  | start t call =>
    simp only [System.step] at stepped
    split at stepped
    · next idle => cases stepped; exact held.start sound idle
    · cases stepped
  | look t =>
    simp only [System.step] at stepped
    split at stepped
    · next active =>
      split at stepped
      · next waiting prog => cases stepped; exact held.look active waiting prog
      · cases stepped
    · cases stepped
  | exec t =>
    simp only [System.step] at stepped
    split at stepped
    · next active =>
      split at stepped
      · next looked prog =>
        split at stepped
        · cases stepped
        · next free =>
          cases stepped
          exact held.exec sound active looked prog ok rfl (by simpa using free)
      · cases stepped
    · cases stepped
  | commit t =>
    simp only [System.step] at stepped
    split at stepped
    · next active =>
      split at stepped
      · next prog => cases stepped; exact held.commit sound active prog ok
      · cases stepped
    · cases stepped
  | abort t =>
    simp only [System.step] at stepped
    split at stepped
    · cases stepped; exact held.abort _ _
    · cases stepped

end Held

namespace Sound

/-- Programs that are verified without any restriction are so in every run. -/
theorem of_code {code : C → Tx S ε ρ} {post : C → ρ → Local S D W K → Prop}
    (verified : ∀ call d, Wp .locks (code call) (Local.initial d) (post call)) :
    Sound code (fun _ _ => True) (fun _ => .locks) (fun _ => True) post where
  admits _ _ _ := trivial
  code call d _ := verified call d
  commit _ _ _ _ _ := ⟨trivial, fun _ _ _ _ => trivial⟩

variable [DecidableEq K] {code : C → Tx S ε ρ} {allowed : System S ε ρ C D W K → Event C → Prop}
  {𝓓 : C → Discipline S D W K} {invariant : D → Prop} {post : C → ρ → Local S D W K → Prop}
  {first last : System S ε ρ C D W K}

omit [DecidableEq K] in
/-- A proof about some runs is a proof about those that take fewer steps. -/
theorem of_fewer {fewer : System S ε ρ C D W K → Event C → Prop}
    (sound : Sound code allowed 𝓓 invariant post)
    (implies : ∀ sys event, fewer sys event → allowed sys event) :
    Sound code fewer 𝓓 invariant post where
  admits active prog ok := sound.admits active prog (implies _ _ ok)
  code := sound.code
  commit active prog ok := sound.commit active prog (implies _ _ ok)

/-- In every run the invariant holds and the running transactions stay verified. -/
theorem held (sound : Sound code allowed 𝓓 invariant post)
    (start : Held 𝓓 invariant post first) (run : System.Run code allowed first last) :
    Held 𝓓 invariant post last := by
  induction run with
  | refl => exact start
  | tail event _ ok step ih => exact ih.step sound ok step

/-- In every run that starts with nothing running, the invariant holds. -/
theorem invariant_of_run (sound : Sound code allowed 𝓓 invariant post) {d : D}
    (start : invariant d) (run : System.Run code allowed (System.initial d) last) :
    invariant last.committed :=
  (sound.held (Held.initial start) run).invariant

/-- A reflexive and transitive relation that every commit respects relates the
committed databases of any two states of a run. -/
theorem relates (sound : Sound code allowed 𝓓 invariant post) {relation : D → D → Prop}
    (refl : ∀ d, relation d d)
    (trans : ∀ {d d' d''}, relation d d' → relation d' d'' → relation d d'')
    (commit : ∀ {sys : System S ε ρ C D W K} {t session value},
      sys.sessions t = .active session → session.prog = .ret value →
      allowed sys (.commit t) → invariant sys.committed →
      post session.call value (sys.localOf t session) →
      relation sys.committed (sys.localOf t session).view)
    (start : Held 𝓓 invariant post first) (run : System.Run code allowed first last) :
    relation first.committed last.committed := by
  induction run with
  | refl => exact refl _
  | @tail middle last event run ok step ih =>
    refine trans ih ?_
    have held := sound.held start run
    rcases System.step_cases step with ⟨same, -⟩ | ⟨t, session, value, rfl, active, prog, after, -⟩
    · rw [same]
      exact refl _
    · rw [after]
      exact commit active prog ok held.invariant (held.post_of_ret active prog)

/-- What a transaction guarantees about the database it commits, and what no later
commit can break, holds from then on. -/
theorem persists (sound : Sound code allowed 𝓓 invariant post) (fact : C → ρ → D → Prop)
    (commit : ∀ {sys : System S ε ρ C D W K} {t session value},
      sys.sessions t = .active session → session.prog = .ret value →
      allowed sys (.commit t) → invariant sys.committed →
      post session.call value (sys.localOf t session) →
      fact session.call value (sys.localOf t session).view ∧
        ∀ call value, fact call value sys.committed → fact call value (sys.localOf t session).view)
    (start : Held 𝓓 invariant post first)
    (before : ∀ t call value, first.sessions t = .committed call value →
      fact call value first.committed)
    (run : System.Run code allowed first last) :
    ∀ t call value, last.sessions t = .committed call value → fact call value last.committed := by
  induction run with
  | refl => exact before
  | @tail middle last event run ok step ih =>
    have held := sound.held start run
    intro u call value ended
    rcases System.step_cases step with
      ⟨same, sessions⟩ | ⟨t, session, result, rfl, active, prog, after, sessions⟩
    · rw [same]
      exact ih u call value (sessions u call value ended)
    · obtain ⟨new, kept⟩ := commit active prog ok held.invariant (held.post_of_ret active prog)
      rw [after]
      rcases sessions u call value ended with old | ⟨rfl, rfl⟩
      · exact kept call value (ih u call value old)
      · exact new

end Sound

end Soundness

end IntramindRuntime.Library
