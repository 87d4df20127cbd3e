import IntramindRuntime.Ledger.Tracking

/-!
# Interleaved transactions of the store

The methods of the store run side by side under READ COMMITTED, any number of
them, each with its own clocks. What holds in every such run, or in every run
that avoids some steps, is proved with a rule for the rows of one table: the
statements that write it are looked at one by one, and what a method has locked
is pinned.

## Main definitions

* `Interleaved` — the ledger with transactions in flight
* `Interleaved.Run`, `Interleaved.Admitted` — its runs, and those whose statements are
  all admitted

## Main results

* `Sql.allows_of_mayWrite`, `Sql.pinned_of_mayWrite` — a statement on other tables follows
  a rule and leaves a pinned row alone
-/

namespace IntramindRuntime.Ledger

open Library

/-- A request, with what its transaction reads beside the ledger. -/
abbrev Asked := Call × Env

/-- The transaction that answers a request. -/
def Asked.code (sha256 : String → String) (asked : Asked) : Transaction Reply :=
  asked.1.code sha256 asked.2

/-- The ledger with transactions in flight. -/
abbrev Interleaved := System Sql RuntimeError Reply Asked Db Write Key

/-- A transaction in flight, over the committed ledger. -/
abbrev InFlight := Local Sql Db Write Key

/-- Which statements may run when. -/
abbrev Admits := InFlight → ∀ {β : Type}, Sql β → Prop

/-- Every statement may run at any time. -/
def Admits.all : Admits := fun _ _ _ => True

namespace Interleaved

/-- The statement that a transaction runs next, with what it sees. -/
def next (sys : Interleaved) (t : ℕ) : Option (InFlight × Σ β, Sql β) :=
  match sys.sessions t with
  | .active session =>
    match session.prog with
    | .perform statement _ => some (sys.localOf t session, ⟨_, statement⟩)
    | _ => none
  | _ => none

/-- The statement that an event runs is admitted. -/
def Admitted (admits : Admits) (sys : Interleaved) : Event Asked → Prop
  | .exec t => ∀ running ∈ sys.next t, admits running.1 running.2.2
  | _ => True

instance {admits : Admits} [∀ σ (β : Type) (statement : Sql β), Decidable (admits σ statement)]
    (sys : Interleaved) : (event : Event Asked) → Decidable (Admitted admits sys event)
  | .exec t => inferInstanceAs (Decidable (∀ running ∈ sys.next t, admits running.1 running.2.2))
  | .start .. | .look _ | .commit _ | .abort _ => instDecidableTrue

theorem Admitted.admits {admits : Admits} {sys : Interleaved} {t : ℕ}
    {session : Session Sql RuntimeError Reply Asked Db Write} {β : Type} {statement : Sql β}
    {rest : β → Transaction Reply} (ok : Admitted admits sys (.exec t))
    (active : sys.sessions t = .active session) (prog : session.prog = .perform statement rest) :
    admits (sys.localOf t session) statement := by
  refine ok (sys.localOf t session, ⟨β, statement⟩) ?_
  simp only [next, active, prog, Option.mem_def]

/-- The runs of the store all of whose steps are allowed. -/
abbrev Run (sha256 : String → String) (allowed : Interleaved → Event Asked → Prop) :
    Interleaved → Interleaved → Prop :=
  System.Run (Asked.code sha256) allowed

/-- The empty ledger, with nothing in flight. -/
abbrev empty (authority : Authority) : Interleaved := System.initial (Db.empty authority)

/-- The next `n` statements of a transaction, with nobody in between. -/
def statements (t n : ℕ) : List (Event Asked) :=
  (List.replicate n [Event.look t, Event.exec t]).flatten

/-- A transaction of `n` statements, with nobody in between. -/
def alone (t : ℕ) (asked : Asked) (n : ℕ) : List (Event Asked) :=
  .start t asked :: statements t n ++ [.commit t]

/-- Two schedules, one after the other, that pass a test. -/
theorem exists_runs (sha256 : String → String) (authority : Authority)
    (allowed : Interleaved → Event Asked → Prop) [∀ sys event, Decidable (allowed sys event)]
    (earlier later : List (Event Asked)) (test test' : Interleaved → Bool)
    (passed : ((System.play (Asked.code sha256) allowed (empty authority) earlier).any fun first =>
      test first && (System.play (Asked.code sha256) allowed first later).any test') = true) :
    ∃ first last, Run sha256 allowed (empty authority) first ∧ Run sha256 allowed first last ∧
      test first = true ∧ test' last = true := by
  obtain ⟨first, played, passed⟩ := (Option.any_eq_true _ _).mp passed
  obtain ⟨tested, passed⟩ := Bool.and_eq_true_iff.mp passed
  obtain ⟨last, played', passed⟩ := (Option.any_eq_true _ _).mp passed
  exact ⟨first, last, System.Run.of_play played, System.Run.of_play played', tested, passed⟩

/-- Two schedules of the first `n` transactions, one after the other, that pass a test and
are played with a test of every step. -/
theorem exists_runs_below (sha256 : String → String) (authority : Authority)
    {allowed tested : Interleaved → Event Asked → Prop}
    [∀ sys event, Decidable (tested sys event)] {n : ℕ}
    (implies : ∀ sys event, sys.IdleFrom n → tested sys event → allowed sys event)
    (earlier later : List (Event Asked)) (test test' : Interleaved → Bool)
    (below : ((earlier ++ later).all fun event => event.transaction < n) = true)
    (passed : ((System.play (Asked.code sha256) tested (empty authority) earlier).any fun first =>
      test first && (System.play (Asked.code sha256) tested first later).any test') = true) :
    ∃ first last, Run sha256 allowed (empty authority) first ∧ Run sha256 allowed first last ∧
      test first = true ∧ test' last = true := by
  obtain ⟨first, played, passed⟩ := (Option.any_eq_true _ _).mp passed
  obtain ⟨tested, passed⟩ := Bool.and_eq_true_iff.mp passed
  obtain ⟨last, played', passed⟩ := (Option.any_eq_true _ _).mp passed
  have small : ∀ event ∈ earlier ++ later, event.transaction < n :=
    fun event member => of_decide_eq_true (List.all_eq_true.mp below event member)
  obtain ⟨before, idle⟩ := System.Run.of_play_below implies (fun _ _ => rfl)
    (fun event member => small event (List.mem_append_left _ member)) played
  obtain ⟨after, -⟩ := System.Run.of_play_below implies idle
    (fun event member => small event (List.mem_append_right _ member)) played'
  exact ⟨first, last, before, after, tested, passed⟩

/-- The operation of the sample is sent. -/
def sent : List (Event Asked) :=
  alone 0 (.configurePool (Sample.pool "e") 4, Sample.env "") 3 ++
    alone 1 (.createRoot Sample.root, Sample.env "") 5 ++
    alone 2 (.submitOperation Sample.operation, Sample.env "") 9 ++
    alone 3 (.reserveNext "p" "w", Sample.env "a") 9 ++
    alone 4 (.markSend Sample.reservation, Sample.env "") 6

/-- The operation of the sample is sent, and its inference has ended. -/
def computed : List (Event Asked) :=
  sent ++ alone 5 (.computeFinished Sample.reservation, Sample.env "") 2

/-- The result of the sample. -/
def result : Asked :=
  (.commitResult Sample.reservation Sample.artifact (some 30) [], Sample.env "")

end Interleaved

/-! ### Rules for rows -/

section Rules

variable {ρ β : Type} [Keyed ρ String] {rule : RowRule ρ} {T : Tracked Db Write Key ρ}
  {statement : Sql β} {table : TableName} {admits : Admits} {id : String} {fact : ρ → Prop}

/-- Statements on other tables follow a rule. -/
theorem Sql.allows_of_mayWrite (named : ∀ row, (T.write row).table = table)
    (other : statement.mayWrite table = false) {busy : Key → Bool} {snapshot current : Db}
    {w : Write} (member : w ∈ (Engine.exec statement busy snapshot current).writes) :
    (rule.on T).Allows current w :=
  RowRule.allows_other (Sql.ne_write_of_mayWrite named other member)

/-- Statements on other tables leave a pinned row alone. -/
theorem Sql.pinned_of_mayWrite (𝓓 : Discipline Sql Db Write Key)
    (named : ∀ row, (T.write row).table = table) (other : statement.mayWrite table = false) :
    Wp.Preserves 𝓓 (T.Pinned id fact) (Tx.stmt statement : Transaction β) :=
  Wp.Preserves.stmt (Tracked.Pinned.stable 𝓓) (fun _ pinned => pinned.started statement)
    fun _ _ _ pinned _ => pinned.after_other fun _ => Sql.ne_write_of_mayWrite named other

/-- The transaction has not written a table. -/
def Untouched (table : TableName) (σ : InFlight) : Prop := ∀ w ∈ σ.writes, w.table ≠ table

theorem Untouched.stable (𝓓 : Discipline Sql Db Write Key) : Wp.Stable 𝓓 (Untouched table) :=
  fun _ _ here _ => here

theorem Untouched.keeps (𝓓 : Discipline Sql Db Write Key)
    (other : statement.mayWrite table = false) :
    Wp.Preserves 𝓓 (Untouched table) (Tx.stmt statement : Transaction β) := by
  refine Wp.Preserves.stmt (Untouched.stable 𝓓) (fun _ here => here)
    fun snap σ busy here _ w member => ?_
  rcases List.mem_append.mp member with old | new
  · exact here w old
  · intro same
    have may := Sql.mayWrite_of_mem new
    rw [same, other] at may
    cases may

/-- The rows of a table that a transaction has not written are the committed ones. -/
theorem Untouched.find? {σ : InFlight} (named : ∀ row, (T.write row).table = table)
    (here : Untouched table σ) (id : String) :
    (T.table σ.view).find? id = (T.table σ.committed).find? id := by
  rcases T.find?_applyAll σ.writes σ.committed id with same | ⟨row, member, -, -⟩
  · exact same
  · exact absurd (named row) (here _ member)

/-- What comes after a check may rely on it. -/
theorem wp_require {α : Type} {𝓓 : Discipline Sql Db Write Key} {condition : Bool}
    {error : RuntimeError} {f : Unit → Transaction α} {σ : InFlight}
    {post : α → InFlight → Prop} (rest : condition = true → Wp 𝓓 (f ()) σ post) :
    Wp 𝓓 ((Store.require condition error).bind f) σ post := by
  cases condition
  · exact Wp.raise
  · exact rest rfl

end Rules

end IntramindRuntime.Ledger
