import IntramindRuntime.Ledger.Budget
import IntramindRuntime.Ledger.Tracking
import Mathlib.Algebra.BigOperators.Ring.Finset

/-!
# Send limits

Operations and roots count how often they were sent. Nothing but `mark_send` touches
these counters, and it looks at them under the locks of both rows. So the counters
equal the number of successful sends, and stay within their limits, whatever becomes
of the reservations in between.

## Main definitions

* `Request.sentAttempts` — the attempts that a run sends, one for each successful `mark_send`
* `Db.Counted` — the counters of a ledger agree with the attempts sent so far
* `countersKept` — the law that every method but `mark_send` keeps

## Main results

* `markSend_counts` — what a successful `mark_send` does to the counters
* `Request.counted_after` — one request keeps the counters right
* `Request.send_limits` — the counters are right, and within their limits, in every run
-/

namespace IntramindRuntime.Ledger

open Library

/-- The attempt that a request sends, if it is a `mark_send` that succeeds. -/
def Request.sentAttempt (sha256 : String → String) (d : Db) (request : Request) :
    Option AttemptRow :=
  match request with
  | .call _ (.markSend reservation) =>
    match request.perform sha256 d with
    | .ok _ => d.attempts.find? reservation.attemptId
    | .error _ => none
  | _ => none

/-- The attempts that a sequence of requests sends, one for each successful `mark_send`. -/
def Request.sentAttempts (sha256 : String → String) : List Request → Db → List AttemptRow
  | [], _ => []
  | request :: rest, d =>
    (request.sentAttempt sha256 d).toList ++ sentAttempts sha256 rest (request.after sha256 d)

/-- How many of the attempts are attempts of an operation. -/
def sendsOf (sent : List AttemptRow) (operationId : String) : ℕ :=
  (sent.filter fun a => a.operationId = operationId).length

/-- The attempt was sent. -/
def wasSent (sent : List AttemptRow) (a : AttemptRow) : Bool :=
  decide (a.attemptId ∈ sent.map AttemptRow.attemptId)

namespace Db

/-- The attempts that the operations of a root have counted. -/
def attemptsOfRoot (d : Db) (rootId : String) : ℕ :=
  ((d.operations.rows.filter fun op => op.rootId = rootId).map OperationRow.attempts).sum

/-- The counters of a ledger agree with the attempts sent so far, and are within their
limits. Attempts that were not sent were not charged. -/
structure Counted (d : Db) (sent : List AttemptRow) : Prop where
  operation : ∀ op ∈ d.operations.rows,
    op.attempts = sendsOf sent op.operationId ∧ op.attempts ≤ op.spec.maxAttempts
  root : ∀ root ∈ d.roots.rows,
    root.attempts = d.attemptsOfRoot root.rootId ∧ root.attempts ≤ root.spec.maxAttempts
  known : ∀ a ∈ sent, ∃ row, d.attempts.find? a.attemptId = some row ∧
    row.operationId = a.operationId
  uncharged : ∀ a ∈ d.attempts.rows, wasSent sent a = false → a.Uncharged

theorem cast_attemptsOfRoot (d : Db) (rootId : String) : (d.attemptsOfRoot rootId : ℤ) =
    d.operations.total fun op => if op.rootId = rootId then (op.attempts : ℤ) else 0 := by
  unfold attemptsOfRoot Table.total
  rw [sum_map_filter, Nat.cast_list_sum, List.map_map]
  refine congrArg List.sum (List.map_congr_left fun op _ => ?_)
  by_cases here : op.rootId = rootId <;> simp [here]

end Db

/-! ### What leaves the counters alone -/

/-- An operation keeps its root, its specification and its counter; a new one starts at
zero. -/
def operationCounter : RowGrowth OperationRow where
  follows old row := row.rootId = old.rootId ∧ row.spec = old.spec ∧ row.attempts = old.attempts
  fresh row := row.attempts = 0
  refl _ := ⟨rfl, rfl, rfl⟩
  trans first second := ⟨second.1.trans first.1, second.2.1.trans first.2.1,
    second.2.2.trans first.2.2⟩
  keeps fresh follows := follows.2.2.trans fresh

/-- A root keeps its specification and its counter; a new one starts at zero. -/
def rootCounter : RowGrowth RootRow where
  follows old row := row.spec = old.spec ∧ row.attempts = old.attempts
  fresh row := row.attempts = 0
  refl _ := ⟨rfl, rfl⟩
  trans first second := ⟨second.1.trans first.1, second.2.trans first.2⟩
  keeps fresh follows := follows.2.trans fresh

/-- The law that every method but `mark_send` keeps. -/
abbrev countersKept : RowChange Db :=
  (operationCounter.on trackedOperations).both (rootCounter.on trackedRoots)

/-- A transaction that leaves the counters alone when it runs alone. -/
abbrev KeepsCounters {α : Type} (p : Transaction α) : Prop := countersKept.KeptBy p

/-- All statements but the one that counts an attempt of an operation. -/
def OperationSql.Uncounted {β : Type} : OperationSql β → Prop
  | .insert row => row.Fresh
  | .countAttempt .. => False
  | _ => True

/-- All statements but the one that counts an attempt of a root. -/
def RootSql.Uncounted {β : Type} : RootSql β → Prop
  | .insert row => row.Fresh
  | .charge .. => False
  | _ => True

section Statements

variable {β : Type}

theorem keepsCounters_other {statement : Sql β}
    (operations : statement.mayWrite .operations = false)
    (roots : statement.mayWrite .roots = false) : KeepsCounters (Tx.stmt statement) :=
  RowChange.keptBy_stmt fun _ _ member =>
    ⟨RowGrowth.of_other (Sql.ne_write_of_mayWrite (fun _ => rfl) operations member),
      RowGrowth.of_other (Sql.ne_write_of_mayWrite (fun _ => rfl) roots member)⟩

theorem keepsCounters_operation {statement : OperationSql β} (uncounted : statement.Uncounted) :
    KeepsCounters statement.run := by
  refine RowChange.keptBy_stmt fun d w member => ⟨?_, RowGrowth.of_other
    (@Sql.ne_write_of_mayWrite _ _ _ _ _ _ (.operation statement) .roots (fun _ => rfl) rfl
      _ _ _ _ member)⟩
  have member : w ∈ (statement.exec (fun _ => false) d d).writes := member
  cases statement with
  | lockIdentity | find | ofTenant | pendingCounts | candidates | forUpdate | pendingOf
  | countPendingOf | pastDeadline | pastRootDeadline | waiting | ofEndedRoots => cases member
  | claimable operationId =>
    rw [OperationSql.exec, Access.selectSkipLocked_writes] at member
    cases member
  | insert row =>
    exact RowGrowth.of_insert (T := trackedOperations) member uncounted.2.2.2
  | countAttempt => exact uncounted.elim
  | _ =>
    exact RowGrowth.of_update (T := trackedOperations) member (fun _ => rfl)
      fun row _ _ => operationCounter.refl row

theorem keepsCounters_root {statement : RootSql β} (uncounted : statement.Uncounted) :
    KeepsCounters statement.run := by
  refine RowChange.keptBy_stmt fun d w member => ⟨RowGrowth.of_other
    (@Sql.ne_write_of_mayWrite _ _ _ _ _ _ (.root statement) .operations (fun _ => rfl) rfl
      _ _ _ _ member), ?_⟩
  have member : w ∈ (statement.exec d d).writes := member
  cases statement with
  | forUpdate | forUpdateOfTenant | ofTenant | countRunning => cases member
  | insert row => exact RowGrowth.of_insert (T := trackedRoots) member uncounted.2.2
  | charge => exact uncounted.elim
  | settle =>
    exact RowGrowth.of_updateChecked (T := trackedRoots) member (fun _ => rfl)
      fun row _ _ => rootCounter.refl row
  | expire =>
    exact RowGrowth.of_updateAll (T := trackedRoots) member (fun _ => rfl)
      fun row _ => rootCounter.refl row
  | _ =>
    exact RowGrowth.of_update (T := trackedRoots) member (fun _ => rfl)
      fun row _ _ => rootCounter.refl row

theorem keepsCounters_builds : Builds KeepsCounters := by
  refine .of_terminal countersKept.keptBy_closed (fun statement plain => ?_)
    fun _ _ _ _ => keepsCounters_operation trivial
  cases statement with
  | operation statement =>
    refine keepsCounters_operation ?_
    cases statement <;> first | exact plain | trivial
  | root statement =>
    refine keepsCounters_root ?_
    cases statement <;> first | exact plain | trivial
  | _ => exact keepsCounters_other rfl rfl

end Statements

/-- Every method but `mark_send` leaves the counters alone. -/
theorem call_keepsCounters {sha256 : String → String} {env : Env} (asked : Call)
    (other : ∀ reservation, asked ≠ .markSend reservation) :
    KeepsCounters (asked.code sha256 env) := by
  have builds := keepsCounters_builds
  have attempt : ∀ {β : Type} (statement : AttemptSql β), KeepsCounters statement.run :=
    fun _ => keepsCounters_other rfl rfl
  have back : ∀ {β : Type} (statement : OperationSql β), statement.PutsBack →
      KeepsCounters statement.run := fun statement puts =>
    keepsCounters_operation (by cases statement <;> trivial)
  exact builds.call asked (fun _ => keepsCounters_root (by trivial))
    (fun _ _ _ => builds.configurePool _ _ (keepsCounters_other rfl rfl)
      (keepsCounters_other rfl rfl))
    (fun _ _ _ _ => builds.resumeEngine _ _ _ fun _ => keepsCounters_other rfl rfl)
    (fun _ => builds.submitOperation _ fun _ fresh => keepsCounters_operation fresh)
    (fun _ _ _ => builds.reserveNext _ _ fun _ _ => builds.reserveCandidate fun _ _ =>
      builds.reserve (fun _ _ => attempt _) fun _ _ => keepsCounters_operation (by trivial))
    (fun reservation here => (other reservation here).elim)
    (fun _ => builds.computeFinished _ (attempt _))
    (fun _ _ _ _ _ => builds.commitResult _ _ _ _ fun _ =>
      builds.commitFinished _ _ _ _ (fun _ => keepsCounters_other rfl rfl) (attempt _) fun _ _ _ =>
      builds.decideResult _ _ _ _ (keepsCounters_operation (by trivial)))
    (fun _ _ _ => builds.unknown _ _ (fun _ => attempt _) back)
    (fun _ _ _ _ _ _ => builds.fail _ _ _ _ _ (fun _ _ _ => attempt _) back)
    (fun _ _ _ _ _ _ => builds.finishRun _ _ _ _ _ (keepsCounters_root (by trivial))
      fun _ _ _ => builds.finishRoot _ _ _ _ fun _ => keepsCounters_root (by trivial))
    (fun _ _ _ => builds.bindCompletion _ _ _ fun _ => keepsCounters_other rfl rfl)
    (builds.reconcile (fun _ => attempt _) fun _ => attempt _)
    (fun _ _ => builds.settleLostResult _ (fun _ _ => attempt _) back)
    (fun _ _ _ _ _ => builds.confirmEpochStopped _ _ _ _ (fun _ _ => attempt _) back)
    (fun _ _ _ _ _ => builds.settleIdleUnknown _ _ _ _ (fun _ _ => attempt _) back)
    fun _ _ _ => keepsCounters_other rfl rfl

/-- Every request but a `mark_send` leaves the counters alone. -/
theorem Request.keeps_counters {sha256 : String → String} {d : Db} (request : Request)
    (other : ∀ env reservation, request ≠ .call env (.markSend reservation)) :
    countersKept.Keeps d (request.after sha256 d) := by
  refine request.keeps_of_code fun env asked asks => call_keepsCounters asked ?_
  rintro reservation rfl
  obtain ⟨env', rfl⟩ := Request.eq_call_of_asks asks trivial
  exact other env' reservation rfl

/-! ### What a send does to the counters -/

section Sends

variable {env : Env} {d : Db} {a : Joined}

theorem chargeBudget_counts {root : RootRow} {rootId : String} {unit : BudgetUnit} {bound : ℤ}
    (found : d.roots.find? rootId = some root) :
    (Store.chargeBudget rootId unit bound).Ensures d fun _ d' =>
      d'.operations = d.operations ∧ ∃ bound, d'.roots = d.roots.put (root.charge bound) := by
  have charged : ∀ {α : Type} {bound : ℤ} {next : Option RootRow → Transaction α}
      {post : α → Db → Prop},
      (next (some (root.charge bound))).Ensures
        (RowStore.apply (roots.write (root.charge bound)) d) post →
      Tx.Ensures (.perform (.root (.charge rootId bound)) next) d post := by
    intro α bound next post rest
    refine Tx.Ensures.update rfl (fun row found' _ => ?_) fun missing => ?_
    · obtain rfl : row = root := Option.some.inj (found'.symm.trans found)
      exact rest
    · simpa using missing root found
  unfold Store.chargeBudget
  cases unit with
  | tokens => exact charged (Tx.Ensures.ret ⟨rfl, _, rfl⟩)
  | resource unit =>
    refine charged ?_
    exact Tx.Ensures.update rfl (fun _ _ _ => Tx.Ensures.ret ⟨rfl, _, rfl⟩)
      fun _ => Tx.Ensures.ret ⟨rfl, _, rfl⟩

/-- A send is counted at the operation and at its root, if both limits leave room. -/
theorem chargeSend_counts {reservation : Reservation} {deadline : Time} (joins : Joins d a) :
    (Store.chargeSend env reservation a deadline).Ensures d fun _ d' =>
      (a.operation.attempts < a.operation.spec.maxAttempts ∧
        a.root.attempts < a.root.spec.maxAttempts) ∧
      d'.operations = d.operations.put
        { a.operation with attempts := a.operation.attempts + 1 } ∧
      ∃ bound, d'.roots = d.roots.put (a.root.charge bound) := by
  have root_found : d.roots.find? a.root.rootId = some a.root := by
    rw [joins.rootId]
    exact joins.root
  have root_seen : (roots.table d).find? a.root.rootId = some a.root := root_found
  have op_seen : (operations.table d).find? a.attempt.operationId = some a.operation :=
    joins.operation
  unfold Store.chargeSend
  simp only [Tx.bind_eq, Tx.stmt_bind]
  refine Tx.Ensures.selectForUpdate rfl ?_
  rw [Access.find?_true, root_seen]
  refine Tx.Ensures.selectForUpdate rfl ?_
  rw [Access.find?_true, op_seen]
  refine ensures_require fun _ => ensures_require fun limits => ?_
  simp only [Bool.and_eq_true, decide_eq_true_eq] at limits
  refine Tx.Ensures.bind ((lockBudget_spec _ root_found).mono ?_)
  rintro budget d' ⟨rfl, -⟩
  refine ensures_require fun _ => Tx.Ensures.update rfl (fun op found _ => ?_) fun missing => ?_
  · obtain rfl : op = a.operation := Option.some.inj (found.symm.trans op_seen)
    have root_found' : (RowStore.apply (operations.write
        { a.operation with attempts := a.operation.attempts + 1 }) d : Db).roots.find?
          a.root.rootId = some a.root := root_found
    refine (chargeBudget_counts root_found').mono ?_
    rintro _ d' ⟨operations, bound, roots⟩
    exact ⟨limits, operations, bound, roots⟩
  · simpa using missing a.operation op_seen

/-- A successful `mark_send` counts its attempt at the operation and at the root, which
had not reached their limits. -/
theorem markSend_counts (valid : d.book.Valid) (reservation : Reservation) :
    (Store.markSend env reservation).Ensures d fun _ d' =>
      ∃ a op root, d.attempts.find? reservation.attemptId = some a ∧
        d.operations.find? a.operationId = some op ∧ d.roots.find? op.rootId = some root ∧
        (op.attempts < op.spec.maxAttempts ∧ root.attempts < root.spec.maxAttempts) ∧
        d'.operations = d.operations.put { op with attempts := op.attempts + 1 } ∧
        ∃ bound, d'.roots = d.roots.put (root.charge bound) := by
  unfold Store.markSend
  refine Tx.Ensures.bind ((owned_spec reservation).mono ?_)
  rintro a _ ⟨rfl, joins, named, -⟩
  refine ensures_require fun states => ?_
  simp only [Bool.and_eq_true, decide_eq_true_eq] at states
  have unheld :=
    ((valid.consistent _ (Table.mem_of_find? joins.attempt)).uncharged states.1).1
  have alive : (Store.leaseAlive env reservation a).Ensures d fun _ d' => d = d' := by
    unfold Store.leaseAlive
    split
    · exact Tx.Ensures.read rfl (Tx.Ensures.ret rfl)
    · exact Tx.Ensures.ret rfl
  refine Tx.Ensures.bind (alive.mono ?_)
  rintro alive _ rfl
  refine ensures_require fun _ => ensures_when (fun _ => ?_) fun held => by simp [unheld] at held
  refine Tx.Ensures.bind ((chargeSend_counts joins).mono ?_)
  rintro _ d' ⟨limits, operations, bound, roots⟩
  simp only [Tx.bind_eq, Tx.stmt_bind]
  refine Tx.Ensures.update rfl (fun _ _ _ => Tx.Ensures.ret ?_) fun _ => Tx.Ensures.ret ?_ <;>
    exact ⟨a.attempt, a.operation, a.root, named ▸ joins.attempt, joins.operation, joins.root,
      limits, operations, bound, roots⟩

end Sends

/-! ### One request -/

section Steps

variable {sha256 : String → String} {env : Env} {d d' : Db} {sent : List AttemptRow}

theorem sendsOf_append (later : List AttemptRow) (operationId : String) :
    sendsOf (sent ++ later) operationId = sendsOf sent operationId + sendsOf later operationId := by
  simp [sendsOf]

theorem sendsOf_singleton (a : AttemptRow) (operationId : String) :
    sendsOf [a] operationId = if a.operationId = operationId then 1 else 0 := by
  by_cases here : a.operationId = operationId <;> simp [sendsOf, here]

/-- Every operation belongs to a root that is there. -/
theorem Db.root_of_operation (valid : d.book.Valid) {op : OperationRow}
    (member : op ∈ d.operations.rows) : ∃ root, d.roots.find? op.rootId = some root := by
  have running := (valid.linked.task _ _ (Db.book_task_of_found (Table.find?_of_mem member))).1
  cases found : d.roots.find? op.rootId with
  | some root => exact ⟨root, rfl⟩
  | none => simp [Db.book, found] at running

/-- What was sent was sent for an operation that is there. -/
theorem Db.Counted.sendsOf_of_absent (counted : d.Counted sent) (valid : d.book.Valid)
    {operationId : String} (absent : d.operations.find? operationId = none) :
    sendsOf sent operationId = 0 := by
  refine List.length_eq_zero_iff.mpr (List.filter_eq_nil_iff.mpr fun a member here => ?_)
  obtain ⟨row, found, same⟩ := counted.known a member
  obtain ⟨task, known, -⟩ := valid.linked.attempt row (Table.mem_of_find? found)
  rw [same, of_decide_eq_true here, Db.book_tasks, absent] at known
  cases known

theorem attemptsOfRoot_of_keeps (keeps : countersKept.Keeps d d') (rootId : String) :
    d'.attemptsOfRoot rootId = d.attemptsOfRoot rootId := by
  refine Int.natCast_inj.mp ?_
  rw [Db.cast_attemptsOfRoot, Db.cast_attemptsOfRoot]
  refine Table.total_eq_of_valueAt _ fun id => ?_
  unfold Table.valueAt
  cases before : d.operations.find? id with
  | some old =>
    obtain ⟨row, found, root, -, attempts⟩ :=
      RowGrowth.follows_of_keeps (T := trackedOperations) keeps.left before
    rw [show d'.operations.find? id = some row from found]
    simp [root, attempts]
  | none =>
    cases after : d'.operations.find? id with
    | none => rfl
    | some row =>
      have fresh : row.attempts = 0 :=
        RowGrowth.fresh_of_keeps (T := trackedOperations) keeps.left before after
      simp [fresh]

/-- A root whose operations are not there yet has counted nothing. -/
theorem attemptsOfRoot_of_absent (valid : d.book.Valid) {rootId : String}
    (absent : d.roots.find? rootId = none) : d.attemptsOfRoot rootId = 0 := by
  have none : d.operations.rows.filter (fun op => op.rootId = rootId) = [] := by
    refine List.filter_eq_nil_iff.mpr fun op member here => ?_
    obtain ⟨root, found⟩ := Db.root_of_operation valid member
    rw [of_decide_eq_true here, absent] at found
    cases found
  rw [Db.attemptsOfRoot, none]
  rfl

/-- The counters stay right while nothing is counted and nothing is sent. -/
theorem Db.Counted.of_keeps {allowed : Label → Prop} (counted : d.Counted sent)
    (valid : d.book.Valid) (keeps : countersKept.Keeps d d') (path : Path allowed d.book d'.book)
    (unsent : ∀ attemptId, ¬ allowed (.send attemptId)) : d'.Counted sent where
  operation op member := by
    have after := Table.find?_of_mem member
    cases before : d.operations.find? op.operationId with
    | some old =>
      obtain ⟨row, found, -, spec, attempts⟩ :=
        RowGrowth.follows_of_keeps (T := trackedOperations) keeps.left before
      obtain rfl : op = row := Option.some.inj (after.symm.trans found)
      rw [spec, attempts]
      have known := counted.operation old (Table.mem_of_find? before)
      rwa [show old.operationId = op.operationId from Table.key_of_find? before] at known
    | none =>
      have fresh : op.attempts = 0 :=
        RowGrowth.fresh_of_keeps (T := trackedOperations) keeps.left before after
      rw [fresh, counted.sendsOf_of_absent valid before]
      exact ⟨rfl, Nat.zero_le _⟩
  root root member := by
    have after := Table.find?_of_mem member
    rw [attemptsOfRoot_of_keeps keeps]
    cases before : d.roots.find? root.rootId with
    | some old =>
      obtain ⟨row, found, spec, attempts⟩ :=
        RowGrowth.follows_of_keeps (T := trackedRoots) keeps.right before
      obtain rfl : root = row := Option.some.inj (after.symm.trans found)
      rw [spec, attempts]
      have known := counted.root old (Table.mem_of_find? before)
      rwa [show old.rootId = root.rootId from Table.key_of_find? before] at known
    | none =>
      have fresh : root.attempts = 0 :=
        RowGrowth.fresh_of_keeps (T := trackedRoots) keeps.right before after
      rw [fresh, attemptsOfRoot_of_absent valid before]
      exact ⟨rfl, Nat.zero_le _⟩
  known a member := by
    obtain ⟨row, found, same⟩ := counted.known a member
    obtain ⟨row', member', later, -⟩ := path.keeps_compute valid (Table.mem_of_find? found)
    refine ⟨row', ?_, later.operationId.trans same⟩
    rw [← show row.attemptId = a.attemptId from Table.key_of_find? found, ← later.attemptId]
    exact Table.find?_of_mem member'
  uncharged a member fresh := by
    refine path.keeps_uncharged (unsent _) (fun old found => ?_) a (Table.find?_of_mem member)
    refine counted.uncharged old (Table.mem_of_find? found) ?_
    rw [wasSent, show old.attemptId = a.attemptId from Table.key_of_find? found]
    exact fresh

/-- A send that is counted keeps the counters right. -/
theorem Db.Counted.send {a : AttemptRow} {op : OperationRow} {root : RootRow} {bound : ℤ}
    (counted : d.Counted sent) (valid : d.book.Valid)
    (attempt : d.attempts.find? a.attemptId = some a)
    (operation : d.operations.find? a.operationId = some op)
    (root_found : d.roots.find? op.rootId = some root)
    (limits : op.attempts < op.spec.maxAttempts ∧ root.attempts < root.spec.maxAttempts)
    (operations : d'.operations = d.operations.put { op with attempts := op.attempts + 1 })
    (roots : d'.roots = d.roots.put (root.charge bound))
    (path : Path (fun label => label = .quiet ∨ label = .send a.attemptId) d.book d'.book) :
    d'.Counted (sent ++ [a]) := by
  have op_key : op.operationId = a.operationId := Table.key_of_find? operation
  have root_key : root.rootId = op.rootId := Table.key_of_find? root_found
  have counts : ∀ rootId, d'.attemptsOfRoot rootId =
      d.attemptsOfRoot rootId + if op.rootId = rootId then 1 else 0 := by
    intro rootId
    refine Int.natCast_inj.mp ?_
    rw [Nat.cast_add, Db.cast_attemptsOfRoot, Db.cast_attemptsOfRoot, operations,
      Table.total_put_of_found _ (op_key ▸ operation)]
    by_cases here : op.rootId = rootId <;> simp [here]
    ring
  refine ⟨fun op' member => ?_, fun root' member => ?_, fun a' member => ?_,
    fun a' member fresh => ?_⟩
  · rw [sendsOf_append, sendsOf_singleton]
    rw [operations] at member
    rcases Table.mem_put_iff.mp member with rfl | ⟨old, other⟩
    · have known := counted.operation op (Table.mem_of_find? operation)
      rw [if_pos op_key.symm]
      exact ⟨congrArg (· + 1) known.1, limits.1⟩
    · have elsewhere : a.operationId ≠ op'.operationId := fun here => other (op_key.trans here)
      rw [if_neg elsewhere]
      exact counted.operation op' old
  · rw [counts]
    rw [roots] at member
    rcases Table.mem_put_iff.mp member with rfl | ⟨old, other⟩
    · have known := counted.root root (Table.mem_of_find? root_found)
      have here : op.rootId = (root.charge bound).rootId := root_key.symm
      rw [if_pos here]
      exact ⟨congrArg (· + 1) known.1, limits.2⟩
    · have elsewhere : op.rootId ≠ root'.rootId := fun here => other (root_key.trans here)
      rw [if_neg elsewhere]
      exact counted.root root' old
  · obtain ⟨row, found, same⟩ : ∃ row, d.attempts.find? a'.attemptId = some row ∧
        row.operationId = a'.operationId := by
      rcases List.mem_append.mp member with old | new
      · exact counted.known a' old
      · obtain rfl := List.mem_singleton.mp new
        exact ⟨a', attempt, rfl⟩
    obtain ⟨row', member', later, -⟩ := path.keeps_compute valid (Table.mem_of_find? found)
    refine ⟨row', ?_, later.operationId.trans same⟩
    rw [← show row.attemptId = a'.attemptId from Table.key_of_find? found, ← later.attemptId]
    exact Table.find?_of_mem member'
  · simp only [wasSent, List.map_append, List.map_cons, List.map_nil, List.mem_append,
      List.mem_singleton, decide_eq_false_iff_not, not_or] at fresh
    refine path.keeps_uncharged (fun allowed => ?_) (fun old found => ?_) a'
      (Table.find?_of_mem member)
    · rcases allowed with quiet | sends
      · cases quiet
      · exact fresh.2 (Label.send.inj sends)
    · refine counted.uncharged old (Table.mem_of_find? found) ?_
      rw [wasSent, show old.attemptId = a'.attemptId from Table.key_of_find? found]
      exact decide_eq_false fresh.1

/-- A `mark_send` that raises changes nothing. -/
theorem markSend_of_error {reservation : Reservation} {error : RuntimeError}
    (raised : (Store.markSend env reservation).run d = .error error) :
    (Request.call env (.markSend reservation)).perform sha256 d = .error error := by
  change (Store.reply (fun _ => Reply.none) (Store.markSend env reservation)).run d = _
  rw [Store.reply, Tx.run_bind, raised]
  rfl

/-- One request keeps the counters right. -/
theorem Request.counted_after (request : Request) (valid : d.book.Valid)
    (counted : d.Counted sent) :
    (request.after sha256 d).Counted (sent ++ (request.sentAttempt sha256 d).toList) := by
  have path : Path (request.allows d) d.book (request.after sha256 d).book :=
    request.refines valid
  by_cases sends : ∃ env reservation, request = .call env (.markSend reservation)
  · obtain ⟨env, reservation, rfl⟩ := sends
    unfold Request.after Request.sentAttempt
    cases ran : (Request.call env (.markSend reservation)).perform sha256 d with
    | error error => simpa [ran] using counted
    | ok answer =>
      obtain ⟨reply, d'⟩ := answer
      rw [show (Request.call env (.markSend reservation)).after sha256 d = d' by
        simp only [Request.after, ran]] at path
      obtain ⟨a, op, root, attempt, operation, root_found, limits, operations, bound, roots⟩ :=
        ensures_reply (@markSend_counts env d valid reservation) reply d' ran
      obtain named : a.attemptId = reservation.attemptId := Table.key_of_find? attempt
      simp only [attempt, Option.toList_some]
      exact counted.send valid (named ▸ attempt) operation root_found limits operations roots
        (named ▸ path)
  · have silent : request.sentAttempt sha256 d = none := by
      unfold Request.sentAttempt
      split
      · exact (sends ⟨_, _, rfl⟩).elim
      · rfl
    rw [silent, Option.toList_none, List.append_nil]
    refine counted.of_keeps valid (request.keeps_counters fun env reservation here =>
      sends ⟨env, reservation, here⟩) path fun attemptId allowed => ?_
    obtain ⟨env, reservation, here, -⟩ := Request.markSend_of_allows allowed
    exact sends ⟨env, reservation, here⟩

/-- Every sequence of requests keeps the counters right. -/
theorem Request.counted_afterAll (requests : List Request) (valid : d.book.Valid)
    (counted : d.Counted sent) : (Request.afterAll sha256 requests d).Counted
      (sent ++ Request.sentAttempts sha256 requests d) := by
  induction requests generalizing d sent with
  | nil => simpa [Request.sentAttempts, Request.afterAll] using counted
  | cons request rest ih =>
    have path : Path (request.allows d) d.book (request.after sha256 d).book :=
      request.refines valid
    have next : (request.after sha256 d).Counted (sent ++ (request.sentAttempt sha256 d).toList) :=
      request.counted_after valid counted
    have later := ih (path.valid valid) next
    rwa [List.append_assoc] at later

/-! ### Requests that send nothing -/

/-- Budgets depend only on the attempts that were sent. -/
theorem Db.Counted.total_eq {allowed : Label → Prop} {column : AttemptRow → ℤ}
    (counted : d.Counted sent) (counted' : d'.Counted sent) (valid : d.book.Valid)
    (path : Path allowed d.book d'.book)
    (kept : ∀ a ∈ d.attempts.rows, wasSent sent a = true → a ∈ d'.attempts.rows)
    (nothing : ∀ a, a.Uncharged → column a = 0) (rootId : String) (unit : BudgetUnit) :
    d'.book.total rootId unit column = d.book.total rootId unit column := by
  have roots : ∀ a ∈ d.attempts.rows, d.book.rootOf a = d'.book.rootOf a := by
    intro a member
    obtain ⟨task, known, -⟩ := valid.linked.attempt a member
    obtain ⟨task', known', rootId, -⟩ := path.keeps_task known
    simp [Book.rootOf, known, known', rootId]
  have same : d.book.total rootId unit column = d.attempts.total fun a =>
      if d'.book.rootOf a = some rootId ∧ a.budgetUnit = unit then column a else 0 :=
    Table.total_congr fun a member => by rw [roots a member]
  rw [same]
  refine Table.total_eq_of_valueAt _ fun id => ?_
  unfold Table.valueAt
  -- An attempt that was sent has stayed, any other holds and has used nothing.
  cases after : d'.book.attempts.find? id with
  | none =>
    cases before : d.attempts.find? id with
    | none => rfl
    | some a =>
      obtain ⟨a', member, later, -⟩ := path.keeps_compute valid (Table.mem_of_find? before)
      have found := Table.find?_of_mem member
      rw [key_attempt, later.attemptId, show a.attemptId = id from Table.key_of_find? before,
        after] at found
      cases found
  | some a =>
    have named : a.attemptId = id := Table.key_of_find? after
    cases was : wasSent sent a with
    | false =>
      have zero := nothing a (counted'.uncharged a (Table.mem_of_find? after) was)
      cases before : d.attempts.find? id with
      | none => simp [zero]
      | some old =>
        have old_named : old.attemptId = id := Table.key_of_find? before
        have unsent : wasSent sent old = false := by rwa [wasSent, old_named, ← named]
        simp [zero, nothing old (counted.uncharged old (Table.mem_of_find? before) unsent)]
    | true =>
      obtain ⟨sent', member, same⟩ := List.mem_map.mp (of_decide_eq_true was)
      obtain ⟨old, before, -⟩ := counted.known sent' member
      rw [same, named] at before
      have old_named : old.attemptId = id := Table.key_of_find? before
      have stayed := kept old (Table.mem_of_find? before) (by rwa [wasSent, old_named, ← named])
      have found := Table.find?_of_mem stayed
      rw [key_attempt, old_named] at found
      rw [show d'.attempts.find? id = some a from after] at found
      cases found
      rw [before]

/-- A request that sends nothing, and changes no attempt that was sent, changes no
budget. -/
theorem Request.keeps_budgets (request : Request) (valid : d.book.Valid)
    (counted : d.Counted sent) (silent : request.sentAttempt sha256 d = none)
    (kept : ∀ a ∈ d.attempts.rows, wasSent sent a = true →
      a ∈ (request.after sha256 d).attempts.rows)
    {rootId : String} {unit : BudgetUnit} {account : Budget}
    (known : d.account rootId unit = some account) :
    ∃ account', (request.after sha256 d).account rootId unit = some account' ∧
      account'.reserved = account.reserved ∧ account'.spent = account.spent := by
  have path : Path (request.allows d) d.book (request.after sha256 d).book :=
    request.refines valid
  have counted' : (request.after sha256 d).Counted sent := by
    have after := @Request.counted_after sha256 d sent request valid counted
    rwa [silent, Option.toList_none, List.append_nil] at after
  obtain ⟨account', known'⟩ := path.keeps_account known
  have before := valid.accounted
  have after := (path.valid valid).accounted
  refine ⟨account', known', ?_, ?_⟩
  · rw [after.reserved _ _ _ known', before.reserved _ _ _ known]
    refine counted.total_eq counted' valid path kept (fun a uncharged => ?_) rootId unit
    simp [AttemptRow.held, uncharged.1]
  · rw [after.spent _ _ _ known', before.spent _ _ _ known]
    refine counted.total_eq counted' valid path kept (fun a uncharged => ?_) rootId unit
    simp [AttemptRow.used, uncharged.2]

/-- A request that sends nothing leaves every counter alone. -/
theorem Request.keeps_counters_of_silent (request : Request)
    (silent : request.sentAttempt sha256 d = none) (valid : d.book.Valid) :
    countersKept.Keeps d (request.after sha256 d) := by
  by_cases sends : ∃ env reservation, request = .call env (.markSend reservation)
  · obtain ⟨env, reservation, rfl⟩ := sends
    unfold Request.after
    unfold Request.sentAttempt at silent
    cases ran : (Request.call env (.markSend reservation)).perform sha256 d with
    | error error => exact RowChange.Keeps.refl _ d
    | ok answer =>
      obtain ⟨a, -, -, attempt, -⟩ :=
        ensures_reply (@markSend_counts env d valid reservation) answer.1 answer.2 ran
      simp [ran, attempt] at silent
  · exact request.keeps_counters fun env reservation here => sends ⟨env, reservation, here⟩

end Steps

/-! ### Runs -/

section Runs

variable {sha256 : String → String} {d : Db} {before : List AttemptRow}

/-- In every run the counters equal the number of successful sends and stay within their
limits. An attempt that is not sent holds no budget and has used none, a request that
sends nothing changes no counter, and it changes no budget unless it changes an attempt
that was sent. A `mark_send` that raises changes nothing. -/
theorem Request.send_limits (requests : List Request) (valid : d.book.Valid)
    (counted : d.Counted before) :
    let sent := before ++ Request.sentAttempts sha256 requests d
    let last := Request.afterAll sha256 requests d
    (∀ op ∈ last.operations.rows,
      op.attempts = sendsOf sent op.operationId ∧ op.attempts ≤ op.spec.maxAttempts) ∧
    (∀ root ∈ last.roots.rows,
      root.attempts = last.attemptsOfRoot root.rootId ∧ root.attempts ≤ root.spec.maxAttempts) ∧
    (∀ a ∈ last.attempts.rows, wasSent sent a = false → a.budgetHeld = false ∧ a.usage = none) ∧
    (∀ request : Request, request.sentAttempt sha256 last = none →
      let next := request.after sha256 last
      (∀ op ∈ last.operations.rows, ∃ op' ∈ next.operations.rows,
        op'.operationId = op.operationId ∧ op'.attempts = op.attempts) ∧
      (∀ root ∈ last.roots.rows, ∃ root' ∈ next.roots.rows,
        root'.rootId = root.rootId ∧ root'.attempts = root.attempts) ∧
      ((∀ a ∈ last.attempts.rows, wasSent sent a = true → a ∈ next.attempts.rows) →
        ∀ rootId unit account, last.account rootId unit = some account →
          ∃ account', next.account rootId unit = some account' ∧
            account'.reserved = account.reserved ∧ account'.spent = account.spent)) ∧
    ∀ env reservation error, (Store.markSend env reservation).run last = .error error →
      (Request.call env (.markSend reservation)).after sha256 last = last := by
  intro sent last
  have counts : last.Counted sent := Request.counted_afterAll requests valid counted
  have sound : last.book.Valid := (Request.afterAll_refines sha256 requests valid).valid valid
  refine ⟨counts.operation, counts.root, counts.uncharged, fun request silent => ?_,
    fun env reservation error raised => ?_⟩
  · have keeps := request.keeps_counters_of_silent silent sound
    refine ⟨fun op member => ?_, fun root member => ?_, fun kept rootId unit account known => ?_⟩
    · obtain ⟨op', found, -, -, same⟩ := RowGrowth.follows_of_keeps (T := trackedOperations)
        keeps.left (Table.find?_of_mem member)
      exact ⟨op', Table.mem_of_find? found, Table.key_of_find? found, same⟩
    · obtain ⟨root', found, -, same⟩ := RowGrowth.follows_of_keeps (T := trackedRoots)
        keeps.right (Table.find?_of_mem member)
      exact ⟨root', Table.mem_of_find? found, Table.key_of_find? found, same⟩
    · exact request.keeps_budgets sound counts silent kept known
  · rw [Request.after, markSend_of_error raised]

theorem Db.empty_counted (authority : Authority) : (Db.empty authority).Counted [] where
  operation _ member := by cases member
  root _ member := by cases member
  known _ member := by cases member
  uncharged _ member := by cases member

/-- The operation of the sample and its root have counted one send. -/
theorem send_limits_sample :
    (Request.sentAttempts Sample.sha256 Sample.sent (Db.empty {})).map AttemptRow.attemptId =
        ["a"] ∧
      ∀ root ∈ (Sample.after Sample.sent).roots.rows,
        root.attempts = (Sample.after Sample.sent).attemptsOfRoot root.rootId ∧
          root.attempts ≤ root.spec.maxAttempts :=
  ⟨by decide +kernel,
    (Request.send_limits Sample.sent Db.empty_valid (Db.empty_counted {})).2.1⟩

end Runs

end IntramindRuntime.Ledger
