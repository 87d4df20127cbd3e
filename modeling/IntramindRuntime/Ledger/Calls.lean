import IntramindRuntime.Ledger.Recovery

/-!
# Every method call is a path of moves

The methods put together: what each of them may do with compute, and that it does
nothing else. From here on, a property of all ledgers is proved about the moves of
the abstract ledger.

## Main definitions

* `Call.allows`, `Request.allows` — the labels that a method may use
* `Request.afterAll` — the ledger after a sequence of requests

## Main results

* `Call.refines`, `Request.refines` — every method call is a path of moves
* `Reachable.valid` — the invariants of the abstract ledger hold in every reachable ledger
-/

namespace IntramindRuntime.Ledger

open Library

/-- The labels that a method may use on a ledger. -/
def Call.allows (d : Db) : Call → Label → Prop
  | .configurePool spec _ => fun label => label = .quiet ∨ label = .configure spec.poolId
  | .markSend reservation => fun label => label = .quiet ∨ label = .send reservation.attemptId
  | .computeFinished reservation => fun label => label = .quiet ∨
      (label = .release reservation.attemptId ∧ Owns d reservation)
  | .fail reservation _ notSent _ _ => fun label => label = .quiet ∨
      (label = .release reservation.attemptId ∧ notSent = true ∧ Owns d reservation)
  | .confirmEpochStopped poolId engineEpoch evidence _ => fun label => label = .quiet ∨
      ∃ attemptId, label = .release attemptId ∧ Stops d poolId engineEpoch evidence attemptId
  | .settleIdleUnknown poolId engineEpoch idleSince attemptIds => fun label => label = .quiet ∨
      ∃ attemptId, label = .release attemptId ∧
        Idles d poolId engineEpoch idleSince attemptIds attemptId
  | _ => quietly

section Calls

variable {sha256 : String → String} {env : Env} {d : Db} {authority : Authority}

theorem ensures_reply {α : Type} {p : Transaction α} {wrap : α → Reply} {post : Db → Prop}
    (holds : p.Ensures d fun _ d' => post d') :
    (Store.reply wrap p).Ensures d fun _ d' => post d' :=
  Tx.Ensures.bind (holds.mono fun _ _ held => Tx.Ensures.ret held)

theorem offBook_refines {α : Type} {p : Transaction α} (uses : p.Uses Sql.OffBook) :
    p.Ensures d fun _ d' => Path quietly d.book d'.book :=
  (ensures_offBook uses).mono fun _ _ same => same ▸ Path.refl _

/-- Every method call is a path of moves with allowed labels. -/
theorem Call.refines (valid : d.book.Valid) (call : Call) :
    (call.code sha256 env).Ensures d fun _ d' => Path (call.allows d) d.book d'.book := by
  cases call with
  | registerOwner => exact ensures_reply (offBook_refines (registerOwner_offBook ..))
  | heartbeatOwner => exact ensures_reply (offBook_refines (heartbeatOwner_offBook ..))
  | createRoot spec => exact ensures_reply (root_refines valid spec)
  | submitRun root key inputDigest spec =>
    exact ensures_reply (submitRun_refines valid root key inputDigest spec)
  | configurePool spec groupCeiling =>
    exact ensures_reply (configurePool_refines valid spec groupCeiling)
  | submitOperation spec => exact ensures_reply (submitOperation_refines spec)
  | reserveNext poolId ownerId => exact ensures_reply (reserveNext_refines valid poolId ownerId)
  | markSend reservation => exact ensures_reply (markSend_refines valid reservation)
  | heartbeat reservation => exact ensures_reply (heartbeat_refines valid reservation)
  | computeFinished reservation => exact ensures_reply (computeFinished_refines valid reservation)
  | commitResult reservation artifact usage attachments =>
    exact ensures_reply (commitResult_refines valid reservation artifact usage attachments)
  | unknown reservation reason => exact ensures_reply (unknown_refines valid reservation reason)
  | fail reservation reason notSent retry delay =>
    exact ensures_reply (fail_refines valid reservation reason notSent retry delay)
  | cancel rootId tenantId => exact ensures_reply (cancel_refines rootId tenantId)
  | finishRun rootId tenantId state result reason =>
    exact ensures_reply (finishRun_refines rootId tenantId state result reason)
  | bindCompletion => exact ensures_reply (offBook_refines (bindCompletion_offBook ..))
  | claimEvents => exact ensures_reply (offBook_refines (claimEvents_offBook ..))
  | delivered => exact ensures_reply (offBook_refines (delivered_offBook ..))
  | deferEvent => exact ensures_reply (offBook_refines (deferEvent_offBook ..))
  | reconcile => exact ensures_reply (reconcile_refines valid)
  | lostResults => exact ensures_reply (offBook_refines lostResults_offBook)
  | settleLostResult attemptId => exact ensures_reply (settleLostResult_refines valid attemptId)
  | quiesceEngine => exact ensures_reply (offBook_refines (quiesceEngine_offBook ..))
  | resumeEngine => exact ensures_reply (offBook_refines (resumeEngine_offBook ..))
  | confirmEpochStopped poolId engineEpoch evidence recover =>
    exact ensures_reply (confirmEpochStopped_refines valid poolId engineEpoch evidence recover)
  | settleIdleUnknown poolId engineEpoch idleSince attemptIds =>
    exact ensures_reply (settleIdleUnknown_refines valid poolId engineEpoch idleSince attemptIds)
  | updateTarget => exact ensures_reply (offBook_refines (updateTarget_offBook ..))

theorem settleLost_refines (settlement : String → Env) (attemptIds : List String)
    (valid : d.book.Valid) :
    Path quietly d.book (Store.settleLost settlement attemptIds d).2.book := by
  induction attemptIds generalizing d with
  | nil => exact Path.refl _
  | cons attemptId rest ih =>
    unfold Store.settleLost
    cases ran : (Store.settleLostResult (settlement attemptId) attemptId).run d with
    | error error => exact ih valid
    | ok settled =>
      have path := settleLostResult_refines valid attemptId settled.1 settled.2 ran
      exact path.trans (ih (path.valid valid))

theorem reconcileExpired_refines (listing : Env) (settlement : String → Env)
    (valid : d.book.Valid) {count : ℕ} {d' : Db}
    (ran : Store.reconcileExpired env listing settlement d = .ok (count, d')) :
    Path quietly d.book d'.book := by
  unfold Store.reconcileExpired at ran
  cases main : (Store.reconcile env).run d with
  | error error => rw [main] at ran; cases ran
  | ok reconciled =>
    have first := reconcile_refines valid reconciled.1 reconciled.2 main
    rw [main] at ran
    cases listed : (Store.lostResults listing).run reconciled.2 with
    | error error =>
      simp only [bind, Except.bind, listed] at ran
      cases ran
    | ok lost =>
      have second := offBook_refines lostResults_offBook lost.1 lost.2 listed
      simp only [bind, Except.bind, listed] at ran
      cases ran
      have path := first.trans second
      exact path.trans (settleLost_refines settlement lost.1 (path.valid valid))

/-- The labels that a request may use on a ledger. -/
def Request.allows (d : Db) : Request → Label → Prop
  | .call _ asked => asked.allows d
  | .reconcileExpired .. => quietly

/-- Only `mark_send` sends, and only the attempt it is called for. -/
theorem Request.markSend_of_allows {request : Request} {attemptId : String}
    (allowed : request.allows d (.send attemptId)) :
    ∃ env reservation, request = .call env (.markSend reservation) ∧
      attemptId = reservation.attemptId := by
  cases request with
  | reconcileExpired => cases allowed
  | call env asked => cases asked <;> simp_all [Request.allows, Call.allows, quietly]

/-- Every request is a path of moves with allowed labels. -/
theorem Request.refines (request : Request) (valid : d.book.Valid) :
    Path (request.allows d) d.book (request.after sha256 d).book := by
  unfold Request.after
  split
  · next reply d' ran =>
    cases request with
    | call env asked => exact Call.refines valid asked _ _ ran
    | reconcileExpired env listing settlement =>
      simp only [Request.perform] at ran
      cases main : Store.reconcileExpired env listing settlement d with
      | error error => rw [main] at ran; cases ran
      | ok settled =>
        rw [main] at ran
        cases ran
        exact reconcileExpired_refines listing settlement valid main
  · exact Path.refl _

theorem Db.empty_valid : (Db.empty authority).book.Valid where
  linked :=
    { attempt := fun _ member => by cases member
      pool := fun _ member => by cases member
      task := fun _ _ found => by cases found }
  consistent _ member := by cases member
  opened _ _ found := by cases found
  accounted :=
    { reserved := fun _ unit _ found => by cases unit <;> cases found
      spent := fun _ unit _ found => by cases unit <;> cases found
      bounded := fun _ unit _ found => by cases unit <;> cases found
      within := fun _ unit _ found => by cases unit <;> cases found
      backed := fun _ member => by cases member }

/-- The invariants of the abstract ledger hold in every reachable ledger. -/
theorem Reachable.valid (reached : Reachable sha256 authority d) : d.book.Valid := by
  induction reached with
  | empty => exact Db.empty_valid
  | step _ request ih => exact (request.refines ih).valid ih

/-- The ledger after a sequence of requests. -/
def Request.afterAll (sha256 : String → String) (requests : List Request) (d : Db) : Db :=
  requests.foldl (fun d request => request.after sha256 d) d

/-- Every sequence of requests is a path of moves. -/
theorem Request.afterAll_refines (sha256 : String → String) (requests : List Request)
    (valid : d.book.Valid) :
    Path (fun _ => True) d.book (Request.afterAll sha256 requests d).book := by
  induction requests generalizing d with
  | nil => exact Path.refl _
  | cons request rest ih =>
    have path : Path (request.allows d) d.book (request.after sha256 d).book :=
      request.refines valid
    exact (path.mono fun _ _ => trivial).trans (ih (path.valid valid))

theorem Reachable.afterAll (requests : List Request) :
    Reachable sha256 authority (Request.afterAll sha256 requests (Db.empty authority)) := by
  have extend : ∀ d, Reachable sha256 authority d →
      Reachable sha256 authority (Request.afterAll sha256 requests d) := by
    induction requests with
    | nil => exact fun _ reached => reached
    | cons request rest ih => exact fun _ reached => ih _ (reached.step request)
  exact extend _ .empty

theorem Reachable.refines (reached : Reachable sha256 authority d) (request : Request) :
    Path (request.allows d) d.book (request.after sha256 d).book :=
  request.refines reached.valid

end Calls

/-! ### A sample run -/

namespace Sample

/-- The digest of the one tenant of the sample. -/
def sha256 (text : String) : String :=
  if text = "t" then "e3b98a4da31a127d4bde6e43033f66ba274cab0eb7eb1c70ec41402bf6273dd8" else ""

/-- One second after the start of time, with the identity `uuid` for a new attempt. -/
def env (uuid : String) : Env where
  now := 1000000
  clock := fun _ _ => 1000000
  uuid := uuid
  updateId := 0
  lease := 60000000

/-- A root with a thousand tokens. -/
def root : RootSpec where
  rootId := "r"
  tenantId := "t"
  deadline := 100000000
  budgetLimit := 1000

/-- Bytes of the tenant. -/
def artifact : Artifact where
  key := tenantPrefix sha256 "t" ++ "x"
  sha256 := "a"
  size := 1

/-- An operation that may use thirty tokens. -/
def operation : OperationSpec where
  operationId := "o"
  rootId := "r"
  tenantId := "t"
  payload := artifact
  modelProfile := "m"
  expectedCost := 10
  work := .llm 10 20

/-- A pool that can carry the operation out. -/
def pool (engineEpoch : String) : PoolSpec where
  poolId := "p"
  groupId := "g"
  engineEpoch := engineEpoch
  profileId := "f"
  modelProfile := "m"
  modelRevision := "1"
  hardCeiling := 4
  target := 2
  work := .llm 1024

/-- What the first reservation of the operation returns. -/
def reservation : Reservation where
  attemptId := "a"
  operation := operation
  poolId := "p"
  engineEpoch := "e"
  modelRevision := "1"
  ownerId := "w"
  leaseEpoch := 1
  attemptDeadline := 100000000

/-- The operation is reserved. -/
def reserved : List Request :=
  [.call (env "") (.configurePool (pool "e") 4), .call (env "") (.createRoot root),
    .call (env "") (.submitOperation operation), .call (env "a") (.reserveNext "p" "w")]

/-- The operation is sent. -/
def sent : List Request := reserved ++ [.call (env "") (.markSend reservation)]

/-- The operation is done, and used ten tokens more than it might. -/
def done : List Request := sent ++
  [.call (env "") (.computeFinished reservation),
    .call (env "") (.commitResult reservation artifact (some 40) [])]

/-- The ledger after a sequence of requests. -/
def after (requests : List Request) : Db := Request.afterAll sha256 requests (Db.empty {})

theorem reachable (requests : List Request) : Reachable sha256 {} (after requests) :=
  Reachable.afterAll requests

end Sample

end IntramindRuntime.Ledger
