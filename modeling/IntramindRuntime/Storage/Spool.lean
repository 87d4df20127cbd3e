import IntramindRuntime.Proxy.StreamEvents
import Mathlib.Algebra.BigOperators.Group.List.Basic
import Mathlib.Tactic.Linarith

/-!
# Spool accounting

Uploads and verified reads pass through temporary files. A `SpoolBudget` counts what they have
reserved: the bytes of all, and the number and the bytes of the reads. A coroutine reserves before
it opens its file and gives back when it leaves, by whatever way. Between two awaits it runs
alone, but any number of them take turns, and their threads read and write beside the event loop.

## Main definitions

* `SpoolBudget`, `SpoolBudget.reserve` — the counters and the admission
* `Transfer`, `Transfer.step` — an upload or a read, from one await to the next
* `World`, `World.run` — all of them together

## Main results

* `Transfer.follows_step` — what is written was counted against the reservation before
* `World.run_accounted` — in every run, the counters are the sums over what is reserved
-/

namespace IntramindRuntime.Storage

/-! ### The budget -/

/-- What a transfer reserves. -/
structure Reservation where
  size : ℤ
  read : Bool

/-- The limits of a `SpoolBudget`, which must be positive. -/
structure SpoolLimits where
  concurrency : ℤ
  readLimit : ℤ
  totalLimit : ℤ
  minFreeBytes : ℤ
  positive : 0 < concurrency ∧ 0 < readLimit ∧ 0 < totalLimit
  nonneg : 0 ≤ minFreeBytes

/-- The counters of a `SpoolBudget`. -/
@[ext] structure SpoolBudget where
  totalBytes : ℤ := 0
  reads : ℤ := 0
  readBytes : ℤ := 0
  deriving DecidableEq

/-- How a transfer fails. -/
inductive Failure
  | valueError (message : String)
  /-- `ArtifactCapacityBusy` -/
  | capacityBusy (message : String)
  /-- `ArtifactTooLarge` -/
  | tooLarge (message : String)
  /-- `ArtifactIntegrityError` -/
  | integrity
  /-- `HTTPException` -/
  | http (status : ℕ) (detail : String)
  | cancelled
  /-- An exception from outside. -/
  | raised
  deriving DecidableEq

namespace SpoolBudget

/-- The counters after a reservation. -/
def hold (budget : SpoolBudget) (reservation : Reservation) : SpoolBudget where
  totalBytes := budget.totalBytes + reservation.size
  reads := if reservation.read then budget.reads + 1 else budget.reads
  readBytes :=
    if reservation.read then budget.readBytes + reservation.size else budget.readBytes

/-- The counters after a reservation has ended. -/
def release (budget : SpoolBudget) (reservation : Reservation) : SpoolBudget where
  totalBytes := budget.totalBytes - reservation.size
  reads := if reservation.read then budget.reads - 1 else budget.reads
  readBytes :=
    if reservation.read then budget.readBytes - reservation.size else budget.readBytes

/-- `reserve`, up to its `yield`. The free disk is missing if it cannot be read. -/
def reserve (limits : SpoolLimits) (budget : SpoolBudget) (reservation : Reservation)
    (disk : Option ℤ) : Except Failure SpoolBudget :=
  if reservation.size < 0 then
    .error (.valueError "artifact reservation size must be a nonnegative integer")
  else if limits.totalLimit < budget.totalBytes + reservation.size ||
      (reservation.read && (limits.concurrency ≤ budget.reads ||
        limits.readLimit < budget.readBytes + reservation.size)) then
    .error (.capacityBusy "artifact spool capacity busy")
  else match disk with
    | none => .error .raised
    | some available =>
      if available - budget.totalBytes - reservation.size < limits.minFreeBytes then
        .error (.capacityBusy "artifact spool disk headroom exhausted")
      else .ok (budget.hold reservation)

end SpoolBudget

/-! ### Transfers -/

/-- What a transfer is for. -/
inductive Purpose
  | upload (limit : ℕ) (declared : Option ℕ)
  | read (size : ℤ)

/-- What a thread does for a transfer. -/
inductive Job
  /-- `staged.write` -/
  | write
  /-- `write` of `put_file` -/
  | put
  /-- `_verify` -/
  | verify
  /-- `destination.seek` -/
  | seek
  deriving DecidableEq

/-- How a thread ends. -/
inductive Exit
  | returned | tooLarge | integrity | raised
  deriving DecidableEq

/-- A thread, with what it has read of an artifact and what it has yet to write of a chunk. -/
structure Thread where
  job : Job
  size : ℕ := 0
  left : ℕ := 0
  exit : Option Exit := none

/-- What a transfer waits for, or how it has ended. -/
inductive Phase
  /-- The next chunk of `request.stream()`. -/
  | receiving
  /-- `file_io`. A cancellation waits for the thread. -/
  | fileIo (job : Job) (cancelled : Bool)
  /-- The consumer of a verified file. -/
  | consuming
  | finished (failure : Option Failure)
  deriving DecidableEq

/-- An upload or a read, with the size that an upload has received, and what is in its file. -/
structure Transfer where
  purpose : Purpose
  phase : Phase
  size : ℕ := 0
  written : ℕ := 0
  thread : Option Thread := none

/-- What a transfer, or its thread, meets. -/
inductive Signal
  | chunk (n : ℕ)
  | exhausted
  | failed
  | cancelled
  /-- The thread of `file_io` has ended. -/
  | resumed
  /-- The task of `file_io` is itself cancelled, and its thread runs on. -/
  | abandoned
  /-- The consumer leaves. -/
  | closed
  /-- The thread has read some bytes of an artifact, or is at its end. -/
  | fetched (n : ℕ) (sound : Bool)
  /-- The thread has written some bytes of a chunk. -/
  | stored (n : ℕ)
  | exited (exit : Exit)

def Purpose.reservation : Purpose → Reservation
  | .upload limit declared => ⟨declared.getD limit, false⟩
  | .read size => ⟨size, true⟩

/-- The upload limit as it stands in messages. -/
def limitMessage (limit : ℕ) : String :=
  "artifact exceeds " ++ toString limit ++ " byte upload limit"

namespace Transfer

/-- The transfer is within its reservation. -/
def active (transfer : Transfer) : Bool :=
  match transfer.phase with
  | .finished _ => false
  | _ => true

def leave (transfer : Transfer) (failure : Option Failure) : Transfer :=
  { transfer with phase := .finished failure }

/-- `file_io`, up to its first await. -/
def fileIo (transfer : Transfer) (job : Job) (left : ℕ) : Transfer :=
  { transfer with phase := .fileIo job false, thread := some { job, left } }

/-- A chunk of `request.stream()`. -/
def chunk (transfer : Transfer) (n limit : ℕ) (declared : Option ℕ) : Transfer :=
  if limit < transfer.size + n then transfer.leave (some (.http 413 (limitMessage limit)))
  else if declared.any (· < transfer.size + n) then
    transfer.leave (some (.http 400 "artifact content length mismatch"))
  else if n ≠ 0 then { transfer with size := transfer.size + n }.fileIo .write n
  else { transfer with size := transfer.size + n }

/-- The end of `request.stream()`. -/
def exhausted (transfer : Transfer) (declared : Option ℕ) : Transfer :=
  if declared.any (· ≠ transfer.size) then
    transfer.leave (some (.http 400 "artifact content length mismatch"))
  else transfer.fileIo .put 0

/-- What follows after a thread. -/
def resume (transfer : Transfer) (job : Job) : Exit → Transfer
  | .returned =>
    match job with
    | .write => { transfer with phase := .receiving }
    | .put => transfer.leave none
    | .verify => transfer.fileIo .seek 0
    | .seek => { transfer with phase := .consuming }
  | .tooLarge => transfer.leave (some (.http 413 "artifact exceeds configured limit"))
  | .integrity => transfer.leave (some .integrity)
  | .raised => transfer.leave (some .raised)

end Transfer

namespace Thread

/-- A read of an artifact of the given size, in `_verify`. -/
def fetched (thread : Thread) (artifactSize : ℤ) (n : ℕ) (sound : Bool) : Thread :=
  if n = 0 then
    { thread with
      exit := some (if (thread.size : ℤ) = artifactSize && sound then .returned else .integrity) }
  else if artifactSize < thread.size + n then { thread with exit := some .integrity }
  else { thread with size := thread.size + n, left := n }

/-- The ways in which a thread can end, besides those of `fetched`. -/
def mayExit (thread : Thread) : Exit → Bool
  | .returned => thread.job ≠ .verify && thread.left = 0
  | .tooLarge => thread.job = .put
  | .integrity => thread.job = .put
  | .raised => true

end Thread

namespace Transfer

/-- What a thread does that has not ended. -/
def stepThread (transfer : Transfer) (thread : Thread) : Signal → Option Transfer
  | .fetched n sound =>
    match transfer.purpose, thread.job, thread.left with
    | .read size, .verify, 0 => some { transfer with thread := some (thread.fetched size n sound) }
    | _, _, _ => none
  | .stored n =>
    if n ≤ thread.left then
      some { transfer with
        written := transfer.written + n, thread := some { thread with left := thread.left - n } }
    else none
  | .exited exit =>
    if thread.mayExit exit then
      some { transfer with thread := some { thread with exit := some exit } }
    else none
  | _ => none

/-- What the coroutine does. -/
def stepPhase (transfer : Transfer) : Signal → Option Transfer
  | .chunk n =>
    match transfer.phase, transfer.purpose with
    | .receiving, .upload limit declared => some (transfer.chunk n limit declared)
    | _, _ => none
  | .exhausted =>
    match transfer.phase, transfer.purpose with
    | .receiving, .upload _ declared => some (transfer.exhausted declared)
    | _, _ => none
  | .failed =>
    if transfer.phase ∈ [.receiving, .consuming] then some (transfer.leave (some .raised)) else none
  | .cancelled =>
    match transfer.phase with
    | .fileIo job _ => some { transfer with phase := .fileIo job true }
    | .finished _ => none
    | _ => some (transfer.leave (some .cancelled))
  | .resumed =>
    match transfer.phase, transfer.thread.bind Thread.exit with
    | .fileIo _ true, some _ => some ({ transfer with thread := none }.leave (some .cancelled))
    | .fileIo job false, some exit => some ({ transfer with thread := none }.resume job exit)
    | _, _ => none
  | .abandoned =>
    match transfer.phase with
    | .fileIo _ _ => some (transfer.leave (some .cancelled))
    | _ => none
  | .closed => if transfer.phase = .consuming then some (transfer.leave none) else none
  | _ => none

/-- A step of a transfer, or of its thread. -/
def step (transfer : Transfer) (signal : Signal) : Option Transfer :=
  match signal with
  | .fetched _ _ | .stored _ | .exited _ =>
    match transfer.thread.filter (·.exit.isNone) with
    | some thread => transfer.stepThread thread signal
    | none => none
  | _ => transfer.stepPhase signal

end Transfer

/-! ### All transfers -/

/-- `JSON_LIMIT_BYTES` -/
def jsonLimit : ℕ := 16 * 1024 * 1024

/-- The media type of a content type is JSON. -/
def isJson (contentType : String) : Bool :=
  let mediaType := (Proxy.strip id (contentType.toList.takeWhile (· ≠ ';'))).map Char.toLower
  mediaType = "application/json".toList || "+json".toList.isSuffixOf mediaType

/-- The number in a content length, unless it is invalid. -/
def contentLength? (text : String) : Option ℕ :=
  if text ≠ "" && text.toList.all Char.isDigit && text.toList.length ≤ 20 then
    some (text.toList.foldl (fun n c => 10 * n + (c.toNat - '0'.toNat)) 0)
  else none

/-- The settings of `MinioArtifacts` and `ArtifactUploads`. They share a budget. -/
structure Settings where
  spool : SpoolLimits
  /-- `max_bytes` of the artifacts. -/
  artifactBytes : ℤ
  /-- `max_bytes` of the uploads. -/
  uploadBytes : ℕ
  uploads : ℕ
  positive : 0 < uploadBytes ∧ 0 < uploads

/-- The budget, the semaphore of the uploads, and all transfers that have begun. -/
structure World where
  budget : SpoolBudget := {}
  capacity : ℕ
  transfers : List Transfer := []

/-- A step of the event loop, or of a thread. -/
inductive Event
  | receive (contentType contentLength : Option String) (disk : Option ℤ) (file : Bool)
  | openVerified (size : ℤ) (disk : Option ℤ) (file : Bool)
  | signal (i : ℕ) (signal : Signal)

/-- The part of the semaphore that a transfer takes. -/
def Purpose.slots : Purpose → ℕ
  | .upload _ _ => 1
  | .read _ => 0

namespace World

variable (settings : Settings)

def add (world : World) (transfer : Transfer) : World :=
  { world with transfers := world.transfers ++ [transfer] }

/-- A transfer that fails before it has entered its contexts. -/
def refuse (world : World) (purpose : Purpose) (failure : Failure) : World :=
  world.add { purpose, phase := .finished (some failure) }

/-- Enter the contexts of a transfer. If its file cannot be opened, it leaves them at once. -/
def enter (world : World) (transfer : Transfer) (disk : Option ℤ) (file : Bool) : World :=
  match world.budget.reserve settings.spool transfer.purpose.reservation disk with
  | .error failure => world.refuse transfer.purpose failure
  | .ok budget =>
    if file then
      { world with budget, capacity := world.capacity - transfer.purpose.slots }.add transfer
    else
      { world with budget := budget.release transfer.purpose.reservation }.refuse
        transfer.purpose .raised

/-- Leave the contexts of a transfer. -/
def exit (world : World) (purpose : Purpose) : World :=
  { world with
    budget := world.budget.release purpose.reservation
    capacity := world.capacity + purpose.slots }

/-- `receive`, after the checks of its headers. -/
def upload (world : World) (limit : ℕ) (declared : Option ℕ) (disk : Option ℤ) (file : Bool) :
    World :=
  if world.capacity = 0 then
    world.refuse (.upload limit declared) (.http 503 "artifact upload capacity busy")
  else
    world.enter settings { purpose := .upload limit declared, phase := .receiving } disk file

/-- The limit of an upload, by the type of its content. -/
def uploadLimit (contentType : Option String) : ℕ :=
  if isJson (contentType.getD "application/json") then min settings.uploadBytes jsonLimit
  else settings.uploadBytes

/-- `receive`, up to its first await. -/
def receive (world : World) (contentType contentLength : Option String) (disk : Option ℤ)
    (file : Bool) : World :=
  let limit := uploadLimit settings contentType
  match contentLength with
  | none => world.upload settings limit none disk file
  | some text =>
    match contentLength? text with
    | none => world.refuse (.upload limit none) (.http 400 "invalid artifact content length")
    | some declared =>
      if limit < declared then
        world.refuse (.upload limit none) (.http 413 (limitMessage limit))
      else world.upload settings limit (some declared) disk file

/-- `open_verified`, up to its first await. -/
def openVerified (world : World) (size : ℤ) (disk : Option ℤ) (file : Bool) : World :=
  if settings.artifactBytes < size then
    world.refuse (.read size) (.tooLarge "artifact exceeds configured limit")
  else
    world.enter settings
      { purpose := .read size
        phase := .fileIo .verify false
        thread := some ⟨.verify, 0, 0, none⟩ } disk file

/-- A step of one transfer. If it leaves, its contexts are left in the same segment. -/
def advance (world : World) (i : ℕ) (signal : Signal) : Option World := do
  let transfer ← world.transfers[i]?
  let next ← transfer.step signal
  let world := { world with transfers := world.transfers.set i next }
  return if transfer.active && !next.active then world.exit transfer.purpose else world

def step (world : World) : Event → Option World
  | .receive contentType contentLength disk file =>
    some (world.receive settings contentType contentLength disk file)
  | .openVerified size disk file => some (world.openVerified settings size disk file)
  | .signal i signal => world.advance i signal

/-- A run from the start, when nothing has begun. -/
def run (events : List Event) : Option World :=
  events.foldlM (step settings) { capacity := settings.uploads }

/-- The purposes of the transfers that are active. -/
def active (world : World) : List Purpose :=
  (world.transfers.filter Transfer.active).map Transfer.purpose

/-- What is reserved. -/
def reservations (world : World) : List Reservation := world.active.map Purpose.reservation

end World

/-- The counters for some reservations. -/
def spent (reservations : List Reservation) : SpoolBudget where
  totalBytes := (reservations.map Reservation.size).sum
  reads := (reservations.filter Reservation.read).length
  readBytes := ((reservations.filter Reservation.read).map Reservation.size).sum

/-! ### What is written -/

namespace Transfer

/-- What a thread has yet to write. -/
def pending (transfer : Transfer) : ℕ := (transfer.thread.map Thread.left).getD 0

/-- What has been counted: the size that an upload has received, or that `_verify` has read. -/
def counted (transfer : Transfer) : ℕ :=
  match transfer.purpose, transfer.thread with
  | .upload _ _, _ => transfer.size
  | .read _, some ⟨.verify, size, _, _⟩ => size
  | .read size, _ => size.toNat

/-- What is written, or is handed to a thread, has been counted, and is within the reservation. -/
structure Fits (transfer : Transfer) : Prop where
  counted : transfer.written + transfer.pending ≤ transfer.counted
  reserved : transfer.counted ≤ transfer.purpose.reservation.size.toNat

/-- A transfer becomes another one in a step. -/
structure Follows (transfer next : Transfer) : Prop where
  purpose : next.purpose = transfer.purpose
  active : next.active → transfer.active
  fits : transfer.Fits → next.Fits

variable {transfer : Transfer}

theorem Fits.written (fits : transfer.Fits) :
    transfer.written ≤ transfer.purpose.reservation.size.toNat :=
  (Nat.le_add_right _ _).trans (fits.counted.trans fits.reserved)

/-- What is counted if no thread reads the artifact. -/
theorem counted_of_quiet (quiet : ∀ thread ∈ transfer.thread, thread.job ≠ .verify) :
    transfer.counted = match transfer.purpose with
      | .upload _ _ => transfer.size
      | .read size => size.toNat := by
  unfold counted
  split
  · rename_i purpose
    rw [purpose]
  · rename_i there
    exact absurd rfl (quiet _ there)
  · rename_i purpose _
    rw [purpose]

/-- Nothing has been written before the first await. -/
theorem fits_start (purpose : Purpose) (phase : Phase) : Transfer.Fits { purpose, phase } := by
  cases purpose with
  | upload limit declared => exact ⟨le_rfl, Nat.zero_le _⟩
  | read size => exact ⟨Nat.zero_le _, le_rfl⟩

/-- A thread that has nothing to write may take the place of another one. -/
theorem Fits.quiet (fits : transfer.Fits) {phase : Phase} {thread : Option Thread}
    (quiet : ∀ next ∈ thread, next.left = 0 ∧ next.job ≠ .verify) :
    Fits { transfer with phase, thread } := by
  have nothing : (thread.map Thread.left).getD 0 = 0 := by
    cases thread with
    | none => rfl
    | some next => exact (quiet next rfl).1
  have written := fits.written
  have now := @counted_of_quiet { transfer with phase, thread } fun next there =>
    (quiet next there).2
  obtain ⟨purpose, _, size, written', old⟩ := transfer
  cases purpose with
  | upload limit declared =>
    refine ⟨?_, fits.reserved⟩
    change written' + (thread.map Thread.left).getD 0 ≤ _
    rw [nothing]
    exact (Nat.le_add_right _ _).trans fits.counted
  | read artifactSize =>
    refine ⟨?_, now.le⟩
    change written' + (thread.map Thread.left).getD 0 ≤ _
    rw [nothing, now]
    exact written

theorem follows_leave (active : transfer.active) (failure : Option Failure) :
    transfer.Follows (transfer.leave failure) :=
  ⟨rfl, fun _ => active, fun fits => ⟨fits.counted, fits.reserved⟩⟩

/-- Start a thread that does not write a chunk. -/
theorem follows_fileIo (active : transfer.active) {job : Job} (other : job ≠ .verify) :
    transfer.Follows (transfer.fileIo job 0) := by
  refine ⟨rfl, fun _ => active, fun fits => fits.quiet ?_⟩
  rintro next ⟨⟩
  exact ⟨rfl, other⟩

theorem follows_resume {job job' : Job} {cancelled : Bool} (exit : Exit)
    (waits : transfer.phase = .fileIo job' cancelled) :
    transfer.Follows ({ transfer with thread := none }.resume job exit) := by
  have active : transfer.active := by rw [Transfer.active, waits]
  have without {phase : Phase} : transfer.Follows { transfer with phase, thread := none } :=
    ⟨rfl, fun _ => active, fun fits => fits.quiet (by rintro next ⟨⟩)⟩
  cases exit with
  | returned =>
    cases job with
    | verify =>
      refine ⟨rfl, fun _ => active, fun fits => fits.quiet ?_⟩
      rintro next ⟨⟩
      exact ⟨rfl, by decide⟩
    | _ => exact without
  | _ => exact without

theorem follows_chunk {n limit : ℕ} {declared : Option ℕ} (waits : transfer.phase = .receiving)
    (upload : transfer.purpose = .upload limit declared) :
    transfer.Follows (transfer.chunk n limit declared) := by
  have active : transfer.active := by rw [Transfer.active, waits]
  unfold chunk
  split
  · exact follows_leave active _
  rename_i under
  split
  · exact follows_leave active _
  rename_i within
  -- The chunk is counted before it is handed to a thread.
  have reserved : transfer.size + n ≤ (Purpose.upload limit declared).reservation.size.toNat := by
    change _ ≤ ((declared.getD limit : ℕ) : ℤ).toNat
    cases declared with
    | none => simpa using under
    | some length => simpa using within
  obtain ⟨purpose, phase, size, written, thread⟩ := transfer
  cases upload
  split
  · refine ⟨rfl, fun _ => active, fun fits => ⟨?_, reserved⟩⟩
    exact Nat.add_le_add_right ((Nat.le_add_right _ _).trans fits.counted) n
  · refine ⟨rfl, fun _ => active, fun fits => ⟨?_, reserved⟩⟩
    exact fits.counted.trans (Nat.le_add_right _ _)

theorem follows_exhausted {declared : Option ℕ} (waits : transfer.phase = .receiving) :
    transfer.Follows (transfer.exhausted declared) := by
  have active : transfer.active := by rw [Transfer.active, waits]
  unfold exhausted
  split
  · exact follows_leave active _
  · exact follows_fileIo active (by decide)

/-- A thread that neither reads nor writes. -/
theorem Fits.exit {thread : Thread} (runs : transfer.thread = some thread) (fits : transfer.Fits)
    (exit : Option Exit) : Fits { transfer with thread := some { thread with exit } } := by
  obtain ⟨purpose, phase, size, written, _⟩ := transfer
  obtain ⟨job, read, left, _⟩ := thread
  cases runs
  cases purpose <;> cases job <;> exact ⟨fits.counted, fits.reserved⟩

theorem follows_fetched {thread : Thread} {artifactSize : ℤ} {n : ℕ} {sound : Bool}
    (runs : transfer.thread = some thread) (read : transfer.purpose = .read artifactSize)
    (verify : thread.job = .verify) (idle : thread.left = 0) :
    transfer.Follows
      { transfer with thread := some (thread.fetched artifactSize n sound) } := by
  refine ⟨rfl, id, fun fits => ?_⟩
  unfold Thread.fetched
  split
  · exact fits.exit runs _
  split
  · exact fits.exit runs _
  rename_i within
  obtain ⟨purpose, phase, size, written, _⟩ := transfer
  obtain ⟨job, already, left, _⟩ := thread
  cases runs
  cases read
  cases verify
  cases idle
  have counted : written ≤ already := fits.counted
  constructor
  · exact Nat.add_le_add_right counted n
  · change already + n ≤ artifactSize.toNat
    simp only at within
    omega

theorem follows_stored {thread : Thread} {n : ℕ} (runs : transfer.thread = some thread)
    (there : n ≤ thread.left) :
    transfer.Follows
      { transfer with
        written := transfer.written + n
        thread := some { thread with left := thread.left - n } } := by
  refine ⟨rfl, id, fun fits => ?_⟩
  obtain ⟨purpose, phase, size, written, _⟩ := transfer
  obtain ⟨job, read, left, _⟩ := thread
  cases runs
  have same : written + n + (left - n) = written + left := by
    simp only at there
    omega
  have counted := fits.counted
  cases purpose <;> cases job <;> exact ⟨same.trans_le counted, fits.reserved⟩

theorem follows_stepThread {thread : Thread} {signal : Signal} {next : Transfer}
    (runs : transfer.thread = some thread) (step : transfer.stepThread thread signal = some next) :
    transfer.Follows next := by
  cases signal with
  | fetched n sound =>
    simp only [stepThread] at step
    split at step
    · rename_i read verify idle
      cases step
      exact follows_fetched runs read verify idle
    · cases step
  | stored n =>
    simp only [stepThread] at step
    split at step
    · rename_i there
      cases step
      exact follows_stored runs there
    · cases step
  | exited exit =>
    simp only [stepThread] at step
    split at step
    · cases step
      exact ⟨rfl, id, fun fits => fits.exit runs _⟩
    · cases step
  | _ => cases step

theorem follows_stepPhase {signal : Signal} {next : Transfer}
    (step : transfer.stepPhase signal = some next) : transfer.Follows next := by
  cases signal with
  | chunk n =>
    simp only [stepPhase] at step
    split at step
    · rename_i waits upload
      cases step
      exact follows_chunk waits upload
    · cases step
  | exhausted =>
    simp only [stepPhase] at step
    split at step
    · rename_i waits upload
      cases step
      exact follows_exhausted waits
    · cases step
  | failed =>
    simp only [stepPhase] at step
    split at step
    · rename_i waits
      cases step
      refine follows_leave ?_ _
      rcases List.mem_pair.mp waits with is | is <;> rw [Transfer.active, is]
    · cases step
  | cancelled =>
    simp only [stepPhase] at step
    split at step
    · rename_i waits
      cases step
      exact ⟨rfl, fun _ => by rw [Transfer.active, waits],
        fun fits => ⟨fits.counted, fits.reserved⟩⟩
    · cases step
    · rename_i running
      cases step
      refine follows_leave ?_ _
      cases phase : transfer.phase with
      | finished failure => exact absurd phase (running failure)
      | _ => rw [Transfer.active, phase]
  | resumed =>
    simp only [stepPhase] at step
    split at step
    · rename_i waits _
      cases step
      exact ⟨rfl, fun _ => by rw [Transfer.active, waits],
        fun fits => fits.quiet (by rintro next ⟨⟩)⟩
    · rename_i waits _
      cases step
      exact follows_resume _ waits
    · cases step
  | abandoned =>
    simp only [stepPhase] at step
    split at step
    · rename_i waits
      cases step
      exact follows_leave (by rw [Transfer.active, waits]) _
    · cases step
  | closed =>
    simp only [stepPhase] at step
    split at step
    · rename_i waits
      cases step
      exact follows_leave (by rw [Transfer.active, waits]) _
    · cases step
  | _ => cases step

/-- A step keeps the purpose, does not come back, and writes only what was counted. -/
theorem follows_step {signal : Signal} {next : Transfer} (step : transfer.step signal = some next) :
    transfer.Follows next := by
  have thread (run : (match transfer.thread.filter (·.exit.isNone) with
      | some thread => transfer.stepThread thread signal
      | none => none) = some next) : transfer.Follows next := by
    split at run
    · rename_i found
      exact follows_stepThread (Option.filter_eq_some_iff.mp found).1 run
    · cases run
  have phase (run : transfer.stepPhase signal = some next) : transfer.Follows next :=
    follows_stepPhase run
  cases signal with
  | fetched n sound => exact thread step
  | stored n => exact thread step
  | exited exit => exact thread step
  | _ => exact phase step

end Transfer

/-! ### The counters -/

theorem SpoolBudget.release_hold (budget : SpoolBudget) (reservation : Reservation) :
    (budget.hold reservation).release reservation = budget := by
  ext
  · simp [hold, release]
  · cases read : reservation.read <;> simp [hold, release, read]
  · cases read : reservation.read <;> simp [hold, release, read]

theorem SpoolBudget.release_le (budget : SpoolBudget) {reservation : Reservation}
    (nonneg : 0 ≤ reservation.size) :
    (budget.release reservation).totalBytes ≤ budget.totalBytes ∧
      (budget.release reservation).reads ≤ budget.reads ∧
      (budget.release reservation).readBytes ≤ budget.readBytes := by
  cases read : reservation.read <;> simp [release, read, nonneg]

theorem spent_mid (front back : List Reservation) (reservation : Reservation) :
    spent (front ++ reservation :: back) = (spent (front ++ back)).hold reservation := by
  ext
  · simp [spent, SpoolBudget.hold]
    omega
  · cases read : reservation.read <;> simp [spent, SpoolBudget.hold, read]
    omega
  · cases read : reservation.read <;> simp [spent, SpoolBudget.hold, read]
    omega

/-- What the free disk must leave when a reservation is admitted. -/
theorem SpoolBudget.reserve_eq_ok {limits : SpoolLimits} {budget next : SpoolBudget}
    {reservation : Reservation} {disk : Option ℤ}
    (admitted : budget.reserve limits reservation disk = .ok next) :
    next = budget.hold reservation ∧ 0 ≤ reservation.size ∧
      next.totalBytes ≤ limits.totalLimit ∧
      (reservation.read → next.reads ≤ limits.concurrency ∧ next.readBytes ≤ limits.readLimit) ∧
      ∃ available ∈ disk,
        limits.minFreeBytes ≤ available - budget.totalBytes - reservation.size := by
  unfold reserve at admitted
  split at admitted
  · cases admitted
  rename_i nonneg
  split at admitted
  · cases admitted
  rename_i within
  split at admitted
  · cases admitted
  rename_i available
  split at admitted
  · cases admitted
  rename_i enough
  cases admitted
  simp only [Bool.or_eq_true, decide_eq_true_eq, Bool.and_eq_true, not_or, not_and, not_lt, not_le]
    at within
  refine ⟨rfl, not_lt.mp nonneg, within.1, ?_, available, rfl, not_lt.mp enough⟩
  intro read
  simp only [hold, read, if_true]
  exact within.2 read

namespace World

variable {settings : Settings}

/-- The slots of the semaphore that are taken. -/
def slots (world : World) : ℕ := (world.active.map Purpose.slots).sum

/-- The counters are the sums over what is reserved, and within the limits. -/
structure Exact (settings : Settings) (world : World) : Prop where
  budget : world.budget = spent world.reservations
  nonneg : ∀ reservation ∈ world.reservations, 0 ≤ reservation.size
  total : world.budget.totalBytes ≤ settings.spool.totalLimit
  reads : world.budget.reads ≤ settings.spool.concurrency
  readBytes : world.budget.readBytes ≤ settings.spool.readLimit
  capacity : world.capacity + world.slots = settings.uploads
  fits : ∀ transfer ∈ world.transfers, transfer.Fits

/-- The accounting depends on who is active only. -/
theorem Exact.congr {world next : World} (exact : world.Exact settings)
    (budget : next.budget = world.budget) (capacity : next.capacity = world.capacity)
    (active : next.active = world.active) (fits : ∀ transfer ∈ next.transfers, transfer.Fits) :
    next.Exact settings := by
  have reservations : next.reservations = world.reservations := by
    rw [World.reservations, active, World.reservations]
  have slots : next.slots = world.slots := by
    rw [World.slots, active, World.slots]
  exact {
    budget := by rw [budget, reservations]; exact exact.budget
    nonneg := by rw [reservations]; exact exact.nonneg
    total := by rw [budget]; exact exact.total
    reads := by rw [budget]; exact exact.reads
    readBytes := by rw [budget]; exact exact.readBytes
    capacity := by rw [capacity, slots]; exact exact.capacity
    fits }

/-- A transfer that is not admitted changes no counter. -/
theorem Exact.refuse {world : World} (exact : world.Exact settings) (purpose : Purpose)
    (failure : Failure) : (world.refuse purpose failure).Exact settings := by
  refine exact.congr rfl rfl ?_ ?_
  · simp [World.active, World.refuse, World.add, Transfer.active]
  · intro other member
    rcases List.mem_append.mp member with before | new
    · exact exact.fits other before
    · rw [List.mem_singleton.mp new]
      exact Transfer.fits_start purpose _

theorem Exact.enter {world : World} (exact : world.Exact settings) {transfer : Transfer}
    (active : transfer.active) (fits : transfer.Fits) {disk : Option ℤ} {file : Bool}
    (free : transfer.purpose.slots ≤ world.capacity) :
    (world.enter settings transfer disk file).Exact settings := by
  unfold World.enter
  split
  · exact exact.refuse _ _
  rename_i next admitted
  obtain ⟨rfl, nonneg, total, read, -⟩ := SpoolBudget.reserve_eq_ok admitted
  split
  · have held : (world.add transfer).active = world.active ++ [transfer.purpose] := by
      simp [World.active, World.add, active]
    have reservations : (world.add transfer).reservations =
        world.reservations ++ [transfer.purpose.reservation] := by
      rw [World.reservations, held, List.map_append]
      rfl
    have slots : (world.add transfer).slots = world.slots + transfer.purpose.slots := by
      rw [World.slots, held, List.map_append, List.sum_append]
      simp [World.slots]
    have capacity := exact.capacity
    constructor
    · change world.budget.hold _ = spent (world.add transfer).reservations
      rw [reservations, spent_mid, List.append_nil, ← exact.budget]
    · change ∀ reservation ∈ (world.add transfer).reservations, _
      rw [reservations]
      intro reservation member
      rcases List.mem_append.mp member with before | new
      · exact exact.nonneg reservation before
      · rw [List.mem_singleton.mp new]
        exact nonneg
    · exact total
    · cases isRead : transfer.purpose.reservation.read with
      | true => exact (read isRead).1
      | false =>
        change (if _ then _ else _) ≤ _
        rw [isRead]
        exact exact.reads
    · cases isRead : transfer.purpose.reservation.read with
      | true => exact (read isRead).2
      | false =>
        change (if _ then _ else _) ≤ _
        rw [isRead]
        exact exact.readBytes
    · change world.capacity - transfer.purpose.slots + (world.add transfer).slots = _
      rw [slots]
      omega
    · intro other member
      rcases List.mem_append.mp member with before | new
      · exact exact.fits other before
      · rw [List.mem_singleton.mp new]
        exact fits
  · rw [SpoolBudget.release_hold]
    exact exact.refuse _ _

/-- An active transfer gives back what it has reserved. -/
theorem Exact.leave {world next : World} (exact : world.Exact settings) {purpose : Purpose}
    {front back : List Purpose} (budget : next.budget = world.budget.release purpose.reservation)
    (capacity : next.capacity = world.capacity + purpose.slots)
    (before : world.active = front ++ purpose :: back) (after : next.active = front ++ back)
    (fits : ∀ transfer ∈ next.transfers, transfer.Fits) : next.Exact settings := by
  have reserved : world.reservations = front.map Purpose.reservation ++
      purpose.reservation :: back.map Purpose.reservation := by
    rw [World.reservations, before, List.map_append, List.map_cons]
  have rest : next.reservations =
      front.map Purpose.reservation ++ back.map Purpose.reservation := by
    rw [World.reservations, after, List.map_append]
  have counters : next.budget = spent next.reservations := by
    rw [budget, exact.budget, reserved, spent_mid, SpoolBudget.release_hold, rest]
  have nonneg := exact.nonneg
  rw [reserved] at nonneg
  simp only [List.forall_mem_append, List.forall_mem_cons] at nonneg
  obtain ⟨total, reads, readBytes⟩ := SpoolBudget.release_le world.budget nonneg.2.1
  rw [← budget] at total reads readBytes
  have slots : world.slots = next.slots + purpose.slots := by
    simp only [World.slots, before, after, List.map_append, List.map_cons, List.sum_append,
      List.sum_cons]
    omega
  exact {
    budget := counters
    nonneg := by
      rw [rest, List.forall_mem_append]
      exact ⟨nonneg.1, nonneg.2.2⟩
    total := total.trans exact.total
    reads := reads.trans exact.reads
    readBytes := readBytes.trans exact.readBytes
    capacity := by
      have capacities := exact.capacity
      omega
    fits }

theorem exists_mid {α : Type} {items : List α} {i : ℕ} {item : α} (there : items[i]? = some item)
    (next : α) : ∃ front back, items = front ++ item :: back ∧
      items.set i next = front ++ next :: back := by
  obtain ⟨bound, rfl⟩ := List.getElem?_eq_some_iff.mp there
  obtain ⟨front, back, whole, -, replaced⟩ := List.exists_of_set bound
  exact ⟨front, back, whole, replaced⟩

theorem Exact.upload {world : World} (exact : world.Exact settings) (limit : ℕ)
    (declared : Option ℕ) (disk : Option ℤ) (file : Bool) :
    (world.upload settings limit declared disk file).Exact settings := by
  unfold World.upload
  split
  · exact exact.refuse _ _
  · rename_i free
    exact exact.enter rfl (Transfer.fits_start _ _) (Nat.pos_of_ne_zero free)

theorem Exact.receive {world : World} (exact : world.Exact settings)
    (contentType contentLength : Option String) (disk : Option ℤ) (file : Bool) :
    (world.receive settings contentType contentLength disk file).Exact settings := by
  unfold World.receive
  dsimp only
  split
  · exact exact.upload _ _ _ _
  split
  · exact exact.refuse _ _
  split
  · exact exact.refuse _ _
  · exact exact.upload _ _ _ _

theorem Exact.openVerified {world : World} (exact : world.Exact settings) (size : ℤ)
    (disk : Option ℤ) (file : Bool) :
    (world.openVerified settings size disk file).Exact settings := by
  unfold World.openVerified
  split
  · exact exact.refuse _ _
  · exact exact.enter rfl ⟨le_rfl, Nat.zero_le _⟩ (Nat.zero_le _)

/-- A step of one transfer: either the same ones are active, or it leaves. -/
theorem advance_cases {world next : World} {i : ℕ} {signal : Signal}
    (step : world.advance i signal = some next) :
    (next.budget = world.budget ∧ next.capacity = world.capacity ∧ next.active = world.active ∨
      ∃ purpose front back, next.budget = world.budget.release purpose.reservation ∧
        next.capacity = world.capacity + purpose.slots ∧
        world.active = front ++ purpose :: back ∧ next.active = front ++ back) ∧
      ((∀ transfer ∈ world.transfers, transfer.Fits) →
        ∀ transfer ∈ next.transfers, transfer.Fits) := by
  simp only [World.advance, Option.bind_eq_bind, Option.bind_eq_some_iff, Option.pure_def] at step
  obtain ⟨transfer, there, moved, stepped, returned⟩ := step
  obtain ⟨purpose, active, fits⟩ := Transfer.follows_step stepped
  obtain ⟨front, back, whole, replaced⟩ := exists_mid there moved
  have kept (before : ∀ other ∈ world.transfers, other.Fits) :
      ∀ other ∈ world.transfers.set i moved, other.Fits := by
    rw [replaced]
    rw [whole] at before
    simp only [List.forall_mem_append, List.forall_mem_cons] at before ⊢
    exact ⟨before.1, fits before.2.1, before.2.2⟩
  split at returned
  · rename_i left
    obtain ⟨was, gone⟩ : transfer.active = true ∧ moved.active = false := by simpa using left
    cases returned
    have before : world.active = (front.filter Transfer.active).map Transfer.purpose ++
        transfer.purpose :: (back.filter Transfer.active).map Transfer.purpose := by
      simp [World.active, whole, was]
    have after : ((world.transfers.set i moved).filter Transfer.active).map Transfer.purpose =
        (front.filter Transfer.active).map Transfer.purpose ++
          (back.filter Transfer.active).map Transfer.purpose := by
      simp [replaced, gone]
    exact ⟨.inr ⟨_, _, _, rfl, rfl, before, after⟩, kept⟩
  · rename_i stays
    cases returned
    refine ⟨.inl ⟨rfl, rfl, ?_⟩, kept⟩
    -- It does not become active again, so it is active as before.
    have same : moved.active = transfer.active := by
      cases was : transfer.active with
      | true => simpa [was] using stays
      | false =>
        cases now : moved.active with
        | true => rw [active now] at was; cases was
        | false => rfl
    change ((world.transfers.set i moved).filter Transfer.active).map Transfer.purpose = _
    rw [replaced, World.active, whole]
    simp only [List.filter_append, List.filter_cons, same]
    split <;> simp [purpose]

/-- A step keeps the accounting. -/
theorem Exact.step {world next : World} (exact : world.Exact settings) {event : Event}
    (step : world.step settings event = some next) : next.Exact settings := by
  cases event with
  | receive contentType contentLength disk file =>
    cases step
    exact exact.receive contentType contentLength disk file
  | openVerified size disk file =>
    cases step
    exact exact.openVerified size disk file
  | signal i signal =>
    obtain ⟨change, fits⟩ := advance_cases step
    rcases change with ⟨budget, capacity, active⟩ | ⟨purpose, front, back, budget, capacity,
      before, after⟩
    · exact exact.congr budget capacity active (fits exact.fits)
    · exact exact.leave budget capacity before after (fits exact.fits)

theorem exact_start : World.Exact settings { capacity := settings.uploads } where
  budget := rfl
  nonneg := by simp [World.reservations, World.active]
  total := settings.spool.positive.2.2.le
  reads := settings.spool.positive.1.le
  readBytes := settings.spool.positive.2.1.le
  capacity := by simp [World.slots, World.active]
  fits := by simp

theorem exact_foldlM (events : List Event) {world last : World} (exact : world.Exact settings)
    (run : events.foldlM (World.step settings) world = some last) : last.Exact settings := by
  induction events generalizing world with
  | nil =>
    cases run
    exact exact
  | cons event rest ih =>
    rw [List.foldlM_cons, Option.bind_eq_bind, Option.bind_eq_some_iff] at run
    obtain ⟨next, step, run⟩ := run
    exact ih (exact.step step) run

end World

/-- The free disk that is reported in a step. -/
def Event.disk : Event → Option ℤ
  | .receive _ _ disk _ => disk
  | .openVerified _ disk _ => disk
  | .signal _ _ => none

namespace World

variable {settings : Settings}

/-- A step that adds a reservation leaves the disk that must be free. -/
def Admits (settings : Settings) (world : World) : Prop :=
  ∀ event next, world.step settings event = some next →
    ∀ purpose, next.active = world.active ++ [purpose] → ∃ available ∈ event.disk,
      settings.spool.minFreeBytes ≤
        available - (world.reservations.map Reservation.size).sum - purpose.reservation.size

theorem refuse_active (world : World) (purpose : Purpose) (failure : Failure) :
    (world.refuse purpose failure).active = world.active := by
  simp [World.active, World.refuse, World.add, Transfer.active]

theorem not_grown {active : List Purpose} {purpose : Purpose}
    (same : active = active ++ [purpose]) : False := by
  have length := congrArg List.length same
  simp at length

theorem enter_admits {world : World} (exact : world.Exact settings) {transfer : Transfer}
    {disk : Option ℤ} {file : Bool} {purpose : Purpose}
    (grown : (world.enter settings transfer disk file).active = world.active ++ [purpose]) :
    ∃ available ∈ disk, settings.spool.minFreeBytes ≤
      available - (world.reservations.map Reservation.size).sum - purpose.reservation.size := by
  have total : world.budget.totalBytes = (world.reservations.map Reservation.size).sum := by
    rw [exact.budget]
    rfl
  unfold World.enter at grown
  split at grown
  · rw [refuse_active] at grown
    exact (not_grown grown).elim
  rename_i next admitted
  obtain ⟨-, -, -, -, available, reported, enough⟩ := SpoolBudget.reserve_eq_ok admitted
  split at grown
  · have new : ([transfer].filter Transfer.active).map Transfer.purpose = [purpose] := by
      simpa only [World.active, World.add, List.filter_append, List.map_append,
        List.append_cancel_left_eq] using grown
    cases active : transfer.active with
    | false =>
      rw [List.filter_singleton, active] at new
      cases new
    | true =>
      rw [List.filter_singleton, active] at new
      obtain rfl : transfer.purpose = purpose := List.singleton_inj.mp new
      rw [total] at enough
      exact ⟨available, reported, enough⟩
  · rw [refuse_active] at grown
    exact (not_grown grown).elim

theorem Exact.admits {world : World} (exact : world.Exact settings) : world.Admits settings := by
  intro event next step purpose grown
  have upload {limit : ℕ} {declared : Option ℕ} {disk : Option ℤ} {file : Bool}
      (grown : (world.upload settings limit declared disk file).active =
        world.active ++ [purpose]) : ∃ available ∈ disk, settings.spool.minFreeBytes ≤
      available - (world.reservations.map Reservation.size).sum - purpose.reservation.size := by
    unfold World.upload at grown
    split at grown
    · rw [refuse_active] at grown
      exact (not_grown grown).elim
    · exact enter_admits exact grown
  cases event with
  | receive contentType contentLength disk file =>
    cases step
    unfold World.receive at grown
    dsimp only at grown
    split at grown
    · exact upload grown
    split at grown
    · rw [refuse_active] at grown
      exact (not_grown grown).elim
    split at grown
    · rw [refuse_active] at grown
      exact (not_grown grown).elim
    · exact upload grown
  | openVerified size disk file =>
    cases step
    unfold World.openVerified at grown
    split at grown
    · rw [refuse_active] at grown
      exact (not_grown grown).elim
    · exact enter_admits exact grown
  | signal i signal =>
    rcases (advance_cases step).1 with ⟨-, -, same⟩ | ⟨gone, front, back, -, -, before, after⟩
    · exact (not_grown (same.symm.trans grown)).elim
    · have length := congrArg List.length (after.symm.trans grown)
      rw [before] at length
      simp at length
      omega

/-- What is known at every moment of a run. -/
structure Accounted (settings : Settings) (world : World) : Prop where
  budget : world.budget = spent world.reservations
  total : world.budget.totalBytes ≤ settings.spool.totalLimit
  reads : world.budget.reads ≤ settings.spool.concurrency
  readBytes : world.budget.readBytes ≤ settings.spool.readLimit
  admits : world.Admits settings
  written : ∀ transfer ∈ world.transfers,
    transfer.written ≤ transfer.purpose.reservation.size.toNat
  idle : world.active = [] → world.budget = ⟨0, 0, 0⟩

/-- In every run, the counters are the sums over what is reserved, within their limits. -/
theorem run_accounted {events : List Event} {world : World}
    (run : World.run settings events = some world) : world.Accounted settings := by
  have exact := exact_foldlM events exact_start run
  exact {
    budget := exact.budget
    total := exact.total
    reads := exact.reads
    readBytes := exact.readBytes
    admits := exact.admits
    written := fun transfer member => (exact.fits transfer member).written
    idle := by
      intro nothing
      rw [exact.budget, World.reservations, nothing]
      rfl }

end World

/-! ### A run -/

def sampleSettings : Settings where
  spool := ⟨2, 100, 200, 900, by decide, by decide⟩
  artifactBytes := 100
  uploadBytes := 50
  uploads := 1
  positive := by decide

/-- A read is cancelled while its thread writes, and an upload is stored beside it. -/
def sampleEvents : List Event :=
  [.receive (some "text/plain") (some "4") (some 2000) true, .openVerified 10 (some 1000) true,
    .signal 0 (.chunk 4), .signal 1 (.fetched 6 true), .signal 1 .cancelled,
    .signal 0 (.stored 4), .signal 1 (.stored 6), .signal 0 (.exited .returned),
    .signal 1 (.exited .raised), .signal 0 .resumed, .signal 1 .resumed, .signal 0 .exhausted,
    .signal 0 (.exited .returned), .signal 0 .resumed]

theorem World.run_accounted_sample : ∃ world, World.run sampleSettings sampleEvents = some world ∧
    world.Accounted sampleSettings := by
  have ends : (World.run sampleSettings sampleEvents).isSome := by decide +kernel
  obtain ⟨world, run⟩ := Option.isSome_iff_exists.mp ends
  exact ⟨world, run, World.run_accounted run⟩

end IntramindRuntime.Storage
