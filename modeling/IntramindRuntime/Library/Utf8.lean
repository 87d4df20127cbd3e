import IntramindRuntime.Library.Json
import Mathlib.Tactic.IntervalCases

/-!
# UTF-8

UTF-8 as a machine that reads one byte at a time. Bytes that belong to no character are
replaced, a sequence that breaks off counting as one. The bytes are symbols of any type, so
that they can carry where they come from; every character is given with the symbols that it was
read from.

## Main definitions

* `Utf8.encode` — the bytes of a text
* `Utf8.feed`, `Utf8.decode` — the characters of bytes

## Main results

* `Utf8.feed_encode` — what was encoded is read back
* `Utf8.decode_encode` — also behind and before any other bytes, if it starts in ASCII
-/

namespace IntramindRuntime.Library

namespace Utf8

/-- The bytes of a character. -/
def encodeChar (c : Char) : List UInt8 :=
  let n := c.toNat
  if n < 0x80 then [.ofNat n]
  else if n < 0x800 then [.ofNat (0xC0 + n / 64), .ofNat (0x80 + n % 64)]
  else if n < 0x10000 then
    [.ofNat (0xE0 + n / 4096), .ofNat (0x80 + n / 64 % 64), .ofNat (0x80 + n % 64)]
  else
    [.ofNat (0xF0 + n / 262144), .ofNat (0x80 + n / 4096 % 64), .ofNat (0x80 + n / 64 % 64),
      .ofNat (0x80 + n % 64)]

/-- The bytes of a text. -/
def encode (text : List Char) : List UInt8 := text.flatMap encodeChar

/-- A character that is not complete: the bytes that it needs, what they add to, the bounds of
the next one, and the symbols so far. -/
structure Partial (σ : Type) where
  need : ℕ
  value : ℕ
  low : ℕ := 0x80
  high : ℕ := 0xBF
  seen : List σ

/-- A character with the symbols that it was read from, or symbols that are no character. -/
abbrev Read (σ : Type) := Option Char × List σ

variable {σ : Type} (byte : σ → UInt8)

/-- A byte between characters. -/
def start (s : σ) : Option (Partial σ) × List (Read σ) :=
  let b := (byte s).toNat
  if b < 0x80 then (none, [(some (Char.ofNat b), [s])])
  else if b < 0xC2 then (none, [(none, [s])])
  else if b < 0xE0 then (some { need := 1, value := b - 0xC0, seen := [s] }, [])
  else if b = 0xE0 then (some { need := 2, value := 0, low := 0xA0, seen := [s] }, [])
  else if b = 0xED then (some { need := 2, value := 0xD, high := 0x9F, seen := [s] }, [])
  else if b < 0xF0 then (some { need := 2, value := b - 0xE0, seen := [s] }, [])
  else if b = 0xF0 then (some { need := 3, value := 0, low := 0x90, seen := [s] }, [])
  else if b < 0xF4 then (some { need := 3, value := b - 0xF0, seen := [s] }, [])
  else if b = 0xF4 then (some { need := 3, value := 4, high := 0x8F, seen := [s] }, [])
  else (none, [(none, [s])])

/-- The next byte. -/
def step (state : Option (Partial σ)) (s : σ) : Option (Partial σ) × List (Read σ) :=
  match state with
  | none => start byte s
  | some sofar =>
    let b := (byte s).toNat
    if sofar.low ≤ b ∧ b ≤ sofar.high then
      let value := sofar.value * 64 + (b - 0x80)
      if sofar.need = 1 then (none, [(some (Char.ofNat value), sofar.seen ++ [s])])
      else (some { need := sofar.need - 1, value := value, seen := sofar.seen ++ [s] }, [])
    else
      -- what broke off is one replacement; the byte starts anew
      let anew := start byte s
      (anew.1, (none, sofar.seen) :: anew.2)

/-- Bytes, one after another. -/
def feed (state : Option (Partial σ)) : List σ → Option (Partial σ) × List (Read σ)
  | [] => (state, [])
  | s :: rest =>
    let first := step byte state s
    let more := feed first.1 rest
    (more.1, first.2 ++ more.2)

/-- What is left at the end of the bytes. -/
def finish : Option (Partial σ) → List (Read σ)
  | none => []
  | some sofar => [(none, sofar.seen)]

/-- What is read of bytes. -/
def readAll (bytes : List σ) : List (Read σ) :=
  let fed := feed byte none bytes
  fed.2 ++ finish fed.1

/-- The characters of bytes, with replacement characters. -/
def decode (bytes : List σ) : List (Char × List σ) :=
  (readAll byte bytes).map fun read => (read.1.getD '\ufffd', read.2)

/-- The characters of bytes that are UTF-8. -/
def strict (bytes : List σ) : Option (List Char) :=
  (readAll byte bytes).mapM Prod.fst

theorem feed_append (state : Option (Partial σ)) (first second : List σ) :
    feed byte state (first ++ second) =
      ((feed byte (feed byte state first).1 second).1,
        (feed byte state first).2 ++ (feed byte (feed byte state first).1 second).2) := by
  induction first generalizing state with
  | nil => rfl
  | cons s rest ih => simp only [List.cons_append, feed, ih, List.append_assoc]

variable {byte}

theorem start_two {s : σ} {k : ℕ} (b : (byte s).toNat = 0xC0 + k) (low : 2 ≤ k) (high : k < 32) :
    start byte s = (some { need := 1, value := k, seen := [s] }, []) := by
  have value : 0xC0 + k - 0xC0 = k := by omega
  simp only [start, b, value]
  rw [if_neg (by omega), if_neg (by omega), if_pos (by omega)]

theorem start_three {s : σ} {k : ℕ} (b : (byte s).toNat = 0xE0 + k) (high : k < 16) :
    start byte s = (some
      { need := 2, value := k, low := if k = 0 then 0xA0 else 0x80,
        high := if k = 0xD then 0x9F else 0xBF, seen := [s] }, []) := by
  have value : 0xE0 + k - 0xE0 = k := by omega
  simp only [start, b, value]
  rw [if_neg (by omega), if_neg (by omega), if_neg (by omega)]
  by_cases first : k = 0
  · subst first
    rfl
  · by_cases surrogate : k = 0xD
    · subst surrogate
      rfl
    · rw [if_neg (by omega), if_neg (by omega), if_pos (by omega), if_neg first,
        if_neg surrogate]

theorem start_four {s : σ} {k : ℕ} (b : (byte s).toNat = 0xF0 + k) (high : k ≤ 4) :
    start byte s = (some
      { need := 3, value := k, low := if k = 0 then 0x90 else 0x80,
        high := if k = 4 then 0x8F else 0xBF, seen := [s] }, []) := by
  simp only [start, b]
  interval_cases k <;> rfl

theorem step_last (sofar : Partial σ) {s : σ} {d : ℕ} (b : (byte s).toNat = 0x80 + d)
    (inside : sofar.low ≤ 0x80 + d ∧ 0x80 + d ≤ sofar.high) (last : sofar.need = 1) :
    step byte (some sofar) s =
      (none, [(some (Char.ofNat (sofar.value * 64 + d)), sofar.seen ++ [s])]) := by
  have value : 0x80 + d - 0x80 = d := by omega
  simp only [step, b, if_pos inside, if_pos last, value]

theorem step_further (sofar : Partial σ) {s : σ} {d : ℕ} (b : (byte s).toNat = 0x80 + d)
    (inside : sofar.low ≤ 0x80 + d ∧ 0x80 + d ≤ sofar.high) (more : sofar.need ≠ 1) :
    step byte (some sofar) s = (some
      { need := sofar.need - 1, value := sofar.value * 64 + d, seen := sofar.seen ++ [s] }, []) := by
  have value : 0x80 + d - 0x80 = d := by omega
  simp only [step, b, if_pos inside, if_neg more, value]

/-- A character is read back. -/
theorem feed_encodeChar {bytes : List σ} {c : Char} (encoded : bytes.map byte = encodeChar c) :
    feed byte none bytes = (none, [(some c, bytes)]) := by
  have valid : c.toNat < 0xD800 ∨ (0xDFFF < c.toNat ∧ c.toNat < 0x110000) := c.valid
  have back : Char.ofNat c.toNat = c := Char.ofNat_toNat c
  have toNat {s : σ} {k : ℕ} (here : byte s = .ofNat k) (small : k < 256) :
      (byte s).toNat = k := by
    rw [here, UInt8.toNat_ofNat']
    exact Nat.mod_eq_of_lt small
  simp only [encodeChar] at encoded
  split at encoded
  · rename_i small
    obtain ⟨s, rfl, here⟩ := List.map_eq_singleton_iff.mp encoded
    have b := toNat here (by omega)
    have lead : start byte s = (none, [(some c, [s])]) := by
      simp only [start, b, if_pos small, back]
    rw [feed, step, lead]
    rfl
  · rename_i one
    split at encoded
    · rename_i small
      obtain ⟨s, tail, rfl, here, more⟩ := List.map_eq_cons_iff.mp encoded
      obtain ⟨t, rfl, next⟩ := List.map_eq_singleton_iff.mp more
      have lead := start_two (toNat here (by omega)) (by omega) (by omega)
      have last := step_last { need := 1, value := c.toNat / 64, seen := [s] }
        (toNat next (by omega)) ⟨by simp, by simp; omega⟩ rfl
      have whole : c.toNat / 64 * 64 + c.toNat % 64 = c.toNat := by omega
      rw [whole, back] at last
      rw [feed, step, lead]
      simp only [feed, last]
      rfl
    · rename_i two
      split at encoded
      · rename_i small
        obtain ⟨s, tail, rfl, here, more⟩ := List.map_eq_cons_iff.mp encoded
        obtain ⟨t, tail, rfl, next, more⟩ := List.map_eq_cons_iff.mp more
        obtain ⟨u, rfl, final⟩ := List.map_eq_singleton_iff.mp more
        have lead := start_three (toNat here (by omega)) (by omega)
        have middle := step_further
            { need := 2, value := c.toNat / 4096, low := if c.toNat / 4096 = 0 then 0xA0 else 0x80,
              high := if c.toNat / 4096 = 0xD then 0x9F else 0xBF, seen := [s] }
          (toNat next (by omega)) (by constructor <;> (dsimp only; split <;> omega)) (by simp)
        have last := step_last
            { need := 2 - 1, value := c.toNat / 4096 * 64 + c.toNat / 64 % 64,
              seen := [s] ++ [t] }
          (toNat final (by omega)) ⟨by simp, by simp; omega⟩ rfl
        have whole : (c.toNat / 4096 * 64 + c.toNat / 64 % 64) * 64 + c.toNat % 64 = c.toNat := by
          omega
        rw [whole, back] at last
        rw [feed, step, lead]
        simp only [feed, middle, last]
        rfl
      · rename_i three
        obtain ⟨s, tail, rfl, here, more⟩ := List.map_eq_cons_iff.mp encoded
        obtain ⟨t, tail, rfl, next, more⟩ := List.map_eq_cons_iff.mp more
        obtain ⟨u, tail, rfl, third, more⟩ := List.map_eq_cons_iff.mp more
        obtain ⟨v, rfl, final⟩ := List.map_eq_singleton_iff.mp more
        have lead := start_four (toNat here (by omega)) (by omega)
        have second := step_further
            { need := 3, value := c.toNat / 262144,
              low := if c.toNat / 262144 = 0 then 0x90 else 0x80,
              high := if c.toNat / 262144 = 4 then 0x8F else 0xBF, seen := [s] }
          (toNat next (by omega)) (by constructor <;> (dsimp only; split <;> omega)) (by simp)
        have middle := step_further
            { need := 3 - 1, value := c.toNat / 262144 * 64 + c.toNat / 4096 % 64,
              seen := [s] ++ [t] }
          (toNat third (by omega)) ⟨by simp, by simp; omega⟩ (by simp)
        have last := step_last
            { need := 3 - 1 - 1,
              value := (c.toNat / 262144 * 64 + c.toNat / 4096 % 64) * 64 + c.toNat / 64 % 64,
              seen := [s] ++ [t] ++ [u] }
          (toNat final (by omega)) ⟨by simp, by simp; omega⟩ rfl
        have whole : ((c.toNat / 262144 * 64 + c.toNat / 4096 % 64) * 64 + c.toNat / 64 % 64) * 64 +
            c.toNat % 64 = c.toNat := by
          omega
        rw [whole, back] at last
        rw [feed, step, lead]
        simp only [feed, second, middle, last]
        rfl

/-- What was encoded is read back, character by character. -/
theorem feed_encode {text : List Char} : ∀ {bytes : List σ}, bytes.map byte = encode text →
    ∃ reads, feed byte none bytes = (none, reads) ∧ reads.map Prod.fst = text.map some := by
  induction text with
  | nil =>
    intro bytes encoded
    have none : bytes = [] := by simpa [encode] using encoded
    subst none
    exact ⟨[], rfl, rfl⟩
  | cons c rest ih =>
    intro bytes encoded
    rw [encode, List.flatMap_cons] at encoded
    obtain ⟨first, more, rfl, here, later⟩ := List.map_eq_append_iff.mp encoded
    obtain ⟨reads, fed, same⟩ := ih later
    refine ⟨(some c, first) :: reads, ?_, by simp [same]⟩
    rw [feed_append, feed_encodeChar here, fed]
    rfl

/-- No continuation of a character is in ASCII. -/
def Wide : Option (Partial σ) → Prop
  | none => True
  | some sofar => 0x80 ≤ sofar.low

theorem wide_start (s : σ) : Wide (start byte s).1 := by
  unfold start
  dsimp only
  repeat' split
  all_goals simp [Wide]

theorem wide_step {state : Option (Partial σ)} (s : σ) : Wide (step byte state s).1 := by
  cases state with
  | none => exact wide_start s
  | some sofar =>
    unfold step
    dsimp only
    split
    · split
      · trivial
      · simp [Wide]
    · exact wide_start s

theorem wide_feed {state : Option (Partial σ)} (wide : Wide state) (bytes : List σ) :
    Wide (feed byte state bytes).1 := by
  induction bytes generalizing state with
  | nil => exact wide
  | cons s rest ih => exact ih (wide_step s)

/-- A byte of ASCII starts anew. -/
theorem feed_ascii {state : Option (Partial σ)} (wide : Wide state) {s : σ}
    (ascii : (byte s).toNat < 0x80) (rest : List σ) :
    feed byte state (s :: rest) =
      ((feed byte none (s :: rest)).1, finish state ++ (feed byte none (s :: rest)).2) := by
  cases state with
  | none => rfl
  | some sofar =>
    have breaks : ¬ (sofar.low ≤ (byte s).toNat ∧ (byte s).toNat ≤ sofar.high) := by
      have : 0x80 ≤ sofar.low := wide
      omega
    simp only [feed, step, if_neg breaks, finish, List.cons_append, List.nil_append]

/-- Encoded text that starts in ASCII is read back, whatever is before and behind it. -/
theorem decode_encode {c : Char} {text : List Char} (ascii : c.toNat < 0x80) {bytes : List σ}
    (encoded : bytes.map byte = encode (c :: text)) (first more : List σ) :
    ∃ reads, decode byte (first ++ (bytes ++ more)) =
        decode byte first ++ (reads ++ decode byte more) ∧
      reads.map Prod.fst = c :: text ∧ reads = decode byte bytes := by
  obtain ⟨reads, fed, same⟩ := feed_encode encoded
  have shape : encode (c :: text) = .ofNat c.toNat :: encode text := by
    simp [encode, encodeChar, ascii]
  rw [shape] at encoded
  obtain ⟨s, tail, rfl, here, later⟩ := List.map_eq_cons_iff.mp encoded
  have low : (byte s).toNat < 0x80 := by
    rw [here, UInt8.toNat_ofNat']
    omega
  have nothing : Wide (none : Option (Partial σ)) := trivial
  have wide : Wide (feed byte none first).1 := wide_feed nothing first
  have whole : readAll byte (first ++ (s :: tail ++ more)) =
      readAll byte first ++ (reads ++ readAll byte more) := by
    have anew := feed_ascii wide low (tail ++ more)
    have parts : feed byte none (s :: (tail ++ more)) =
        ((feed byte none more).1, reads ++ (feed byte none more).2) := by
      rw [← List.cons_append, feed_append, fed]
    rw [parts] at anew
    rw [readAll, feed_append, List.cons_append, anew]
    simp only [readAll, List.append_assoc]
  have own : readAll byte (s :: tail) = reads := by rw [readAll, fed]; simp [finish]
  refine ⟨reads.map fun read => (read.1.getD '\ufffd', read.2), ?_, ?_, ?_⟩
  · rw [decode, whole]
    simp only [decode, List.map_append]
  · have chars : (reads.map Prod.fst).map (fun c => c.getD '\ufffd') = c :: text := by
      rw [same]
      simp
    rw [← chars, List.map_map, List.map_map]
    rfl
  · rw [decode, own]

/-- Characters that are not control characters have no bytes that are. -/
theorem printable_encode {text : List Char} (printable : ∀ c ∈ text, 0x20 ≤ c.toNat) :
    ∀ b ∈ encode text, 0x20 ≤ b.toNat := by
  intro b member
  obtain ⟨c, here, there⟩ := List.mem_flatMap.mp member
  have low := printable c here
  have valid : c.toNat < 0xD800 ∨ (0xDFFF < c.toNat ∧ c.toNat < 0x110000) := c.valid
  simp only [encodeChar] at there
  have toNat {k : ℕ} (same : b = .ofNat k) (small : k < 256) : b.toNat = k := by
    rw [same, UInt8.toNat_ofNat']
    exact Nat.mod_eq_of_lt small
  split at there
  · have := toNat (List.mem_singleton.mp there) (by omega)
    omega
  · split at there
    · simp only [List.mem_cons, List.not_mem_nil, or_false] at there
      rcases there with same | same
      · have := toNat same (by omega)
        omega
      · have := toNat same (by omega)
        omega
    · split at there
      · simp only [List.mem_cons, List.not_mem_nil, or_false] at there
        rcases there with same | same | same
        · have := toNat same (by omega)
          omega
        · have := toNat same (by omega)
          omega
        · have := toNat same (by omega)
          omega
      · simp only [List.mem_cons, List.not_mem_nil, or_false] at there
        rcases there with same | same | same | same
        · have := toNat same (by omega)
          omega
        · have := toNat same (by omega)
          omega
        · have := toNat same (by omega)
          omega
        · have := toNat same (by omega)
          omega

/-! ### Where characters come from -/

/-- The symbols are some, and each of them has a property. -/
def Made (p : σ → Prop) (symbols : List σ) : Prop := symbols ≠ [] ∧ ∀ s ∈ symbols, p s

variable (byte) {p : σ → Prop}

theorem made_start {s : σ} (holds : p s) :
    (∀ sofar ∈ (start byte s).1, Made p sofar.seen) ∧ ∀ read ∈ (start byte s).2, Made p read.2 := by
  have one : Made p [s] := ⟨by simp, by simpa using holds⟩
  unfold start
  dsimp only
  repeat' split
  all_goals simp [one]

theorem before_none (p : σ → Prop) : ∀ sofar ∈ (none : Option (Partial σ)), Made p sofar.seen := by
  simp

theorem made_step {state : Option (Partial σ)} (before : ∀ sofar ∈ state, Made p sofar.seen)
    {s : σ} (holds : p s) :
    (∀ sofar ∈ (step byte state s).1, Made p sofar.seen) ∧
      ∀ read ∈ (step byte state s).2, Made p read.2 := by
  cases state with
  | none => exact made_start byte holds
  | some sofar =>
    have seen : Made p sofar.seen := before sofar rfl
    have longer : Made p (sofar.seen ++ [s]) := by
      refine ⟨by simp, fun t member => ?_⟩
      rcases List.mem_append.mp member with old | new
      · exact seen.2 t old
      · rw [List.mem_singleton.mp new]
        exact holds
    have anew := made_start byte holds
    unfold step
    dsimp only
    split
    · split <;> simp [longer]
    · refine ⟨anew.1, fun read member => ?_⟩
      rcases List.mem_cons.mp member with rfl | later
      · exact seen
      · exact anew.2 read later

theorem made_feed {state : Option (Partial σ)} (before : ∀ sofar ∈ state, Made p sofar.seen)
    {bytes : List σ} (holds : ∀ s ∈ bytes, p s) :
    (∀ sofar ∈ (feed byte state bytes).1, Made p sofar.seen) ∧
      ∀ read ∈ (feed byte state bytes).2, Made p read.2 := by
  induction bytes generalizing state with
  | nil => exact ⟨before, by simp [feed]⟩
  | cons s rest ih =>
    have first := made_step byte before (holds s (by simp))
    have more := ih first.1 fun t member => holds t (by simp [member])
    refine ⟨more.1, fun read member => ?_⟩
    rcases List.mem_append.mp member with here | later
    · exact first.2 read here
    · exact more.2 read later

/-- Every character comes from some of the symbols. -/
theorem made_decode {bytes : List σ} (holds : ∀ s ∈ bytes, p s) :
    ∀ read ∈ decode byte bytes, Made p read.2 := by
  have fed := made_feed byte (before_none p) holds
  intro read member
  simp only [decode, readAll, List.map_append, List.mem_append, List.mem_map] at member
  rcases member with ⟨one, here, rfl⟩ | ⟨one, last, rfl⟩
  · exact fed.2 one here
  · cases ends : (feed byte none bytes).1 with
    | none => simp [ends, finish] at last
    | some sofar =>
      simp only [ends, finish, List.mem_singleton] at last
      rw [last]
      exact fed.1 sofar ends

variable {byte}

/-- Encoded text is UTF-8. -/
theorem strict_encode {text : List Char} {bytes : List σ} (encoded : bytes.map byte = encode text) :
    strict byte bytes = some text := by
  obtain ⟨reads, fed, same⟩ := feed_encode encoded
  have all : readAll byte bytes = reads := by rw [readAll, fed]; simp [finish]
  rw [strict, all]
  clear fed all encoded
  induction text generalizing reads with
  | nil =>
    have none : reads = [] := by simpa using same
    subst none
    rfl
  | cons c rest ih =>
    obtain ⟨read, more, rfl, here, later⟩ := List.map_eq_cons_iff.mp same
    rw [List.mapM_cons, here, ih _ later]
    rfl

/-! ### What symbols carry does not matter -/

section Symbols

variable {τ : Type} (f : σ → τ) (byte : τ → UInt8)

/-- The symbols so far, replaced by others. -/
def Partial.map (sofar : Partial σ) : Partial τ :=
  { need := sofar.need, value := sofar.value, low := sofar.low, high := sofar.high
    seen := sofar.seen.map f }

/-- The symbols of what was read, replaced by others. -/
def mapRead {α : Type} (read : α × List σ) : α × List τ := (read.1, read.2.map f)

theorem start_map (s : σ) :
    start byte (f s) =
      ((start (byte ∘ f) s).1.map (Partial.map f), (start (byte ∘ f) s).2.map (mapRead f)) := by
  simp only [start, Function.comp_apply]
  split_ifs <;> rfl

theorem step_map (state : Option (Partial σ)) (s : σ) :
    step byte (state.map (Partial.map f)) (f s) =
      ((step (byte ∘ f) state s).1.map (Partial.map f),
        (step (byte ∘ f) state s).2.map (mapRead f)) := by
  cases state with
  | none => exact start_map f byte s
  | some sofar =>
    have low : (sofar.map f).low = sofar.low := rfl
    have high : (sofar.map f).high = sofar.high := rfl
    have need : (sofar.map f).need = sofar.need := rfl
    simp only [Option.map_some, step, Function.comp_apply, low, high, need, start_map]
    split_ifs <;> simp [Partial.map, mapRead]

theorem feed_map (state : Option (Partial σ)) (bytes : List σ) :
    feed byte (state.map (Partial.map f)) (bytes.map f) =
      ((feed (byte ∘ f) state bytes).1.map (Partial.map f),
        (feed (byte ∘ f) state bytes).2.map (mapRead f)) := by
  induction bytes generalizing state with
  | nil => rfl
  | cons s rest ih => simp only [List.map_cons, feed, step_map, ih, List.map_append]

/-- What symbols carry besides their bytes does not matter. -/
theorem decode_map (bytes : List σ) :
    decode byte (bytes.map f) = (decode (byte ∘ f) bytes).map (mapRead f) := by
  have fed := feed_map f byte none bytes
  have last (state : Option (Partial σ)) :
      finish (state.map (Partial.map f)) = (finish state).map (mapRead f) := by
    cases state <;> rfl
  rw [Option.map_none] at fed
  simp only [decode, readAll, fed, last, List.map_append, List.map_map]
  rfl

end Symbols

end Utf8

end IntramindRuntime.Library
