import Mathlib.Data.Int.ConditionallyCompleteOrder
import IntramindRuntime.Library.Number

/-!
# The capacity controller

A feedback policy chooses how many requests a resource may have in flight. It sees the last
target, one sample of telemetry and a calibrated profile, and answers with the next target
and a reason. It is meant to climb one step at a time, only on evidence that is good and
recent, and to give way under congestion.

## Main definitions

* `ControlProfile`, `ControlSample` — what is calibrated, and what is measured
* `ControlProfile.choose` — the policy
* `Cautious` — what a bounded and cautious policy may answer
* `SteadyInput` — no target is closed while the resource is congested, and a probe can be timed

## Main results

* `ControlProfile.chosen` — the answers of the policy, one rule for each
* `ControlProfile.choose_bounded` — every answer is within the hard ceiling
* `cautious_iff_steady` — the policy is cautious exactly where it is steady
-/

namespace IntramindRuntime.Scheduling

open Library

/-! ### Profiles and samples -/

/-- A calibrated profile. A factor strictly between zero and one is a rational. -/
structure ControlProfile where
  hardCeiling : ℤ
  safeTarget : ℤ
  minSamples : ℤ
  congestionRatio : Number
  decreaseFactor : ℚ
  cooldownSeconds : Number
  telemetryMaxAgeSeconds : Number
  maxInflightAgeSeconds : Number
  valid : (0 < safeTarget ∧ safeTarget ≤ hardCeiling) ∧ 0 < minSamples ∧
    .rat 1 < congestionRatio ∧ (0 < decreaseFactor ∧ decreaseFactor < 1) ∧
    .rat 0 < cooldownSeconds ∧ .rat 0 < telemetryMaxAgeSeconds ∧
    .rat 0 < maxInflightAgeSeconds := by decide +kernel

/-- One sample of telemetry. -/
structure ControlSample where
  observedAt : Number
  samples : ℤ
  serviceLatencyRatio : Option Number
  pressure : Option Bool
  oldestInflightSeconds : Number
  healthy : Bool
  demand : Bool
  profileMatches : Bool

/-- The reasons of an answer. -/
inductive ControlReason
  | unhealthyOrProfileMismatch
  | staleOrInsufficient
  | cooldown
  | sustainedCongestion
  | boundedProbe
  | hold
  deriving DecidableEq, Repr

/-- The text of a reason. -/
def ControlReason.text : ControlReason → String
  | unhealthyOrProfileMismatch => "unhealthy_or_profile_mismatch"
  | staleOrInsufficient => "stale_or_insufficient"
  | cooldown => "cooldown"
  | sustainedCongestion => "sustained_congestion"
  | boundedProbe => "bounded_probe"
  | hold => "hold"

/-- There is demand, and nothing that speaks against more of it. -/
def ControlSample.probing (sample : ControlSample) (ratio : Number) : Bool :=
  sample.demand && sample.pressure = some false && ratio ≤ .rat 1

namespace ControlProfile

variable (profile : ControlProfile) (sample : ControlSample)

/-- The sample is late or too small, or its ratio is no finite number. A sample without a ratio
does not get this far. -/
def stale (now ratio : Number) : Bool :=
  now < sample.observedAt || profile.telemetryMaxAgeSeconds < now - sample.observedAt ||
    sample.samples < profile.minSamples || !ratio.isFinite

/-- The service is slow, and more than its own queue shows it. -/
def congested (ratio : Number) : Bool :=
  profile.congestionRatio < ratio && (sample.pressure = some true ||
    profile.maxInflightAgeSeconds < sample.oldestInflightSeconds)

/-- The last change is too recent for another. -/
def cooling (now lastChange : Number) : Bool := now - lastChange < profile.cooldownSeconds

/-- `decide`: the next target, and why. -/
def choose (target : ℤ) (now lastChange : Number) : ℤ × ControlReason :=
  if !sample.healthy || !sample.profileMatches then (0, .unhealthyOrProfileMismatch)
  else match sample.serviceLatencyRatio with
    | none => (min target profile.safeTarget, .staleOrInsufficient)
    | some ratio =>
      if profile.stale sample now ratio then (min target profile.safeTarget, .staleOrInsufficient)
      else if profile.congested sample ratio then
        if profile.cooling now lastChange then (target, .cooldown)
        -- even a closed target is raised to one here
        else (max 1 ⌊target * profile.decreaseFactor⌋, .sustainedCongestion)
      else if profile.cooling now lastChange then (target, .cooldown)
      else if sample.probing ratio then
        (min (target + 1) profile.hardCeiling, .boundedProbe)
      else (target, .hold)

/-- The sample counts, and its ratio is the given one. -/
structure Accepts (now ratio : Number) : Prop where
  healthy : sample.healthy = true
  matching : sample.profileMatches = true
  measured : sample.serviceLatencyRatio = some ratio
  recent : profile.stale sample now ratio = false

/-- The answers of the policy. -/
inductive Chosen (target : ℤ) (now lastChange : Number) : ℤ × ControlReason → Prop
  | closes (unfit : sample.healthy = false ∨ sample.profileMatches = false) :
      Chosen target now lastChange (0, .unhealthyOrProfileMismatch)
  | retreats (healthy : sample.healthy = true) (matching : sample.profileMatches = true)
      (unusable : ∀ ratio, ¬ profile.Accepts sample now ratio) :
      Chosen target now lastChange (min target profile.safeTarget, .staleOrInsufficient)
  | waits {ratio : Number} (accepts : profile.Accepts sample now ratio)
      (cooling : profile.cooling now lastChange = true) :
      Chosen target now lastChange (target, .cooldown)
  | decreases {ratio : Number} (accepts : profile.Accepts sample now ratio)
      (congested : profile.congested sample ratio = true)
      (cooled : profile.cooling now lastChange = false) :
      Chosen target now lastChange
        (max 1 ⌊target * profile.decreaseFactor⌋, .sustainedCongestion)
  | probes {ratio : Number} (accepts : profile.Accepts sample now ratio)
      (calm : profile.congested sample ratio = false)
      (cooled : profile.cooling now lastChange = false)
      (probing : sample.probing ratio = true) :
      Chosen target now lastChange (min (target + 1) profile.hardCeiling, .boundedProbe)
  | holds {ratio : Number} (accepts : profile.Accepts sample now ratio)
      (calm : profile.congested sample ratio = false)
      (cooled : profile.cooling now lastChange = false)
      (content : sample.probing ratio = false) :
      Chosen target now lastChange (target, .hold)

variable {profile sample}

theorem Accepts.ratio_eq {now ratio other : Number} (first : profile.Accepts sample now ratio)
    (second : profile.Accepts sample now other) : ratio = other :=
  Option.some.inj (first.measured.symm.trans second.measured)

variable (profile sample)

/-- The policy gives one of its answers, each under its own rule. -/
theorem chosen (target : ℤ) (now lastChange : Number) :
    profile.Chosen sample target now lastChange (profile.choose sample target now lastChange) := by
  unfold choose
  by_cases unfit : sample.healthy = false ∨ sample.profileMatches = false
  · rw [if_pos (by rcases unfit with h | h <;> simp [h])]
    exact .closes unfit
  · obtain ⟨healthy, matching⟩ := not_or.mp unfit
    rw [Bool.not_eq_false] at healthy matching
    rw [if_neg (by simp [healthy, matching])]
    cases measured : sample.serviceLatencyRatio with
    | none =>
      apply Chosen.retreats healthy matching
      intro ratio accepts
      exact nomatch measured.symm.trans accepts.measured
    | some ratio =>
      dsimp only
      split_ifs with late congested cooling cooling probing
      · apply Chosen.retreats healthy matching
        intro other accepts
        cases measured.symm.trans accepts.measured
        exact nomatch late.symm.trans accepts.recent
      all_goals
        have accepts : profile.Accepts sample now ratio :=
          ⟨healthy, matching, measured, Bool.not_eq_true _ ▸ late⟩
        simp only [Bool.not_eq_true] at *
      · exact .waits accepts cooling
      · exact .decreases accepts congested cooling
      · exact .waits accepts cooling
      · exact .probes accepts congested cooling probing
      · exact .holds accepts congested cooling probing

variable {profile sample}

/-- A congested resource that has cooled down is given less, but never nothing. -/
theorem choose_decreases {now lastChange ratio : Number}
    (accepts : profile.Accepts sample now ratio) (congested : profile.congested sample ratio = true)
    (cooled : profile.cooling now lastChange = false) (target : ℤ) :
    profile.choose sample target now lastChange =
      (max 1 ⌊target * profile.decreaseFactor⌋, .sustainedCongestion) := by
  simp [choose, accepts.healthy, accepts.matching, accepts.measured, accepts.recent, congested,
    cooled]

/-- A calm resource that has cooled down and is asked for more is given one more. -/
theorem choose_probes {now lastChange ratio : Number} (accepts : profile.Accepts sample now ratio)
    (calm : profile.congested sample ratio = false)
    (cooled : profile.cooling now lastChange = false) (probing : sample.probing ratio = true)
    (target : ℤ) :
    profile.choose sample target now lastChange =
      (min (target + 1) profile.hardCeiling, .boundedProbe) := by
  simp [choose, accepts.healthy, accepts.matching, accepts.measured, accepts.recent, calm, cooled,
    probing]

/-! ### Bounds -/

variable (profile) in
theorem one_le_hardCeiling : 1 ≤ profile.hardCeiling := by
  obtain ⟨⟨positive, ceiling⟩, -⟩ := profile.valid
  omega

variable (profile) in
/-- A decrease takes something from every target that is not zero. -/
theorem decrease_lt {target : ℤ} (positive : 0 < target) :
    ⌊target * profile.decreaseFactor⌋ < target := by
  obtain ⟨-, -, -, ⟨-, factor⟩, -⟩ := profile.valid
  rw [Int.floor_lt]
  have scaled : (0 : ℚ) < target := by exact_mod_cast positive
  calc (target : ℚ) * profile.decreaseFactor
      < target * 1 := mul_lt_mul_of_pos_left factor scaled
    _ = target := mul_one _

variable (profile sample) in
/-- Every answer to a target within the hard ceiling is within it. -/
theorem choose_bounded {target : ℤ} (within : target ∈ Set.Icc 0 profile.hardCeiling)
    (now lastChange : Number) :
    (profile.choose sample target now lastChange).1 ∈ Set.Icc 0 profile.hardCeiling := by
  obtain ⟨low, high⟩ := within
  have ceiling := profile.one_le_hardCeiling
  have chosen := profile.chosen sample target now lastChange
  generalize profile.choose sample target now lastChange = answer at chosen
  rw [Set.mem_Icc]
  cases chosen with
  | closes unfit => exact ⟨le_rfl, by omega⟩
  | retreats healthy matching unusable =>
    obtain ⟨⟨positive, -⟩, -⟩ := profile.valid
    dsimp only
    omega
  | waits accepts cooling => exact ⟨low, high⟩
  | decreases accepts congested cooled =>
    rcases low.eq_or_lt with rfl | positive
    · simp [ceiling]
    · have less := profile.decrease_lt positive
      dsimp only
      omega
  | probes accepts calm cooled probing =>
    dsimp only
    omega
  | holds accepts calm cooled content => exact ⟨low, high⟩

end ControlProfile

/-! ### Caution -/

section Caution

variable (profile : ControlProfile) (sample : ControlSample)

/-- The sample is healthy and of this profile, it is fresh and large enough, and its ratio is the
given rational. -/
structure Sound (now : Number) (ratio : ℚ) : Prop where
  healthy : sample.healthy = true
  matching : sample.profileMatches = true
  fresh : sample.observedAt ≤ now ∧ now - sample.observedAt ≤ profile.telemetryMaxAgeSeconds
  enough : profile.minSamples ≤ sample.samples
  measured : sample.serviceLatencyRatio = some (.rat ratio)

/-- The cooldown has passed. -/
def Rested (now lastChange : Number) : Prop := profile.cooldownSeconds ≤ now - lastChange

/-- A value that a bounded and cautious policy may answer. -/
structure Cautious (target : ℤ) (now lastChange : Number) (value : ℤ) : Prop where
  bounded : value ∈ Set.Icc 0 profile.hardCeiling
  climbs : target < value → value = target + 1 ∧
    (∃ ratio, Sound profile sample now ratio ∧ ratio ≤ 1) ∧ sample.pressure = some false ∧
      sample.demand = true ∧ Rested profile now lastChange
  yields : ∀ ratio, Sound profile sample now ratio → profile.congestionRatio < .rat ratio →
    sample.pressure = some true ∨ profile.maxInflightAgeSeconds < sample.oldestInflightSeconds →
    Rested profile now lastChange → value ≤ target ∧ (1 < target → value < target)
  closes : sample.healthy = false ∨ sample.profileMatches = false → value = 0

/-- Where the policy decreases, the target is not closed. Where it probes, the age of the sample
and the time since the last change are numbers: between equal infinities they are none, and then
no bound on them is violated. -/
structure SteadyInput (target : ℤ) (now lastChange : Number) : Prop where
  opened : ∀ ratio, profile.Accepts sample now ratio → profile.congested sample ratio = true →
    profile.cooling now lastChange = false → target ≠ 0
  timed : ∀ ratio, profile.Accepts sample now ratio → profile.congested sample ratio = false →
    profile.cooling now lastChange = false → sample.probing ratio = true →
    target < profile.hardCeiling → now - sample.observedAt ≠ .nan ∧ now - lastChange ≠ .nan

variable {profile sample}

/-- A sample that counts is sound, if its age is a number. -/
theorem ControlProfile.Accepts.sound {now ratio : Number}
    (accepts : profile.Accepts sample now ratio) (timed : now - sample.observedAt ≠ .nan) :
    ∃ q, ratio = .rat q ∧ Sound profile sample now q := by
  obtain ⟨-, -, -, -, -, age, -⟩ := profile.valid
  have recent := accepts.recent
  simp only [ControlProfile.stale, Bool.or_eq_false_iff, decide_eq_false_iff_not,
    Bool.not_eq_false'] at recent
  obtain ⟨⟨⟨past, young⟩, enough⟩, finite⟩ := recent
  cases ratio with
  | rat q =>
    have times := Number.ne_nan_of_sub timed
    have fresh := And.intro (Number.le_of_not_lt times.2 times.1 past)
      (Number.le_of_not_lt timed (Number.ne_nan_of_lt age).2 young)
    exact ⟨q, rfl, accepts.healthy, accepts.matching, fresh, not_lt.mp enough, accepts.measured⟩
  | posInf => exact nomatch finite
  | negInf => exact nomatch finite
  | nan => exact nomatch finite

theorem Sound.accepts {now : Number} {ratio : ℚ} (sound : Sound profile sample now ratio) :
    profile.Accepts sample now (.rat ratio) where
  healthy := sound.healthy
  matching := sound.matching
  measured := sound.measured
  recent := by
    have past := Number.not_lt_of_le sound.fresh.1
    have young := Number.not_lt_of_le sound.fresh.2
    simp [ControlProfile.stale, past, young, sound.enough, Number.isFinite]

theorem Rested.cooled {now lastChange : Number} (rested : Rested profile now lastChange) :
    profile.cooling now lastChange = false :=
  decide_eq_false (Number.not_lt_of_le rested)

/-- A time since the last change that is a number is not too short, or the policy waits. -/
theorem rested_of_cooled {now lastChange : Number} (timed : now - lastChange ≠ .nan)
    (cooled : profile.cooling now lastChange = false) : Rested profile now lastChange := by
  obtain ⟨-, -, -, -, cooldown, -, -⟩ := profile.valid
  exact Number.le_of_not_lt (Number.ne_nan_of_lt cooldown).2 timed (of_decide_eq_false cooled)

theorem ControlSample.probing_iff {ratio : Number} : sample.probing ratio = true ↔
    sample.demand = true ∧ sample.pressure = some false ∧ ratio ≤ .rat 1 := by
  simp [ControlSample.probing, and_assoc]

/-- An answer of the policy, where it is steady, is cautious. -/
theorem ControlProfile.Chosen.cautious {target : ℤ} {now lastChange : Number}
    {answer : ℤ × ControlReason} (chosen : profile.Chosen sample target now lastChange answer)
    (steady : SteadyInput profile sample target now lastChange)
    (within : target ∈ Set.Icc 0 profile.hardCeiling)
    (bounded : answer.1 ∈ Set.Icc 0 profile.hardCeiling) :
    Cautious profile sample target now lastChange answer.1 := by
  refine ⟨bounded, ?climbs, ?yields, ?closes⟩
  case climbs =>
    intro more
    cases chosen with
    | closes unfit => exact absurd within.1 (not_le.mpr more)
    | retreats healthy matching unusable => exact absurd more (not_lt.mpr (min_le_left _ _))
    | waits accepts cooling => exact absurd more (lt_irrefl _)
    | decreases accepts congested cooled =>
      -- only a target that is closed would be raised
      have opened := steady.opened _ accepts congested cooled
      have positive : 0 < target := lt_of_le_of_ne within.1 (Ne.symm opened)
      have less := profile.decrease_lt positive
      dsimp only at more
      omega
    | probes accepts calm cooled probing =>
      have room : target < profile.hardCeiling := by
        dsimp only at more
        omega
      obtain ⟨aged, timed⟩ := steady.timed _ accepts calm cooled probing room
      obtain ⟨q, rfl, sound⟩ := accepts.sound aged
      obtain ⟨demand, pressure, small⟩ := ControlSample.probing_iff.mp probing
      have ratio : q ≤ 1 := by
        simpa [Number.le_def, ← le_iff_lt_or_eq] using small
      exact ⟨min_eq_left room, ⟨q, sound, ratio⟩, pressure, demand, rested_of_cooled timed cooled⟩
    | holds accepts calm cooled content => exact absurd more (lt_irrefl _)
  case yields =>
    intro ratio sound slow pressed rested
    have accepts := sound.accepts
    have congested : profile.congested sample (.rat ratio) = true := by
      simp [ControlProfile.congested, slow, pressed]
    -- every other answer is given under a rule that does not hold here
    cases chosen with
    | closes unfit => exact absurd unfit (by simp [sound.healthy, sound.matching])
    | retreats healthy matching unusable => exact absurd accepts (unusable _)
    | waits again cooling => exact nomatch cooling.symm.trans rested.cooled
    | decreases again congested cooled =>
      have opened := steady.opened _ again congested cooled
      have positive : 0 < target := lt_of_le_of_ne within.1 (Ne.symm opened)
      have less := profile.decrease_lt positive
      dsimp only
      omega
    | probes again calm cooled probing =>
      exact nomatch (again.ratio_eq accepts ▸ calm).symm.trans congested
    | holds again calm cooled content =>
      exact nomatch (again.ratio_eq accepts ▸ calm).symm.trans congested
  case closes =>
    intro unfit
    have refused : ∀ ratio, ¬ profile.Accepts sample now ratio := by
      intro ratio accepts
      rcases unfit with sick | other
      · exact nomatch sick.symm.trans accepts.healthy
      · exact nomatch other.symm.trans accepts.matching
    cases chosen with
    | closes unfit => rfl
    | retreats healthy matching unusable => exact absurd unfit (by simp [healthy, matching])
    | waits accepts cooling => exact absurd accepts (refused _)
    | decreases accepts congested cooled => exact absurd accepts (refused _)
    | probes accepts calm cooled probing => exact absurd accepts (refused _)
    | holds accepts calm cooled content => exact absurd accepts (refused _)

/-- The policy is cautious exactly where it is steady. -/
theorem cautious_iff_steady (profile : ControlProfile) (sample : ControlSample) {target : ℤ}
    (within : target ∈ Set.Icc 0 profile.hardCeiling) (now lastChange : Number) :
    Cautious profile sample target now lastChange
        (profile.choose sample target now lastChange).1 ↔
      SteadyInput profile sample target now lastChange := by
  constructor
  · intro cautious
    refine ⟨?opened, ?timed⟩
    case opened =>
      rintro ratio accepts congested cooled rfl
      -- a closed target is raised, with a ratio above one
      rw [ControlProfile.choose_decreases accepts congested cooled] at cautious
      obtain ⟨-, ⟨q, sound, small⟩, -⟩ := cautious.climbs (by simp)
      cases accepts.ratio_eq sound.accepts
      obtain ⟨-, -, large, -⟩ := profile.valid
      have slow : profile.congestionRatio < .rat q := by
        simp only [ControlProfile.congested, Bool.and_eq_true, decide_eq_true_eq] at congested
        exact congested.1
      have above : Number.rat 1 < .rat q := Number.lt_trans large slow
      rw [Number.rat_lt_rat] at above
      exact absurd above (not_lt.mpr small)
    case timed =>
      intro ratio accepts calm cooled probing room
      rw [ControlProfile.choose_probes accepts calm cooled probing] at cautious
      have more : target < min (target + 1) profile.hardCeiling := by omega
      obtain ⟨-, ⟨q, sound, -⟩, -, -, rested⟩ := cautious.climbs more
      exact ⟨(Number.ne_nan_of_le sound.fresh.2).1, (Number.ne_nan_of_le rested).2⟩
  · intro steady
    exact (profile.chosen sample target now lastChange).cautious steady within
      (profile.choose_bounded sample within now lastChange)

/-- A profile with a ceiling of eight. -/
def measuredProfile : ControlProfile where
  hardCeiling := 8
  safeTarget := 1
  minSamples := 10
  congestionRatio := .rat (13 / 10)
  decreaseFactor := 3 / 4
  cooldownSeconds := .rat 30
  telemetryMaxAgeSeconds := .rat 20
  maxInflightAgeSeconds := .rat 120

/-- A good sample of a service that is slow and under pressure. -/
def pressedSample : ControlSample where
  observedAt := .rat 100
  samples := 20
  serviceLatencyRatio := some (.rat 2)
  pressure := some true
  oldestInflightSeconds := .rat 10
  healthy := true
  demand := true
  profileMatches := true

/-- A target of eight gives way to the congestion. -/
theorem cautious_iff_steady_pressed :
    (8 : ℤ) ∈ Set.Icc 0 measuredProfile.hardCeiling ∧
      (Cautious measuredProfile pressedSample 8 (.rat 100) (.rat 0)
          (measuredProfile.choose pressedSample 8 (.rat 100) (.rat 0)).1 ↔
        SteadyInput measuredProfile pressedSample 8 (.rat 100) (.rat 0)) ∧
      measuredProfile.choose pressedSample 8 (.rat 100) (.rat 0) = (6, .sustainedCongestion) :=
  ⟨by decide, cautious_iff_steady measuredProfile pressedSample (by decide) _ _, by decide +kernel⟩

/-- A closed target is raised to one under the same congestion. -/
theorem cautious_iff_steady_fails :
    ¬ Cautious measuredProfile pressedSample 0 (.rat 100) (.rat 0)
      (measuredProfile.choose pressedSample 0 (.rat 100) (.rat 0)).1 := by
  intro cautious
  have raised : (measuredProfile.choose pressedSample 0 (.rat 100) (.rat 0)).1 = 1 := by
    decide +kernel
  rw [raised] at cautious
  obtain ⟨-, -, calm, -⟩ := cautious.climbs (by decide)
  exact nomatch calm

end Caution

end IntramindRuntime.Scheduling
