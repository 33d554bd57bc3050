import Mathlib
import Taskmill.Transitions

/-!
# Priority aging

`src/scheduler/aging.rs`: a task that has waited longer than the grace period is promoted by one level in every
interval, up to a ceiling.  The dispatch queries compute the same number in SQL (`rank_eq_effectivePriority`).

The ceiling is a lower bound of the number, also for a task that is above it without any promotion: such a task is
demoted to the ceiling.  `onlyPromotes_iff` says for which priorities aging does what it is meant to do.
-/

namespace Taskmill

/-- `AgingConfig` -/
structure AgingConfig where
  gracePeriod : Duration
  agingInterval : Duration
  maxEffectivePriority : Priority
  urgentThreshold : Option Priority
deriving DecidableEq, Repr

namespace AgingConfig

/-- `AgingConfig::default` -/
def default : AgingConfig where
  gracePeriod := ⟨300 * 1000000000⟩
  agingInterval := ⟨60 * 1000000000⟩
  maxEffectivePriority := 64
  urgentThreshold := none

/-- `AgingConfig::validate` -/
def validate (config : AgingConfig) : Except String Unit :=
  if config.agingInterval.isZero then .error "aging_interval must be non-zero"
  else if config.urgentThreshold.any (· < config.maxEffectivePriority) then
    .error ("urgent_threshold is higher priority than max_effective_priority — tasks can never age past " ++
      "max_effective_priority, so the urgent threshold would never trigger")
  else .ok ()

def graceMs (config : AgingConfig) : Int := asI64 config.gracePeriod.asMillis

def intervalMs (config : AgingConfig) : Int := asI64 (max config.agingInterval.asMillis 1)

/-- The division of `effective_priority` by an interval that has become zero as an `i64`. -/
def divisionPanics (config : AgingConfig) : Bool := config.intervalMs == 0

end AgingConfig

/-- `AgingParams::from_config` -/
def AgingParams.fromConfig (config : AgingConfig) (nowMs : Int) : AgingParams where
  nowMs := nowMs
  gracePeriodMs := config.graceMs
  agingIntervalMs := config.intervalMs
  maxEffectivePriority := config.maxEffectivePriority.toNat

/-- `now_ms - created_at_ms - pause_duration_ms`; the clock counts nanoseconds. -/
def ageMs (createdAtMs pauseDurationMs now : Int) : Int := now / 1000000 - createdAtMs - pauseDurationMs

/-- `effective_priority` -/
def effectivePriority (base : Priority) (createdAtMs pauseDurationMs : Int) (config : AgingConfig)
    (now : Int) : Priority :=
  let promotions := UInt8.ofInt
    (min ((max (ageMs createdAtMs pauseDurationMs now - config.graceMs) 0).tdiv config.intervalMs) 255)
  let effective : Priority := UInt8.ofNat (base.toNat - promotions.toNat)
  max effective config.maxEffectivePriority

/-- `TaskRecord::effective_priority` -/
def TaskRecord.effectivePriority (r : TaskRecord) (config : Option AgingConfig) (now : Int) : Priority :=
  match config with
  | none => r.priority
  | some config => Taskmill.effectivePriority r.priority r.createdAt r.pauseDurationMs config now

/-! ### The two formulas -/

theorem UInt8.toNat_ofInt (n : Int) : (UInt8.ofInt n).toNat = (n % 256).toNat := by
  have hlt : (n % 2 ^ 8).toNat < 2 ^ 8 := by omega
  exact UInt8.toNat_ofNat_of_lt' hlt

section Formula

variable {config : AgingConfig} {base : Priority} {createdAt pauseDuration now : Int}

/-- The levels by which a task is promoted. -/
def AgingConfig.promotions (config : AgingConfig) (age : Int) : Int :=
  max (age - config.graceMs) 0 / config.intervalMs

/-- Without the saturating arithmetic on `u8`. -/
theorem effectivePriority_toNat (h : 0 < config.intervalMs) :
    ((effectivePriority base createdAt pauseDuration config now).toNat : Int) =
      max (base.toNat - config.promotions (ageMs createdAt pauseDuration now)) config.maxEffectivePriority.toNat := by
  have hbase := base.toNat_lt
  have hceiling := config.maxEffectivePriority.toNat_lt
  have hnonneg : 0 ≤ config.promotions (ageMs createdAt pauseDuration now) :=
    Int.ediv_nonneg (le_max_right _ _) (le_of_lt h)
  have hpromotions : (max (ageMs createdAt pauseDuration now - config.graceMs) 0).tdiv config.intervalMs =
      config.promotions (ageMs createdAt pauseDuration now) :=
    Int.tdiv_eq_ediv_of_nonneg (le_max_right _ _)
  unfold effectivePriority
  rw [hpromotions, UInt8.toNat_max, UInt8.toNat_ofNat_of_lt' (by unfold UInt8.size; omega), UInt8.toNat_ofInt]
  omega

/-- `MAX(0, x / i)` of SQL and `x.max(0) / i` of Rust. -/
theorem max_tdiv {x i : Int} (h : 0 < i) : max 0 (x.tdiv i) = max x 0 / i := by
  by_cases hx : 0 ≤ x
  · rw [max_eq_left hx, Int.tdiv_eq_ediv_of_nonneg hx]
    exact max_eq_right (Int.ediv_nonneg hx (le_of_lt h))
  · have hneg : 0 ≤ (-x).tdiv i := Int.tdiv_nonneg (by omega) (le_of_lt h)
    rw [Int.neg_tdiv] at hneg
    have hzero : max x 0 = 0 := max_eq_right (by omega)
    rw [hzero, Int.zero_ediv]
    omega

/-- The `ORDER BY` expression of the dispatch queries is `effective_priority`. -/
theorem rank_eq_effectivePriority (h : 0 < config.intervalMs) (r : TaskRow) :
    r.rank (some (.fromConfig config (now / 1000000))) =
      (effectivePriority r.priority r.createdAt r.pauseDurationMs config now).toNat := by
  rw [effectivePriority_toNat h]
  unfold TaskRow.rank AgingParams.fromConfig AgingConfig.promotions ageMs
  dsimp only
  rw [max_tdiv h]

/-- No waiting time makes a task more urgent than the ceiling, and none makes a task less urgent that is not above
it. -/
theorem ceiling_le_effectivePriority :
    config.maxEffectivePriority ≤ effectivePriority base createdAt pauseDuration config now := by
  unfold effectivePriority
  rw [UInt8.le_iff_toNat_le, UInt8.toNat_max]
  exact Nat.le_max_right _ _

/-- A base priority at the ceiling stays there. -/
theorem effectivePriority_of_eq (h : base = config.maxEffectivePriority) :
    effectivePriority base createdAt pauseDuration config now = base := by
  have hbase := base.toNat_lt
  unfold effectivePriority
  rw [← h, ← UInt8.toNat_inj, UInt8.toNat_max, UInt8.toNat_ofNat_of_lt' (by unfold UInt8.size; omega)]
  omega

end Formula

/-! ### Promotions only -/

/-- Aging promotes tasks of the priorities from `p` on, and does nothing else to them; in Rust and in SQL. -/
structure AgingConfig.OnlyPromotes (config : AgingConfig) (p : Priority) : Prop where
  total : config.divisionPanics = false
  notDemoted : ∀ base ≥ p, ∀ createdAt pauseDuration now,
    effectivePriority base createdAt pauseDuration config now ≤ base
  grace : ∀ base ≥ p, ∀ createdAt pauseDuration now,
    ageMs createdAt pauseDuration now * 1000000 ≤ config.gracePeriod.nanos →
      effectivePriority base createdAt pauseDuration config now = base
  antitone : ∀ base ≥ p, ∀ createdAt pauseDuration now later, now ≤ later →
    effectivePriority base createdAt pauseDuration config later ≤
      effectivePriority base createdAt pauseDuration config now
  ceiling : ∀ base ≥ p, ∀ createdAt pauseDuration now,
    min base config.maxEffectivePriority ≤ effectivePriority base createdAt pauseDuration config now
  monotone : ∀ base ≥ p, ∀ base' ≥ base, ∀ createdAt pauseDuration now,
    effectivePriority base createdAt pauseDuration config now ≤
      effectivePriority base' createdAt pauseDuration config now
  sql : ∀ r : TaskRow, p ≤ r.priority → ∀ now, r.rank (some (.fromConfig config (now / 1000000))) =
    (effectivePriority r.priority r.createdAt r.pauseDurationMs config now).toNat
  noOvertaking : ∀ a b : TaskRow, p ≤ a.priority → a.priority < b.priority → ∀ now,
    ageMs a.createdAt a.pauseDurationMs now * 1000000 ≤ config.gracePeriod.nanos →
    ageMs b.createdAt b.pauseDurationMs now * 1000000 ≤ config.gracePeriod.nanos →
      a.rank (some (.fromConfig config (now / 1000000))) < b.rank (some (.fromConfig config (now / 1000000)))

/-- The durations keep their values as milliseconds in an `i64`; of the interval it is enough that it stays
positive. -/
def AgingConfig.Representable (config : AgingConfig) : Prop :=
  config.gracePeriod.asMillis < 2 ^ 63 ∧ 0 < config.intervalMs

section OnlyPromotes

variable {config : AgingConfig} {p : Priority}

/-- A task is not promoted during the grace period. -/
theorem promotions_of_unaged (h : config.Representable) {age : Int}
    (hage : age * 1000000 ≤ config.gracePeriod.nanos) :
    config.promotions age = 0 := by
  have hgrace : age ≤ config.graceMs := by
    unfold AgingConfig.graceMs
    rw [asI64_of_lt h.1]
    unfold Duration.asMillis
    omega
  unfold AgingConfig.promotions
  rw [max_eq_right (by omega), Int.zero_ediv]

theorem promotions_mono (h : config.Representable) {age older : Int} (hage : age ≤ older) :
    config.promotions age ≤ config.promotions older :=
  Int.ediv_le_ediv h.2 (by omega)

theorem promotions_nonneg (h : config.Representable) (age : Int) : 0 ≤ config.promotions age :=
  Int.ediv_nonneg (le_max_right _ _) (le_of_lt h.2)

/-- The ceiling is not above the priorities, and the durations are representable. -/
theorem onlyPromotes_of_representable (h : config.Representable) (hp : config.maxEffectivePriority ≤ p) :
    config.OnlyPromotes p := by
  have htoNat : ∀ base createdAt pauseDuration now,
      ((effectivePriority base createdAt pauseDuration config now).toNat : Int) =
        max (base.toNat - config.promotions (ageMs createdAt pauseDuration now)) config.maxEffectivePriority.toNat :=
    fun _ _ _ _ => effectivePriority_toNat h.2
  have hceiling : ∀ base ≥ p, config.maxEffectivePriority.toNat ≤ base.toNat := fun base hbase =>
    UInt8.le_iff_toNat_le.1 (UInt8.le_trans hp hbase)
  have hgrace : ∀ base ≥ p, ∀ createdAt pauseDuration now,
      ageMs createdAt pauseDuration now * 1000000 ≤ config.gracePeriod.nanos →
        effectivePriority base createdAt pauseDuration config now = base := by
    intro base hbase createdAt pauseDuration now hage
    have heq := htoNat base createdAt pauseDuration now
    have := hceiling base hbase
    rw [promotions_of_unaged h hage] at heq
    exact UInt8.toNat_inj.1 (by omega)
  have hsql : ∀ r : TaskRow, p ≤ r.priority → ∀ now, r.rank (some (.fromConfig config (now / 1000000))) =
      (effectivePriority r.priority r.createdAt r.pauseDurationMs config now).toNat :=
    fun r _ now => rank_eq_effectivePriority h.2 r
  refine ⟨?_, ?_, hgrace, ?_, ?_, ?_, hsql, ?_⟩
  · have := h.2
    unfold AgingConfig.divisionPanics
    rw [beq_eq_false_iff_ne]
    omega
  · intro base hbase createdAt pauseDuration now
    have heq := htoNat base createdAt pauseDuration now
    have := hceiling base hbase
    have := promotions_nonneg h (ageMs createdAt pauseDuration now)
    rw [UInt8.le_iff_toNat_le]
    omega
  · intro base hbase createdAt pauseDuration now later hlater
    have heq := htoNat base createdAt pauseDuration now
    have heq' := htoNat base createdAt pauseDuration later
    have hage : ageMs createdAt pauseDuration now ≤ ageMs createdAt pauseDuration later := by
      have := Int.ediv_le_ediv (a := now) (b := later) (c := 1000000) (by decide) hlater
      unfold ageMs
      omega
    have := promotions_mono h hage
    rw [UInt8.le_iff_toNat_le]
    omega
  · intro base _ createdAt pauseDuration now
    have hle : config.maxEffectivePriority ≤ effectivePriority base createdAt pauseDuration config now :=
      ceiling_le_effectivePriority
    rw [UInt8.le_iff_toNat_le] at hle
    rw [UInt8.le_iff_toNat_le, UInt8.toNat_min]
    omega
  · intro base _ base' hbase' createdAt pauseDuration now
    have heq := htoNat base createdAt pauseDuration now
    have heq' := htoNat base' createdAt pauseDuration now
    have := UInt8.le_iff_toNat_le.1 hbase'
    rw [UInt8.le_iff_toNat_le]
    omega
  · intro a b ha hab now hagea hageb
    have hb : p ≤ b.priority := UInt8.le_trans ha (UInt8.le_of_lt hab)
    rw [hsql a ha now, hsql b hb now, hgrace a.priority ha _ _ _ hagea, hgrace b.priority hb _ _ _ hageb]
    exact_mod_cast UInt8.lt_iff_toNat_lt.1 hab

/-- With the lowest ceiling nothing ages. -/
theorem onlyPromotes_of_lowest (h : config.divisionPanics = false) (hlowest : config.maxEffectivePriority = 255)
    (hp : config.maxEffectivePriority ≤ p) : config.OnlyPromotes p := by
  have hbase : ∀ base ≥ p, base = config.maxEffectivePriority := by
    intro base hbase
    have hle := UInt8.le_iff_toNat_le.1 (UInt8.le_trans hp hbase)
    have hlt := base.toNat_lt
    rw [hlowest] at hle ⊢
    have h255 : (255 : Priority).toNat = 255 := rfl
    exact UInt8.toNat_inj.1 (by omega)
  have hstays : ∀ base ≥ p, ∀ createdAt pauseDuration now,
      effectivePriority base createdAt pauseDuration config now = base :=
    fun base hb _ _ _ => effectivePriority_of_eq (hbase base hb)
  refine ⟨h, ?_, ?_, ?_, ?_, ?_, ?_, ?_⟩
  · intro base hb createdAt pauseDuration now
    rw [hstays base hb]
    exact UInt8.le_refl base
  · intro base hb createdAt pauseDuration now _
    exact hstays base hb createdAt pauseDuration now
  · intro base hb createdAt pauseDuration now later _
    rw [hstays base hb, hstays base hb]
    exact UInt8.le_refl base
  · intro base hb createdAt pauseDuration now
    rw [hstays base hb, ← hbase base hb, UInt8.le_iff_toNat_le, UInt8.toNat_min]
    omega
  · intro base hb base' hb' createdAt pauseDuration now
    rw [hstays base hb, hstays base' (UInt8.le_trans hb hb')]
    exact hb'
  · intro r hr now
    rw [hstays r.priority hr]
    unfold TaskRow.rank AgingParams.fromConfig
    dsimp only
    rw [← hbase r.priority hr]
    omega
  · intro a b ha hab
    have hb := hbase b.priority (UInt8.le_trans ha (UInt8.le_of_lt hab))
    rw [hbase a.priority ha, hb] at hab
    exact absurd hab (UInt8.lt_irrefl _)

/-- An interval that is negative as an `i64` makes promotions come and go. -/
theorem not_antitone_of_neg (h : config.intervalMs < 0) (hceiling : config.maxEffectivePriority < 255) :
    ∃ now later, now ≤ later ∧ ¬effectivePriority 255 0 0 config later ≤ effectivePriority 255 0 0 config now := by
  have hpromotions : ∀ k : Nat, effectivePriority 255 0 0 config
    ((config.graceMs - k * config.intervalMs) * 1000000) =
      max (UInt8.ofNat (255 - (UInt8.ofInt (-k)).toNat)) config.maxEffectivePriority := by
    intro k
    have hpos : 0 ≤ -(k * config.intervalMs) := by
      rw [← Int.mul_neg]
      exact Int.mul_nonneg (by omega) (by omega)
    have hage : max (ageMs 0 0 ((config.graceMs - k * config.intervalMs) * 1000000) - config.graceMs) 0 =
        -k * config.intervalMs := by
      unfold ageMs
      rw [Int.mul_ediv_cancel _ (by decide), Int.neg_mul]
      omega
    unfold effectivePriority
    rw [hage, Int.mul_tdiv_cancel _ (by omega), min_eq_left (by omega)]
    rfl
  refine ⟨(config.graceMs - (1 : Nat) * config.intervalMs) * 1000000,
    (config.graceMs - (256 : Nat) * config.intervalMs) * 1000000, by omega, ?_⟩
  · rw [hpromotions 1, hpromotions 256]
    have hlow : UInt8.ofNat (255 - (UInt8.ofInt (-(1 : Nat))).toNat) = 0 := by decide
    have hhigh : UInt8.ofNat (255 - (UInt8.ofInt (-(256 : Nat))).toNat) = 255 := by decide
    rw [hlow, hhigh, UInt8.le_iff_toNat_le, UInt8.toNat_max, UInt8.toNat_max]
    have hlt := UInt8.lt_iff_toNat_lt.1 hceiling
    have h255 : (255 : Priority).toNat = 255 := rfl
    have h0 : (0 : Priority).toNat = 0 := rfl
    omega

/-- A grace period that is too long for an `i64` is taken for a shorter one. -/
theorem not_grace_of_wrapped (h : 0 < config.intervalMs) (hgrace : ¬config.gracePeriod.asMillis < 2 ^ 63)
    (hceiling : config.maxEffectivePriority < 255) :
    ∃ now, ageMs 0 0 now * 1000000 ≤ config.gracePeriod.nanos ∧ effectivePriority 255 0 0 config now ≠ 255 := by
  have hage : ageMs 0 0 (config.gracePeriod.asMillis * 1000000) = config.gracePeriod.asMillis := by
    unfold ageMs
    omega
  refine ⟨config.gracePeriod.asMillis * 1000000, ?_, ?_⟩
  · rw [hage]
    unfold Duration.asMillis
    omega
  · have heq : ((effectivePriority 255 0 0 config (config.gracePeriod.asMillis * 1000000)).toNat : Int) =
        max _ _ := effectivePriority_toNat h
    -- the value that is used is smaller by a multiple of 2 ^ 64, and the interval is not that long
    have hwrap : config.graceMs + 2 ^ 64 ≤ config.gracePeriod.asMillis := by
      have hlt := (asI64_bounds config.gracePeriod.asMillis).2
      have hdvd : ((2 ^ 64 : Nat) : Int) ∣ config.gracePeriod.asMillis - asI64 config.gracePeriod.asMillis :=
        Int.dvd_self_sub_bmod
      unfold AgingConfig.graceMs
      omega
    have hinterval : config.intervalMs < 2 ^ 63 := (asI64_bounds _).2
    have hone : 1 ≤ config.promotions config.gracePeriod.asMillis := by
      unfold AgingConfig.promotions
      rw [Int.le_ediv_iff_mul_le h]
      omega
    have hlt := UInt8.lt_iff_toNat_lt.1 hceiling
    have h255 : (255 : Priority).toNat = 255 := rfl
    rw [hage] at heq
    intro hne
    rw [hne] at heq
    omega

/-- Aging only promotes the tasks that are not above the ceiling. -/
theorem onlyPromotes_iff (config : AgingConfig) (p : Priority) :
    config.OnlyPromotes p ↔ config.maxEffectivePriority ≤ p ∧ config.divisionPanics = false ∧
      (config.maxEffectivePriority = 255 ∨ config.Representable) := by
  constructor
  · intro h
    have hceiling : config.maxEffectivePriority ≤ p :=
      UInt8.le_trans ceiling_le_effectivePriority (h.notDemoted p (UInt8.le_refl p) 0 0 0)
    refine ⟨hceiling, h.total, ?_⟩
    by_cases hlowest : config.maxEffectivePriority = 255
    · exact .inl hlowest
    · right
      have hlt : config.maxEffectivePriority < 255 := UInt8.lt_of_le_of_ne (UInt8.le_iff_toNat_le.2 (by
        have := config.maxEffectivePriority.toNat_lt
        have h255 : (255 : Priority).toNat = 255 := rfl
        omega)) hlowest
      have hp : (255 : Priority) ≥ p := UInt8.le_iff_toNat_le.2 (by
        have := p.toNat_lt
        have h255 : (255 : Priority).toNat = 255 := rfl
        omega)
      have hinterval : 0 < config.intervalMs := by
        have htotal := h.total
        unfold AgingConfig.divisionPanics at htotal
        rw [beq_eq_false_iff_ne] at htotal
        by_contra hneg
        have hneg' : config.intervalMs < 0 := by omega
        obtain ⟨now, later, hle, hnot⟩ := not_antitone_of_neg hneg' hlt
        exact hnot (h.antitone 255 hp 0 0 now later hle)
      refine ⟨?_, hinterval⟩
      by_contra hgrace
      obtain ⟨now, hage, hne⟩ := not_grace_of_wrapped hinterval hgrace hlt
      exact hne (h.grace 255 hp 0 0 now hage)
  · rintro ⟨hceiling, htotal, hlowest | hrepr⟩
    · exact onlyPromotes_of_lowest htotal hlowest hceiling
    · exact onlyPromotes_of_representable hrepr hceiling

end OnlyPromotes

/-- With the default configuration a realtime task that has just been submitted is as urgent as a high one, and
comes after it if its id is larger. -/
theorem realtime_demoted : AgingConfig.default.validate.isOk = true ∧ effectivePriority 0 0 0 .default 0 = 64 ∧
    ¬AgingConfig.default.OnlyPromotes 0 := by
  refine ⟨by decide, by decide, fun h => ?_⟩
  exact absurd (h.notDemoted 0 (by decide) 0 0 0) (by decide)

end Taskmill
