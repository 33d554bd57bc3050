import Taskmill.Metering.Rounding
import Taskmill.Scheduler.Retries
import Mathlib.Data.Rat.Floor

/-!
# Retry delays

The delay before a retry (`src/task/retry.rs`) and the time that `requeue_for_retry` and `fail_inner` store for it,
with the ranges of the types: `Duration` panics when it overflows, the milliseconds are cut to 64 bits with a sign,
and the addition to the clock panics past the last time that chrono represents.  `mul_f64` computes with seconds in
floating point; only the power of the multiplier is exact.  The clock counts nanoseconds.

The cap of a strategy is applied after the multiplication.  So a delay is computed if and only if the delay without
its cap is a `Duration`, and the time that is stored is not too early if and only if clock and delay are whole
numbers of milliseconds that fit and end in the range of the clock, or if it is the last one (`retry_delay_iff`).
-/

namespace Taskmill

open Transact

/-! ### `Duration` -/

/-- The nanoseconds of the first duration that is too long. -/
def Duration.bound : Nat := 2 ^ 64 * 1000000000

/-- `Duration + Duration` -/
def Duration.add (d e : Duration) : Option Duration := Duration.checked (d.nanos + e.nanos)

/-- `Duration * u32` -/
def Duration.mul (d : Duration) (n : Nat) : Option Duration := Duration.checked (d.nanos * n)

/-- The `f64` that is nearest to a number in its range: 52 digits follow the first one. -/
def f64 (x : ℚ) : ℚ := Metering.roundBinary 52 x

/-- `as_secs_f64`: `self.secs as f64 + self.nanos as f64 / NANOS_PER_SEC as f64` -/
def Duration.asSecsF64 (d : Duration) : ℚ :=
  f64 (f64 (d.nanos / 1000000000 : Nat) + f64 ((d.nanos % 1000000000 : Nat) / 1000000000))

/-- `from_secs_f64`, `none` where it panics. -/
def Duration.fromSecsF64 (secs : ℚ) : Option Duration :=
  if 0 ≤ secs ∧ secs < 2 ^ 64 then some ⟨(Metering.nearestEven (secs * 1000000000)).toNat⟩ else none

/-- `mul_f64`: `Duration::from_secs_f64(rhs * self.as_secs_f64())` -/
def Duration.mulF64 (d : Duration) (rhs : ℚ) : Option Duration := Duration.fromSecsF64 (f64 (rhs * d.asSecsF64))

/-! ### `BackoffStrategy` -/

/-- `BackoffStrategy` with its fields. -/
inductive Backoff where
  | constant (delay : Duration)
  | linear (initial increment max : Duration)
  | exponential (initial max : Duration) (multiplier : ℚ)
  | exponentialJitter (initial max : Duration) (multiplier : ℚ)

namespace Backoff

/-- `delay_for`; `draw b` is the result of `fastrand::u64(0..=b)`. -/
def delayFor (draw : Nat → Nat) (retryCount : Nat) : Backoff → Option Duration
  | .constant delay => some delay
  | .linear initial increment max => do
    let grown ← increment.mul retryCount
    let d ← initial.add grown
    pure (d.min max)
  | .exponential initial max multiplier => do
    let d ← initial.mulF64 (multiplier ^ retryCount)
    pure (d.min max)
  | .exponentialJitter initial max multiplier => do
    let d ← initial.mulF64 (multiplier ^ retryCount)
    let baseMs := (d.min max).asMillis % 2 ^ 64
    if baseMs = 0 then pure ⟨0⟩ else pure ⟨draw baseMs * 1000000⟩

/-- The strategy of the scheduler, for which the powers are given. -/
def strategy : Backoff → BackoffStrategy
  | .constant delay => .constant delay
  | .linear initial increment max => .linear initial increment max
  | .exponential initial max multiplier => .exponential (fun n => initial.mulF64 (multiplier ^ n)) max
  | .exponentialJitter initial max multiplier => .exponentialJitter (fun n => initial.mulF64 (multiplier ^ n)) max

/-- The growth of an exponential strategy, in seconds. -/
def growth (initial : Duration) (multiplier : ℚ) (retryCount : Nat) : ℚ :=
  f64 (multiplier ^ retryCount * initial.asSecsF64)

/-- The nanoseconds before the cap. -/
def uncapped (retryCount : Nat) : Backoff → Nat
  | .constant delay => delay.nanos
  | .linear initial increment _ => initial.nanos + increment.nanos * retryCount
  | .exponential initial _ multiplier | .exponentialJitter initial _ multiplier =>
    (Metering.nearestEven (growth initial multiplier retryCount * 1000000000)).toNat

/-- The delay before the cap is below `2 ^ 64` seconds, and not negative. -/
def FitsUncapped (retryCount : Nat) : Backoff → Prop
  | .constant _ => True
  | .linear initial increment _ => initial.nanos + increment.nanos * retryCount < Duration.bound
  | .exponential initial _ multiplier | .exponentialJitter initial _ multiplier =>
    0 ≤ growth initial multiplier retryCount ∧ growth initial multiplier retryCount < 2 ^ 64

def cap : Backoff → Option Duration
  | .constant _ => none
  | .linear _ _ max | .exponential _ max _ | .exponentialJitter _ max _ => some max

/-- The delay that is meant: the growth, up to the cap, and the draw from what that gives. -/
def ideal (draw : Nat → Nat) (retryCount : Nat) (strategy : Backoff) : Duration :=
  match strategy with
  | .constant delay => delay
  | .linear _ _ max | .exponential _ max _ => ⟨Nat.min (strategy.uncapped retryCount) max.nanos⟩
  | .exponentialJitter _ max _ =>
    let baseMs := Nat.min (strategy.uncapped retryCount) max.nanos / 1000000 % 2 ^ 64
    ⟨if baseMs = 0 then 0 else draw baseMs * 1000000⟩

/-- The delay grows with the number of retries. -/
def Grows : Backoff → Prop
  | .linear .. => True
  | .exponential _ _ multiplier => 1 ≤ multiplier
  | _ => False

/-- The delay is computed, is not above the cap, and not below the delays before it. -/
structure Sound (draw : Nat → Nat) (retryCount : Nat) (strategy : Backoff) : Prop where
  returns : (strategy.delayFor draw retryCount).isSome = true
  capped : ∀ d max, strategy.delayFor draw retryCount = some d → strategy.cap = some max → d.nanos ≤ max.nanos
  grows : strategy.Grows → ∀ earlier ≤ retryCount, ∃ d d', strategy.delayFor draw earlier = some d ∧
    strategy.delayFor draw retryCount = some d' ∧ d.nanos ≤ d'.nanos

end Backoff

/-! ### The time of the retry -/

/-- The times, in nanoseconds, that `chrono::DateTime` represents. -/
structure ClockRange where
  earliest : Int
  latest : Int

/-- `(Utc::now() + chrono::Duration::milliseconds(delay.as_millis() as i64)).timestamp_millis()`; `milliseconds`
refuses `i64::MIN`. -/
def ClockRange.retryAt (clock : ClockRange) (now : Int) (delay : Duration) : Option Int :=
  let ms := asI64 delay.asMillis
  if ms = -2 ^ 63 then none
  else if clock.earliest ≤ now + ms * 1000000 ∧
    now + ms * 1000000 ≤ clock.latest then some ((now + ms * 1000000) / 1000000)
  else none

/-- The `UPDATE` of `requeue_for_retry` and `fail_inner`. -/
def TaskRow.retryAt (clock : ClockRange) (error : String) (delay : Duration) (now : Int) (r : TaskRow) :
    Option TaskRow :=
  if delay.isZero then
    some { r with status := .pending, startedAt := none, retryCount := r.retryCount + 1, lastError := some error }
  else do
    let runAfter ← clock.retryAt now delay
    pure
      { r with
        status := .pending
        startedAt := none
        retryCount := r.retryCount + 1
        lastError := some error
        runAfter := some runAfter }

/-- A delay of zero, whole milliseconds that fit and end in the range, or a cut that ends in its last millisecond. -/
def ClockRange.EndsInRange (clock : ClockRange) (now : Int) (delay : Duration) : Prop :=
  delay.isZero = true ∨
    (now % 1000000 = 0 ∧ delay.nanos % 1000000 = 0 ∧ delay.asMillis < 2 ^ 63 ∧ now + delay.nanos ≤ clock.latest) ∨
    (clock.earliest ≤ now + asI64 delay.asMillis * 1000000 ∧ now + asI64 delay.asMillis * 1000000 ≤ clock.latest ∧
      (now + asI64 delay.asMillis * 1000000) / 1000000 = clock.latest / 1000000)

/-- What is known about the backoff of a failure: the strategy and the delay that the executor asks for. -/
structure RetryBackoff where
  strategy : Option Backoff
  executorRetryAfterMs : Option Nat

namespace RetryBackoff

/-- The delay of `fail_inner`, `handle_failure` and the inline retry. -/
def delay (b : RetryBackoff) (draw : Nat → Nat) (retryCount : Nat) : Option Duration :=
  match b.executorRetryAfterMs, b.strategy with
  | some ms, _ => some ⟨ms * 1000000⟩
  | none, some strategy => strategy.delayFor draw retryCount
  | none, none => some ⟨0⟩

/-- The delay that is meant. -/
def ideal (b : RetryBackoff) (draw : Nat → Nat) (retryCount : Nat) : Duration :=
  match b.executorRetryAfterMs, b.strategy with
  | some ms, _ => ⟨ms * 1000000⟩
  | none, some strategy => strategy.ideal draw retryCount
  | none, none => ⟨0⟩

/-- The strategy computes its delays, and the row of a task that is retried with a delay is stored with a time that
is not before its end, or with the last millisecond that can be represented if that is before it. -/
structure Schedules (clock : ClockRange) (draw : Nat → Nat) (retryCount : Nat) (now : Int)
    (b : RetryBackoff) : Prop where
  delays : ∀ strategy ∈ b.strategy, strategy.Sound draw retryCount
  stored : ∃ delay, b.delay draw retryCount = some delay ∧ ∀ (error : String) (r : TaskRow),
    ∃ r', r.retryAt clock error delay now = some r' ∧ (delay.isZero = false →
      ∃ t, r'.runAfter = some t ∧ min (now + delay.nanos) (clock.latest / 1000000 * 1000000) ≤ t * 1000000)

/-- The delays without their cap are durations, and the delay that is meant is zero, or it and the clock are whole
numbers of milliseconds that fit and end in the range of the clock, or what is left of it after the cut ends in the
last millisecond of this range. -/
def InRange (clock : ClockRange) (draw : Nat → Nat) (retryCount : Nat) (now : Int) (b : RetryBackoff) : Prop :=
  (∀ strategy ∈ b.strategy, strategy.FitsUncapped retryCount) ∧ clock.EndsInRange now (b.ideal draw retryCount)

end RetryBackoff

/-! ### The strategies -/

section Strategies

variable {draw : Nat → Nat} {n : Nat} {strategy : Backoff}

private theorem checked_eq_some {nanos : Nat} (h : nanos < Duration.bound) :
    Duration.checked nanos = some ⟨nanos⟩ := by
  have hle : nanos ≤ Duration.maxNanos := Nat.le_sub_one_of_lt h
  rw [Duration.checked, if_pos hle]

private theorem checked_eq_none {nanos : Nat} (h : ¬ nanos < Duration.bound) : Duration.checked nanos = none := by
  have hlt : ¬ nanos ≤ Duration.maxNanos := fun hle => h (Nat.lt_of_le_sub_one (by decide) hle)
  rw [Duration.checked, if_neg hlt]

private theorem capped_nanos (d e : Duration) : (d.min e).nanos = Nat.min d.nanos e.nanos := by
  rw [Duration.min]
  split
  · exact (Nat.min_eq_right (by omega)).symm
  · exact (Nat.min_eq_left (by omega)).symm

private theorem capped_eq (d e : Duration) : d.min e = ⟨Nat.min d.nanos e.nanos⟩ :=
  congrArg Duration.mk (capped_nanos d e)

/-- The scheduler's strategy computes this delay. -/
theorem Backoff.delayFor_strategy (n random : Nat) (b : Backoff) :
    b.strategy.delayFor n random = b.delayFor (fun bound => random % (bound + 1)) n := by
  cases b with
  | constant delay => rfl
  | linear initial increment max => rfl
  | exponential initial max multiplier =>
    show (initial.mulF64 (multiplier ^ n)).map _ = (initial.mulF64 (multiplier ^ n)).bind _
    cases initial.mulF64 (multiplier ^ n) with
    | none => rfl
    | some d => rfl
  | exponentialJitter initial max multiplier =>
    show (initial.mulF64 (multiplier ^ n)).map _ = (initial.mulF64 (multiplier ^ n)).bind _
    cases initial.mulF64 (multiplier ^ n) with
    | none => rfl
    | some d =>
      rw [Option.map_some, Option.bind_some]
      dsimp only
      split
      · rfl
      · rfl

private theorem mulF64_eq (initial : Duration) (multiplier : ℚ) :
    initial.mulF64 (multiplier ^ n) =
      if 0 ≤ Backoff.growth initial multiplier n ∧ Backoff.growth initial multiplier n < 2 ^ 64 then
        some ⟨(Metering.nearestEven (Backoff.growth initial multiplier n * 1000000000)).toNat⟩
      else none := rfl

/-- The delay is the one that is meant, unless the multiplication or the addition overflows. -/
theorem Backoff.delayFor_of_fits (draw : Nat → Nat) (h : strategy.FitsUncapped n) :
    strategy.delayFor draw n = some (strategy.ideal draw n) := by
  cases strategy with
  | constant delay => rfl
  | linear initial increment max =>
    have hadd : initial.nanos + increment.nanos * n < Duration.bound := h
    have hmul : increment.nanos * n < Duration.bound := by omega
    rw [delayFor, Duration.mul, checked_eq_some hmul, Option.bind_eq_bind, Option.bind_some, Duration.add,
      checked_eq_some hadd]
    exact congrArg some (capped_eq _ max)
  | exponential initial max multiplier =>
    have hgrowth : 0 ≤ growth initial multiplier n ∧ growth initial multiplier n < 2 ^ 64 := h
    rw [delayFor, mulF64_eq, if_pos hgrowth]
    exact congrArg some (capped_eq _ max)
  | exponentialJitter initial max multiplier =>
    have hgrowth : 0 ≤ growth initial multiplier n ∧ growth initial multiplier n < 2 ^ 64 := h
    rw [delayFor, mulF64_eq, if_pos hgrowth, Option.bind_eq_bind, Option.bind_some, ideal, capped_eq]
    unfold uncapped Duration.asMillis
    dsimp only
    split
    · rfl
    · rfl

theorem Backoff.delayFor_of_not_fits (draw : Nat → Nat) (h : ¬ strategy.FitsUncapped n) :
    strategy.delayFor draw n = none := by
  cases strategy with
  | constant delay => exact absurd trivial h
  | linear initial increment max =>
    have hadd : ¬ initial.nanos + increment.nanos * n < Duration.bound := h
    rw [delayFor, Duration.mul]
    by_cases hmul : increment.nanos * n < Duration.bound
    · rw [checked_eq_some hmul, Option.bind_eq_bind, Option.bind_some, Duration.add, checked_eq_none hadd]
      rfl
    · rw [checked_eq_none hmul]
      rfl
  | exponential initial max multiplier =>
    have hgrowth : ¬ (0 ≤ growth initial multiplier n ∧ growth initial multiplier n < 2 ^ 64) := h
    rw [delayFor, mulF64_eq, if_neg hgrowth]
    rfl
  | exponentialJitter initial max multiplier =>
    have hgrowth : ¬ (0 ≤ growth initial multiplier n ∧ growth initial multiplier n < 2 ^ 64) := h
    rw [delayFor, mulF64_eq, if_neg hgrowth]
    rfl

/-- The cap is kept. -/
theorem Backoff.ideal_le_cap (hdraw : ∀ b, draw b ≤ b) {max : Duration} (h : strategy.cap = some max) :
    (strategy.ideal draw n).nanos ≤ max.nanos := by
  cases strategy with
  | constant delay => cases h
  | linear initial increment max =>
    cases h
    exact Nat.min_le_right _ _
  | exponential initial max multiplier =>
    cases h
    exact Nat.min_le_right _ _
  | exponentialJitter initial max multiplier =>
    cases h
    unfold ideal
    dsimp only
    split
    · exact Nat.zero_le _
    · have hle := hdraw (Nat.min ((exponentialJitter initial max multiplier).uncapped n) max.nanos / 1000000 % 2 ^ 64)
      have hmod := Nat.mod_le (Nat.min ((exponentialJitter initial max multiplier).uncapped n) max.nanos / 1000000)
        (2 ^ 64)
      have hmin : Nat.min ((exponentialJitter initial max multiplier).uncapped n) max.nanos ≤ max.nanos :=
        Nat.min_le_right _ _
      omega

theorem Duration.asSecsF64_nonneg (d : Duration) : 0 ≤ d.asSecsF64 := by
  have hsecs : 0 ≤ f64 (d.nanos / 1000000000 : Nat) := Metering.roundBinary_nonneg 52 (Nat.cast_nonneg _)
  have hnanos : 0 ≤ f64 ((d.nanos % 1000000000 : Nat) / 1000000000) := Metering.roundBinary_nonneg 52 (by positivity)
  exact Metering.roundBinary_nonneg 52 (add_nonneg hsecs hnanos)

private theorem growth_nonneg (initial : Duration) {multiplier : ℚ} (h : 0 ≤ multiplier) :
    0 ≤ Backoff.growth initial multiplier n :=
  Metering.roundBinary_nonneg 52 (mul_nonneg (pow_nonneg h n) initial.asSecsF64_nonneg)

private theorem growth_mono (initial : Duration) {multiplier : ℚ} (hone : 1 ≤ multiplier) {earlier : Nat}
    (h : earlier ≤ n) :
    Backoff.growth initial multiplier earlier ≤ Backoff.growth initial multiplier n := by
  have hpow : multiplier ^ earlier ≤ multiplier ^ n := pow_le_pow_right₀ hone h
  have hsecs := initial.asSecsF64_nonneg
  have hearlier : 0 ≤ multiplier ^ earlier := pow_nonneg (by linarith) earlier
  exact Metering.roundBinary_mono 52 (mul_nonneg hearlier hsecs) (mul_le_mul_of_nonneg_right hpow hsecs)

/-- Without the cap the delay grows. -/
theorem Backoff.uncapped_mono (hg : strategy.Grows) {earlier : Nat} (h : earlier ≤ n) :
    strategy.uncapped earlier ≤ strategy.uncapped n := by
  cases strategy with
  | constant delay => cases hg
  | linear initial increment max =>
    have hmul : increment.nanos * earlier ≤ increment.nanos * n := Nat.mul_le_mul_left _ h
    exact Nat.add_le_add_left hmul _
  | exponential initial max multiplier =>
    have hgrowth := growth_mono initial hg h
    exact Int.toNat_le_toNat (Metering.nearestEven_mono (mul_le_mul_of_nonneg_right hgrowth (by norm_num)))
  | exponentialJitter initial max multiplier => cases hg

/-- If it is a duration after so many retries, it was one before. -/
theorem Backoff.fitsUncapped_of_le (hg : strategy.Grows) {earlier : Nat} (h : earlier ≤ n)
    (hfits : strategy.FitsUncapped n) : strategy.FitsUncapped earlier := by
  cases strategy with
  | constant delay => cases hg
  | linear initial increment max =>
    have hmul : increment.nanos * earlier ≤ increment.nanos * n := Nat.mul_le_mul_left _ h
    exact Nat.lt_of_le_of_lt (Nat.add_le_add_left hmul _) hfits
  | exponential initial max multiplier =>
    have hone : 1 ≤ multiplier := hg
    exact ⟨growth_nonneg initial (by linarith), (growth_mono initial hone h).trans_lt hfits.2⟩
  | exponentialJitter initial max multiplier => cases hg

/-- So does the delay with it. -/
private theorem ideal_mono (hg : strategy.Grows) {earlier : Nat} (h : earlier ≤ n) :
    (strategy.ideal draw earlier).nanos ≤ (strategy.ideal draw n).nanos := by
  have hle := strategy.uncapped_mono hg h
  cases strategy with
  | constant delay => cases hg
  | linear initial increment max => exact min_le_min_right _ hle
  | exponential initial max multiplier => exact min_le_min_right _ hle
  | exponentialJitter initial max multiplier => cases hg

theorem Backoff.sound_iff (hdraw : ∀ b, draw b ≤ b) : strategy.Sound draw n ↔ strategy.FitsUncapped n := by
  constructor
  · intro h
    by_contra hnot
    have hreturns := h.returns
    rw [delayFor_of_not_fits draw hnot] at hreturns
    cases hreturns
  · intro h
    have hdelay := delayFor_of_fits draw h
    refine ⟨by rw [hdelay]; rfl, fun d max hd hcap => ?_, fun hg earlier hle => ?_⟩
    · rw [hdelay] at hd
      cases hd
      exact ideal_le_cap hdraw hcap
    · have hearlier := strategy.fitsUncapped_of_le hg hle h
      exact ⟨_, _, delayFor_of_fits draw hearlier, hdelay, ideal_mono hg hle⟩

end Strategies

/-! ### The times -/

section Times

variable {clock : ClockRange} {now : Int} {delay : Duration} {r : TaskRow}

/-- The time that is stored is not too early. -/
private theorem retryAt_iff (hnow : clock.earliest ≤ now ∧ now ≤ clock.latest) (hdelay : delay.isZero = false) :
    (∃ t, clock.retryAt now delay = some t ∧
      min (now + delay.nanos) (clock.latest / 1000000 * 1000000) ≤ t * 1000000) ↔ clock.EndsInRange now delay := by
  have hle := asI64_le delay.asMillis
  have hwhole := le_asI64_iff (n := delay.asMillis)
  have hms : delay.asMillis = delay.nanos / 1000000 := rfl
  rw [ClockRange.retryAt, ClockRange.EndsInRange, hdelay, or_iff_right Bool.false_ne_true]
  generalize asI64 delay.asMillis = ms at hle hwhole ⊢
  constructor
  · rintro ⟨t, ht, hlate⟩
    split at ht
    · cases ht
    · split at ht
      · cases ht
        omega
      · cases ht
  · intro h
    have hne : ¬ ms = -2 ^ 63 := by omega
    have hin : clock.earliest ≤ now + ms * 1000000 ∧ now + ms * 1000000 ≤ clock.latest := by omega
    rw [if_neg hne, if_pos hin]
    refine ⟨_, rfl, ?_⟩
    omega

/-- In the range the row is the one of the model without ranges. -/
theorem TaskRow.retryAt_eq_retry (hnow : clock.earliest ≤ now) (error : String) (r : TaskRow)
    (h : delay.isZero = true ∨ delay.asMillis < 2 ^ 63 ∧ now + delay.asMillis * 1000000 ≤ clock.latest) :
    r.retryAt clock error delay now = some (r.retry error delay (now / 1000000)) := by
  unfold TaskRow.retryAt TaskRow.retry
  by_cases hzero : delay.isZero = true
  · rw [if_pos hzero, if_pos hzero]
  · have hfits := h.resolve_left hzero
    have hat : clock.retryAt now delay = some (now / 1000000 + delay.asMillis) := by
      rw [ClockRange.retryAt, asI64_of_lt hfits.1, if_neg (by omega), if_pos (by omega),
        Int.add_mul_ediv_right _ _ (by decide)]
    rw [if_neg hzero, if_neg hzero, hat]
    rfl

/-- The row of a task that is retried with this delay. -/
private theorem stored_iff (hnow : clock.earliest ≤ now ∧ now ≤ clock.latest) :
    (∀ (error : String) (r : TaskRow), ∃ r', r.retryAt clock error delay now = some r' ∧ (delay.isZero = false →
      ∃ t, r'.runAfter = some t ∧ min (now + delay.nanos) (clock.latest / 1000000 * 1000000) ≤ t * 1000000)) ↔
      clock.EndsInRange now delay := by
  cases hzero : delay.isZero with
  | true =>
    refine ⟨fun _ => .inl hzero, fun _ error r => ?_⟩
    rw [TaskRow.retryAt, if_pos hzero]
    exact ⟨_, rfl, nofun⟩
  | false =>
    rw [← retryAt_iff hnow hzero]
    have hrow (error : String) (r : TaskRow) : r.retryAt clock error delay now =
        (clock.retryAt now delay).map fun t =>
          { r with
            status := .pending
            startedAt := none
            retryCount := r.retryCount + 1
            lastError := some error
            runAfter := some t } := by
      rw [TaskRow.retryAt, if_neg (by rw [hzero]; nofun)]
      cases clock.retryAt now delay with
      | none => rfl
      | some t => rfl
    constructor
    · intro h
      obtain ⟨r', hr', hstored⟩ := h "" ((TaskSubmission.new "").newRow "" 0)
      rw [hrow, Option.map_eq_some_iff] at hr'
      obtain ⟨t, ht, rfl⟩ := hr'
      obtain ⟨t', ht', hle⟩ := hstored rfl
      cases ht'
      exact ⟨t, ht, hle⟩
    · rintro ⟨t, ht, hle⟩ error r
      rw [hrow, ht]
      exact ⟨_, rfl, fun _ => ⟨t, rfl, hle⟩⟩

end Times

/-- Retries are scheduled as they should be if and only if all values are in their ranges.  The strategies are those
of the scheduler, and a row with a delay in range is the one that its model stores. -/
theorem retry_delay_iff (clock : ClockRange) (draw : Nat → Nat) (hdraw : ∀ b, draw b ≤ b)
    (retryCount : Nat) (now : Int) (hnow : clock.earliest ≤ now ∧ now ≤ clock.latest) (b : RetryBackoff) :
    (b.Schedules clock draw retryCount now ↔ b.InRange clock draw retryCount now) ∧
      (∀ strategy ∈ b.strategy, ∀ random, strategy.strategy.delayFor retryCount random =
        strategy.delayFor (fun bound => random % (bound + 1)) retryCount) ∧
      ∀ (delay : Duration) (error : String) (r : TaskRow),
        delay.isZero = true ∨ delay.asMillis < 2 ^ 63 ∧ now + delay.asMillis * 1000000 ≤ clock.latest →
        r.retryAt clock error delay now = some (r.retry error delay (now / 1000000)) := by
  refine ⟨?_, fun strategy _ random => strategy.delayFor_strategy retryCount random,
    fun delay error r hrange => TaskRow.retryAt_eq_retry hnow.1 error r hrange⟩
  have hsound : (∀ strategy ∈ b.strategy, strategy.Sound draw retryCount) ↔
      ∀ strategy ∈ b.strategy, strategy.FitsUncapped retryCount :=
    forall₂_congr fun strategy _ => strategy.sound_iff hdraw
  have hdelay (hfits : ∀ strategy ∈ b.strategy, strategy.FitsUncapped retryCount) :
      b.delay draw retryCount = some (b.ideal draw retryCount) := by
    unfold RetryBackoff.delay RetryBackoff.ideal
    split
    · rfl
    · rename_i strategy _ hstrategy
      exact Backoff.delayFor_of_fits draw (hfits strategy hstrategy)
    · rfl
  constructor
  · intro h
    have hfits := hsound.1 h.delays
    obtain ⟨delay, hsome, hstored⟩ := h.stored
    rw [hdelay hfits] at hsome
    cases hsome
    exact ⟨hfits, (stored_iff hnow).1 hstored⟩
  · rintro ⟨hfits, htime⟩
    exact ⟨hsound.2 hfits, _, hdelay hfits, (stored_iff hnow).2 htime⟩

/-- The range of chrono 0.4. -/
private def chronoRange : ClockRange := ⟨-8334601228800000000000, 8210266876799999999999⟩

/-- Two seconds, doubled with every retry, up to an hour. -/
private def doubling : Backoff := .exponential ⟨2000000000⟩ ⟨3600000000000⟩ 2

theorem doubling_scheduled :
    (⟨some doubling, none⟩ : RetryBackoff).Schedules chronoRange id 5 1700000000000000000 := by
  refine (retry_delay_iff chronoRange id (fun _ => Nat.le_refl _) 5 1700000000000000000 (by decide)
    ⟨some doubling, none⟩).1.2 ⟨fun strategy hstrategy => ?_, .inr (.inl ?_)⟩
  · cases hstrategy
    show 0 ≤ Backoff.growth ⟨2000000000⟩ 2 5 ∧ Backoff.growth ⟨2000000000⟩ 2 5 < 2 ^ 64
    decide +kernel
  · decide +kernel

/-- An executor asks for the longest delay: what is left of it is one millisecond before now. -/
theorem longest_delay_lost : ¬ ∀ (clock : ClockRange) (draw : Nat → Nat), (∀ b, draw b ≤ b) →
    ∀ (retryCount : Nat) (now : Int),
    clock.earliest ≤ now ∧ now ≤ clock.latest → ∀ b : RetryBackoff, b.Schedules clock draw retryCount now := by
  intro h
  have hschedules := h chronoRange id (fun _ => Nat.le_refl _) 0 1700000000000000000 (by decide)
    ⟨none, some (2 ^ 64 - 1)⟩
  obtain ⟨delay, hdelay, hstored⟩ := hschedules.stored
  cases hdelay
  obtain ⟨r', hr', htime⟩ := hstored "" ((TaskSubmission.new "a").newRow "" 0)
  have hpast : r'.runAfter = some 1699999999999 := by
    have heq := Option.some.inj hr'
    rw [← heq]
    decide +kernel
  obtain ⟨t, ht, hle⟩ := htime (by decide)
  rw [hpast] at ht
  cases ht
  revert hle
  decide +kernel

end Taskmill
