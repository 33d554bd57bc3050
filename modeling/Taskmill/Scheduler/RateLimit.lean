import Taskmill.Metering.Bucket
import Taskmill.Scheduler.Admission
import Mathlib.Algebra.Order.Field.Rat
import Mathlib.Data.Rat.Floor

/-!
# Token buckets

`TokenBucket` and `RateLimits` (`src/scheduler/rate_limit.rs`) with their clock, which counts nanoseconds.  The
floating-point numbers of the code are exact rational numbers here.

A bucket is a `Metering.Bucket` (`TimedBucket.toBucket`), and what the latter guarantees for every window of time is
what the rate limit promises (`token_bucket_enforces_rate`).
-/

namespace Taskmill

/-- `permits / interval`; with an interval of zero the code gets an infinity or a NaN. -/
def RateLimit.rate (config : RateLimit) : Option ℚ :=
  if config.interval = 0 then none else some ((config.permits.toNat : ℚ) / config.interval)

/-- `TokenBucket` -/
structure TimedBucket where
  available : ℚ
  burst : ℚ
  /-- tokens for each nanosecond -/
  rate : Option ℚ
  lastRefill : Nat
  config : RateLimit

namespace TimedBucket

/-- `TokenBucket::new` -/
def new (config : RateLimit) (now : Nat) : TimedBucket where
  available := config.burst.toNat
  burst := config.burst.toNat
  rate := config.rate
  lastRefill := now
  config := config

/-- `refill`; the smaller one of an infinity or a NaN and the burst is the burst. -/
def refill (b : TimedBucket) (now : Nat) : TimedBucket :=
  { b with
    available := match b.rate with
      | none => b.burst
      | some rate => min (b.available + (now - b.lastRefill : Nat) * rate) b.burst
    lastRefill := now }

/-- `deficit / self.rate`, as a `u64` -/
def waitNanos (b : TimedBucket) : Nat :=
  match b.rate with
  | none => 0
  | some rate => if rate = 0 then 2 ^ 64 - 1 else min ⌊(1 - b.available) / rate⌋₊ (2 ^ 64 - 1)

/-- `try_acquire` -/
def tryAcquire (b : TimedBucket) (now : Nat) : Except Nat Unit × TimedBucket :=
  let b := b.refill now
  if 1 ≤ b.available then (.ok (), { b with available := b.available - 1 })
  else (.error (now + b.waitNanos), b)

/-- `reconfigure` -/
def reconfigure (b : TimedBucket) (config : RateLimit) (now : Nat) : TimedBucket :=
  let b := b.refill now
  { b with
    rate := config.rate
    burst := config.burst.toNat
    available := min b.available config.burst.toNat
    config := config }

end TimedBucket

/-! ### Calls -/

/-- A call that reaches a bucket, with the time at which it does. -/
inductive BucketCall where
  | tryAcquire (now : Nat)
  /-- `refill`, also by `next_available` and `snapshot_info` -/
  | refill (now : Nat)
  | reconfigure (config : RateLimit) (now : Nat)

namespace BucketCall

def time : BucketCall → Nat
  | .tryAcquire now | .refill now | .reconfigure _ now => now

/-- The intervals are positive. -/
def Proper : BucketCall → Prop
  | .reconfigure config _ => 0 < config.interval
  | _ => True

def isReconfigure : BucketCall → Bool
  | .reconfigure .. => true
  | _ => false

/-- The same for the general bucket. -/
def toOp : BucketCall → Metering.Op ℚ
  | .tryAcquire now => .take now
  | .refill now => .fill now
  | .reconfigure config now => .retune (config.rate.getD 0) config.burst.toNat now

end BucketCall

namespace TimedBucket

def exec (b : TimedBucket) : BucketCall → TimedBucket
  | .tryAcquire now => (b.tryAcquire now).2
  | .refill now => b.refill now
  | .reconfigure config now => b.reconfigure config now

/-- The call gets a token. -/
def grants (b : TimedBucket) : BucketCall → Bool
  | .tryAcquire now => (b.tryAcquire now).1.isOk
  | _ => false

/-- How many tokens the calls get from `a` to `c`. -/
def granted (a c : ℚ) : TimedBucket → List BucketCall → Nat
  | _, [] => 0
  | b, call :: calls =>
    (if a ≤ call.time ∧ call.time ≤ c ∧ b.grants call = true then 1 else 0) + granted a c (b.exec call) calls

end TimedBucket

/-- The clock does not go back. -/
def ClockedFrom : Nat → List BucketCall → Prop
  | _, [] => True
  | start, call :: calls => start ≤ call.time ∧ ClockedFrom call.time calls

/-- The time of the last call. -/
def lastCall : Nat → List BucketCall → Nat
  | start, [] => start
  | _, call :: calls => lastCall call.time calls

/-! ### The bucket as a meter -/

namespace TimedBucket

/-- The bucket without its configuration. -/
def toBucket (b : TimedBucket) : Metering.Bucket ℚ where
  level := b.available
  capacity := b.burst
  rate := b.rate.getD 0
  last := b.lastRefill

variable {b : TimedBucket} {config : RateLimit} {call : BucketCall} {calls : List BucketCall} {now : Nat}

/-- The rate of the bucket is a number. -/
def Finite (b : TimedBucket) : Prop := b.rate.isSome

theorem toBucket_refill (h : b.Finite) (hnow : b.lastRefill ≤ now) :
    (b.refill now).toBucket = b.toBucket.fill now := by
  obtain ⟨rate, hrate⟩ := Option.isSome_iff_exists.1 h
  unfold refill toBucket Metering.Bucket.fill
  simp only [hrate, Option.getD_some, Nat.cast_sub hnow]
  rw [mul_comm rate]

/-- `try_acquire` takes a unit from the meter. -/
theorem tryAcquire_cases (b : TimedBucket) (now : Nat) :
    (1 ≤ (b.refill now).available ∧
      b.tryAcquire now = (.ok (), { b.refill now with available := (b.refill now).available - 1 })) ∨
    (¬1 ≤ (b.refill now).available ∧ b.tryAcquire now = (.error (now + (b.refill now).waitNanos), b.refill now)) := by
  unfold tryAcquire
  by_cases hone : 1 ≤ (b.refill now).available
  · exact .inl ⟨hone, if_pos hone⟩
  · exact .inr ⟨hone, if_neg hone⟩

theorem rate_of_proper (h : 0 < config.interval) :
    config.rate = some ((config.permits.toNat : ℚ) / config.interval) :=
  if_neg (Nat.ne_of_gt h)

@[simp] theorem exec_tryAcquire (b : TimedBucket) (now : Nat) : b.exec (.tryAcquire now) = (b.tryAcquire now).2 := rfl

@[simp] theorem grants_tryAcquire (b : TimedBucket) (now : Nat) :
    b.grants (.tryAcquire now) = (b.tryAcquire now).1.isOk := rfl

/-- The calls are the operations of the meter. -/
theorem toBucket_exec (h : b.Finite) (hnow : b.lastRefill ≤ call.time) :
    (b.exec call).toBucket = b.toBucket.step call.toOp ∧ b.grants call = b.toBucket.grants call.toOp := by
  cases call with
  | refill now => exact ⟨toBucket_refill h hnow, rfl⟩
  | tryAcquire now =>
    have hfill : (b.refill now).toBucket = b.toBucket.fill now := toBucket_refill h hnow
    have hlevel : (b.refill now).available = (b.toBucket.fill now).level := congrArg Metering.Bucket.level hfill
    have hop : (BucketCall.tryAcquire now).toOp = .take (now : ℚ) := rfl
    rw [hop, Metering.Bucket.step_take, ← hfill, exec_tryAcquire, grants_tryAcquire]
    rw [Metering.Bucket.grants_take, ← hlevel]
    unfold Metering.Bucket.drain
    rcases b.tryAcquire_cases now with ⟨hone, hrun⟩ | ⟨hone, hrun⟩
    · rw [hrun]
      have hone' : 1 ≤ (b.refill now).toBucket.level := hone
      rw [if_pos hone', decide_eq_true hone]
      exact ⟨rfl, rfl⟩
    · rw [hrun]
      have hone' : ¬1 ≤ (b.refill now).toBucket.level := hone
      rw [if_neg hone', decide_eq_false hone]
      exact ⟨rfl, rfl⟩
  | reconfigure config now =>
    refine ⟨?_, rfl⟩
    have hfill : (b.refill now).toBucket = b.toBucket.fill now := toBucket_refill h hnow
    have hop : (BucketCall.reconfigure config now).toOp = .retune (config.rate.getD 0) config.burst.toNat now := rfl
    rw [hop]
    show _ = (b.toBucket.fill now).retune _ _
    rw [← hfill]
    rfl

theorem finite_exec (h : b.Finite) (hcall : call.Proper) : (b.exec call).Finite := by
  cases call with
  | refill now => exact h
  | tryAcquire now =>
    rw [exec_tryAcquire]
    rcases b.tryAcquire_cases now with ⟨_, hrun⟩ | ⟨_, hrun⟩
    · rw [hrun]
      exact h
    · rw [hrun]
      exact h
  | reconfigure config now =>
    show config.rate.isSome = true
    rw [rate_of_proper hcall]
    rfl

theorem lastRefill_exec (b : TimedBucket) (call : BucketCall) : (b.exec call).lastRefill = call.time := by
  cases call with
  | refill now => rfl
  | tryAcquire now =>
    rw [exec_tryAcquire]
    rcases b.tryAcquire_cases now with ⟨_, hrun⟩ | ⟨_, hrun⟩
    · rw [hrun]
      rfl
    · rw [hrun]
      rfl
  | reconfigure config now => rfl

theorem proper_toOp (h : call.Proper) : call.toOp.Proper := by
  cases call with
  | refill now => trivial
  | tryAcquire now => trivial
  | reconfigure config now =>
    show 0 ≤ config.rate.getD 0 ∧ (0 : ℚ) ≤ config.burst.toNat
    rw [rate_of_proper h]
    exact ⟨div_nonneg (Nat.cast_nonneg _) (Nat.cast_nonneg _), Nat.cast_nonneg _⟩

theorem since_toOp {start : Nat} (h : ClockedFrom start calls) :
    Metering.Since (start : ℚ) (calls.map BucketCall.toOp) := by
  induction calls generalizing start with
  | nil => trivial
  | cons call calls ih =>
    have htime : call.toOp.time = (call.time : ℚ) := by cases call <;> rfl
    refine ⟨?_, ?_⟩
    · rw [htime]
      exact_mod_cast h.1
    · rw [htime]
      exact ih h.2

/-- A run of calls is a run of the meter. -/
theorem toBucket_run (h : b.Finite) (hcalls : ∀ call ∈ calls, call.Proper)
    (hclock : ClockedFrom b.lastRefill calls) (a c : ℚ) :
    (calls.foldl exec b).toBucket = (calls.map BucketCall.toOp).foldl Metering.Bucket.step b.toBucket ∧
      (calls.foldl exec b).Finite ∧ b.granted a c calls = b.toBucket.taken a c (calls.map BucketCall.toOp) := by
  induction calls generalizing b with
  | nil => exact ⟨rfl, h, rfl⟩
  | cons call calls ih =>
    rw [List.forall_mem_cons] at hcalls
    obtain ⟨hexec, hgrants⟩ := toBucket_exec h hclock.1
    have hclock' : ClockedFrom (b.exec call).lastRefill calls := by
      rw [lastRefill_exec]
      exact hclock.2
    obtain ⟨hrun, hfinite, hgranted⟩ := ih (finite_exec h hcalls.1) hcalls.2 hclock'
    have htime : call.toOp.time = (call.time : ℚ) := by cases call <;> rfl
    refine ⟨?_, hfinite, ?_⟩
    · rw [List.foldl_cons, List.map_cons, List.foldl_cons, ← hexec]
      exact hrun
    · unfold granted
      rw [List.map_cons]
      unfold Metering.Bucket.taken
      rw [hgranted, hexec, hgrants, htime]

theorem lastRefill_run (b : TimedBucket) (calls : List BucketCall) :
    (calls.foldl exec b).lastRefill = lastCall b.lastRefill calls := by
  induction calls generalizing b with
  | nil => rfl
  | cons call calls ih =>
    rw [List.foldl_cons, ih, lastRefill_exec]
    rfl

end TimedBucket

/-! ### Collections of buckets -/

/-- `RateLimits` -/
abbrev TimedLimits := StringMap TimedBucket

namespace TimedLimits

/-- `RateLimits::try_acquire`; `none` if the scope has no bucket. -/
def tryAcquire (limits : TimedLimits) (scope : String) (now : Nat) : Option (Except Nat Unit) × TimedLimits :=
  match limits.lookup scope with
  | none => (none, limits)
  | some b => (some (b.tryAcquire now).1, limits.insert scope (b.tryAcquire now).2)

/-- `RateLimits::set` -/
def set (limits : TimedLimits) (scope : String) (config : RateLimit) (now : Nat) : TimedLimits :=
  match limits.lookup scope with
  | some b => limits.insert scope (b.reconfigure config now)
  | none => limits.insert scope (.new config now)

/-- `RateLimits::remove` -/
def remove (limits : TimedLimits) (scope : String) : TimedLimits := limits.erase scope

/-- The loop of `next_available` and `snapshot_info` refills every bucket. -/
def refillAll (limits : TimedLimits) (now : Nat) : TimedLimits where
  entries := limits.entries.map fun e => ⟨e.1, e.2.refill now⟩
  nodupKeys := by
    have hkeys : (limits.entries.map fun e : Sigma fun _ : String => TimedBucket =>
        (⟨e.1, e.2.refill now⟩ : Sigma fun _ : String => TimedBucket)).keys = limits.entries.keys := by
      simp [List.keys]
    unfold List.NodupKeys
    rw [hkeys]
    exact limits.nodupKeys

/-- `RateLimits::next_available` -/
def nextAvailable (limits : TimedLimits) (now : Nat) : Option Nat × TimedLimits :=
  let limits := limits.refillAll now
  let waits := (limits.entries.filter fun e => e.2.available < 1).map fun e => now + e.2.waitNanos
  (waits.min?, limits)

/-- `RateLimitInfo` -/
structure Info where
  scope : String
  scopeKind : String
  permits : UInt32
  intervalMs : Nat
  burst : UInt32
  availableTokens : ℚ

/-- `RateLimits::snapshot_info` -/
def snapshotInfo (limits : TimedLimits) (scopeKind : String) (now : Nat) : List Info × TimedLimits :=
  let limits := limits.refillAll now
  let info := fun (e : Sigma fun _ : String => TimedBucket) =>
    { scope := scopeKind ++ ":" ++ e.1
      scopeKind := scopeKind
      permits := e.2.config.permits
      intervalMs := e.2.config.interval / 1000000 % 2 ^ 64
      burst := e.2.config.burst
      availableTokens := e.2.available : Info }
  (limits.entries.map info, limits)

variable (limits : TimedLimits) (scope : String) (now : Nat)

theorem tryAcquire_of_none (h : limits.lookup scope = none) : limits.tryAcquire scope now = (none, limits) := by
  unfold tryAcquire
  rw [h]

theorem tryAcquire_of_some {b : TimedBucket} (h : limits.lookup scope = some b) :
    limits.tryAcquire scope now = (some (b.tryAcquire now).1, limits.insert scope (b.tryAcquire now).2) := by
  unfold tryAcquire
  rw [h]

/-- `try_acquire` is a call to the bucket of its scope. -/
theorem lookup_tryAcquire (key : String) : (limits.tryAcquire scope now).2.lookup key =
    (limits.lookup key).map fun b => if key = scope then b.exec (.tryAcquire now) else b := by
  unfold tryAcquire
  by_cases hk : key = scope
  · subst hk
    cases hb : limits.lookup key with
    | none => exact hb
    | some b =>
      rw [AList.lookup_insert, Option.map_some, if_pos rfl]
      rfl
  · have hid : (limits.lookup key).map (fun b => if key = scope then b.exec (.tryAcquire now) else b) =
        limits.lookup key := by
      rw [show (fun b : TimedBucket => if key = scope then b.exec (.tryAcquire now) else b) =
        id from funext fun b => if_neg hk, Option.map_id, id]
    rw [hid]
    cases limits.lookup scope with
    | none => rfl
    | some b => exact AList.lookup_insert_ne hk

/-- `next_available` and `snapshot_info` are calls to all buckets. -/
theorem lookup_refillAll (key : String) : (limits.refillAll now).lookup key =
    (limits.lookup key).map fun b => b.exec (.refill now) := by
  unfold AList.lookup refillAll
  dsimp only
  induction limits.entries with
  | nil => rfl
  | cons e entries ih =>
    obtain ⟨k, v⟩ := e
    by_cases hk : k = key
    · subst hk
      rw [List.map_cons, List.dlookup_cons_eq, List.dlookup_cons_eq]
      rfl
    · rw [List.map_cons, List.dlookup_cons_ne _ _ (Ne.symm hk), List.dlookup_cons_ne _ _ (Ne.symm hk), ih]

/-- `set` is a call to the bucket that is there, or makes a full one. -/
theorem lookup_set (config : RateLimit) : (limits.set scope config now).lookup scope =
    some (((limits.lookup scope).map fun b => b.exec (.reconfigure config now)).getD (.new config now)) := by
  unfold set
  cases limits.lookup scope with
  | none => exact AList.lookup_insert _
  | some b => exact AList.lookup_insert _

end TimedLimits

/-- A call to a collection. -/
inductive LimitsCall where
  | tryAcquire (scope : String) (now : Nat)
  | set (scope : String) (config : RateLimit) (now : Nat)
  | remove (scope : String)
  | nextAvailable (now : Nat)
  | snapshotInfo (scopeKind : String) (now : Nat)

/-- The call to the bucket of a scope that is made, if there is one and it stays. -/
def LimitsCall.reaches (scope : String) : LimitsCall → Option BucketCall
  | .tryAcquire s now => if s = scope then some (.tryAcquire now) else none
  | .set s config now => if s = scope then some (.reconfigure config now) else none
  | .remove _ => none
  | .nextAvailable now | .snapshotInfo _ now => some (.refill now)

namespace TimedLimits

def exec (limits : TimedLimits) : LimitsCall → TimedLimits
  | .tryAcquire scope now => (limits.tryAcquire scope now).2
  | .set scope config now => limits.set scope config now
  | .remove scope => limits.remove scope
  | .nextAvailable now => (limits.nextAvailable now).2
  | .snapshotInfo scopeKind now => (limits.snapshotInfo scopeKind now).2

/-- The call gets a token of the scope, between `a` and `c`. -/
def grants (scope : String) (a c : ℚ) (limits : TimedLimits) : LimitsCall → Bool
  | .tryAcquire s now => s = scope && decide (a ≤ now ∧ now ≤ c) && (limits.tryAcquire s now).1.any (·.isOk)
  | _ => false

/-- How many tokens of the scope the calls get from `a` to `c`. -/
def granted (scope : String) (a c : ℚ) : TimedLimits → List LimitsCall → Nat
  | _, [] => 0
  | limits, call :: calls => (limits.grants scope a c call).toNat + granted scope a c (limits.exec call) calls

variable {limits : TimedLimits} {scope : String} {b : TimedBucket} {call : LimitsCall} {calls : List LimitsCall}

/-- A call does to the bucket of a scope what reaches it. -/
theorem lookup_exec (h : limits.lookup scope = some b) (hcall : call ≠ .remove scope) :
    (limits.exec call).lookup scope = some ((call.reaches scope).elim b b.exec) := by
  cases call with
  | tryAcquire s now =>
    rw [exec, lookup_tryAcquire, h, LimitsCall.reaches]
    by_cases hs : s = scope
    · rw [if_pos hs]
      simp [hs]
    · rw [if_neg hs]
      simp [Ne.symm hs]
  | set s config now =>
    rw [exec, LimitsCall.reaches]
    by_cases hs : s = scope
    · rw [hs, lookup_set, h, if_pos rfl]
      rfl
    · rw [if_neg hs, set]
      cases limits.lookup s with
      | none => exact (AList.lookup_insert_ne (Ne.symm hs)).trans h
      | some b' => exact (AList.lookup_insert_ne (Ne.symm hs)).trans h
  | remove s =>
    have hs : scope ≠ s := fun heq => hcall (by rw [heq])
    exact (AList.lookup_erase_ne hs).trans h
  | nextAvailable now => exact (lookup_refillAll limits now scope).trans (by rw [h]; rfl)
  | snapshotInfo scopeKind now => exact (lookup_refillAll limits now scope).trans (by rw [h]; rfl)

/-- A token that a call gets is one of the bucket. -/
theorem grants_eq (h : limits.lookup scope = some b) (a c : ℚ) : (limits.grants scope a c call).toNat =
    ((call.reaches scope).elim 0 fun reached =>
      if a ≤ reached.time ∧ reached.time ≤ c ∧ b.grants reached = true then 1 else 0) := by
  cases call with
  | tryAcquire s now =>
    rw [grants, LimitsCall.reaches]
    by_cases hs : s = scope
    · subst hs
      rw [tryAcquire_of_some limits s now h, if_pos rfl, Option.any_some, Option.elim_some,
        TimedBucket.grants_tryAcquire]
      by_cases hin : a ≤ ((BucketCall.tryAcquire now).time : ℚ) ∧ ((BucketCall.tryAcquire now).time : ℚ) ≤ c
      · have hin' : a ≤ (now : ℚ) ∧ (now : ℚ) ≤ c := hin
        rw [decide_eq_true rfl, decide_eq_true hin', Bool.true_and, Bool.true_and]
        cases hok : (b.tryAcquire now).1.isOk with
        | true => rw [if_pos ⟨hin.1, hin.2, rfl⟩]; rfl
        | false => rw [if_neg fun hall => Bool.false_ne_true hall.2.2]; rfl
      · have hin' : ¬(a ≤ (now : ℚ) ∧ (now : ℚ) ≤ c) := hin
        rw [decide_eq_false hin', Bool.and_false, Bool.false_and, if_neg fun hall => hin ⟨hall.1, hall.2.1⟩]
        rfl
    · rw [if_neg hs, decide_eq_false hs]
      rfl
  | set s config now =>
    rw [LimitsCall.reaches]
    by_cases hs : s = scope
    · rw [if_pos hs]
      simp [grants, TimedBucket.grants]
    · rw [if_neg hs]
      rfl
  | remove s => rfl
  | nextAvailable now => simp [grants, LimitsCall.reaches, TimedBucket.grants]
  | snapshotInfo scopeKind now => simp [grants, LimitsCall.reaches, TimedBucket.grants]

/-- The bucket of a scope that is not removed sees the calls that reach it. -/
theorem lookup_run (h : limits.lookup scope = some b) (hcalls : ∀ call ∈ calls, call ≠ .remove scope) (a c : ℚ) :
    (calls.foldl exec limits).lookup scope = some ((calls.filterMap (·.reaches scope)).foldl TimedBucket.exec b) ∧
      granted scope a c limits calls = b.granted a c (calls.filterMap (·.reaches scope)) := by
  induction calls generalizing limits b with
  | nil => exact ⟨h, rfl⟩
  | cons call calls ih =>
    rw [List.forall_mem_cons] at hcalls
    obtain ⟨hlookup, hgranted⟩ := ih (lookup_exec h hcalls.1) hcalls.2
    rw [List.foldl_cons, hlookup, granted, hgranted, grants_eq h]
    cases hreaches : call.reaches scope with
    | none => rw [List.filterMap_cons_none hreaches]; exact ⟨rfl, Nat.zero_add _⟩
    | some reached => rw [List.filterMap_cons_some hreaches]; exact ⟨rfl, rfl⟩

end TimedLimits

/-! ### The rate is enforced -/

/-- What a rate limit promises after some calls. -/
structure RateLimit.Enforced (config : RateLimit) (start : Nat) (calls : List BucketCall) : Prop where
  /-- the tokens stay between none and the burst -/
  nonneg : 0 ≤ (calls.foldl TimedBucket.exec (.new config start)).available
  le_burst : (calls.foldl TimedBucket.exec (.new config start)).available ≤
    (calls.foldl TimedBucket.exec (.new config start)).burst
  /-- a window without reconfigurations -/
  steady : (∀ call ∈ calls, call.isReconfigure = false) → ∀ a c : ℚ, a ≤ c →
    ((TimedBucket.new config start).granted a c calls : ℚ) ≤
      config.burst.toNat + config.permits.toNat * (c - a) / config.interval
  /-- any window: the largest burst, and for each stretch of time its own rate times its length -/
  window : ∀ a c : ℚ, ((TimedBucket.new config start).granted a c calls : ℚ) ≤
    Metering.peak a c config.burst.toNat (calls.map BucketCall.toOp) +
      Metering.inflow a c (config.rate.getD 0) start (calls.map BucketCall.toOp)
  /-- a reconfiguration keeps the tokens that fit -/
  carried : ∀ config' now, ((calls.foldl TimedBucket.exec (.new config start)).reconfigure config' now).available =
    min ((calls.foldl TimedBucket.exec (.new config start)).refill now).available config'.burst.toNat
  /-- after the time for one token there is one -/
  waited : ∀ now, 1 ≤ (calls.foldl TimedBucket.exec (.new config start)).burst → lastCall start calls ≤ now →
    1 ≤ (calls.foldl TimedBucket.exec (.new config start)).rate.getD 0 * (now - lastCall start calls) →
      ((calls.foldl TimedBucket.exec (.new config start)).tryAcquire now).1 = .ok ()

/-- The bucket enforces its rate, whatever is called and when.  In a collection it is the bucket of a scope that
gets this limit, as long as the scope is not removed. -/
theorem token_bucket_enforces_rate (config : RateLimit) (hinterval : 0 < config.interval) (start : Nat)
    (calls : List BucketCall) (hcalls : ∀ call ∈ calls, call.Proper) (hclock : ClockedFrom start calls) :
    config.Enforced start calls ∧
      ∀ (limits : TimedLimits) (scope : String) (made : List LimitsCall), limits.lookup scope = none →
        (∀ call ∈ made, call ≠ .remove scope) → made.filterMap (·.reaches scope) = calls →
        (made.foldl TimedLimits.exec (limits.set scope config start)).lookup scope =
            some (calls.foldl TimedBucket.exec (.new config start)) ∧
          ∀ a c : ℚ, TimedLimits.granted scope a c (limits.set scope config start) made =
            (TimedBucket.new config start).granted a c calls := by
  refine ⟨?_, fun limits scope made hnone hmade hreach => ?_⟩
  swap
  · have hnew : (limits.set scope config start).lookup scope = some (.new config start) := by
      rw [TimedLimits.lookup_set, hnone]
      rfl
    rw [← hreach]
    exact ⟨(TimedLimits.lookup_run hnew hmade 0 0).1, fun a c => (TimedLimits.lookup_run hnew hmade a c).2⟩
  have hrate := TimedBucket.rate_of_proper hinterval
  have hfinite : (TimedBucket.new config start).Finite := by
    show config.rate.isSome = true
    rw [hrate]
    rfl
  have hnonneg : (0 : ℚ) ≤ (config.permits.toNat : ℚ) / config.interval :=
    div_nonneg (Nat.cast_nonneg _) (Nat.cast_nonneg _)
  have hmeter : (TimedBucket.new config start).toBucket =
      ⟨config.burst.toNat, config.burst.toNat, (config.permits.toNat : ℚ) / config.interval, start⟩ := by
    unfold TimedBucket.toBucket TimedBucket.new
    rw [hrate]
    rfl
  have hsound : (TimedBucket.new config start).toBucket.Sound := by
    rw [hmeter]
    exact ⟨Nat.cast_nonneg _, le_refl _, hnonneg⟩
  have hproper : ∀ op ∈ calls.map BucketCall.toOp, op.Proper := by
    rw [List.forall_mem_map]
    exact fun call hcall => TimedBucket.proper_toOp (hcalls call hcall)
  have hsince : Metering.Since (TimedBucket.new config start).toBucket.last (calls.map BucketCall.toOp) :=
    TimedBucket.since_toOp hclock
  have hrun := fun a c => TimedBucket.toBucket_run hfinite hcalls hclock a c
  have hafter : (calls.foldl TimedBucket.exec (.new config start)).toBucket.Sound := by
    rw [(hrun 0 0).1]
    exact hsound.run hproper hsince
  have hwindow : ∀ a c : ℚ, ((TimedBucket.new config start).granted a c calls : ℚ) ≤
      Metering.peak a c config.burst.toNat (calls.map BucketCall.toOp) +
        Metering.inflow a c (config.rate.getD 0) start (calls.map BucketCall.toOp) := by
    intro a c
    rw [(hrun a c).2.2]
    exact Metering.taken_le hsound hproper hsince a c
  refine ⟨hafter.nonneg, hafter.le, fun hsteady a c hac => ?_, hwindow, fun _ _ => rfl,
    fun now hburst hnow hwaited => ?_⟩
  · have hops : ∀ op ∈ calls.map BucketCall.toOp, op.isRetune = false := by
      rw [List.forall_mem_map]
      intro call hcall
      have hcall := hsteady call hcall
      cases call with
      | tryAcquire now => rfl
      | refill now => rfl
      | reconfigure config now => cases hcall
    have hle := hwindow a c
    have hinflow := Metering.inflow_le_of_steady hnonneg hsince hops hac
    rw [Metering.peak_of_steady hops, hrate, Option.getD_some] at hle
    have hcomm : (config.permits.toNat : ℚ) / config.interval * (c - a) =
        config.permits.toNat * (c - a) / config.interval := by
      ring
    rw [hcomm] at hinflow
    exact le_trans hle (add_le_add_right hinflow _)
  · have hlast := TimedBucket.lastRefill_run (.new config start) calls
    have hgrants : (calls.foldl TimedBucket.exec (.new config start)).grants (.tryAcquire now) = true := by
      have hnow' : (calls.foldl TimedBucket.exec (.new config start)).lastRefill ≤
          (BucketCall.tryAcquire now).time := by
        rw [hlast]
        exact hnow
      rw [(TimedBucket.toBucket_exec (hrun 0 0).2.1 hnow').2]
      refine Metering.Bucket.grants_of_waited hafter hburst ?_
      unfold TimedBucket.toBucket
      rw [hlast]
      exact hwaited
    rw [TimedBucket.grants_tryAcquire] at hgrants
    rcases (calls.foldl TimedBucket.exec (.new config start)).tryAcquire_cases now with ⟨_, hrun⟩ | ⟨_, hrun⟩
    · rw [hrun]
    · rw [hrun] at hgrants
      cases hgrants

/-- `RateLimit::per_second` -/
def RateLimit.perSecond (n : UInt32) : RateLimit := ⟨n, 1000000000, n⟩

/-- Three calls, in the middle a reconfiguration to a smaller burst. -/
theorem ten_per_second_enforced : (RateLimit.perSecond 10).Enforced 0
    [.tryAcquire 5, .reconfigure ⟨20, 1000000000, 3⟩ 100000000, .tryAcquire 100000000] :=
  (token_bucket_enforces_rate (.perSecond 10) (by decide) 0
    [.tryAcquire 5, .reconfigure ⟨20, 1000000000, 3⟩ 100000000, .tryAcquire 100000000]
    (by simp [BucketCall.Proper]) ⟨by decide, by decide, by decide, trivial⟩).1

end Taskmill
