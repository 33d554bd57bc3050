import Mathlib.Algebra.Order.Field.Basic
import Mathlib.Tactic.Linarith
import Mathlib.Tactic.Ring

/-!
# Buckets

A bucket fills at a steady rate up to its capacity, and one unit at a time can be taken out of it.  It is looked at
only when something is done with it, and then it is filled for the time that has passed.  Rate and capacity may
change; what is in the bucket stays in it as far as it fits.

What is taken out in a window of time is bounded by what was in the bucket when the window opened and by what has
flowed in since (`taken_le`): with every unit that is taken the level falls by one, and it rises by no more than the
rate allows.
-/

namespace Metering

structure Bucket (𝕜 : Type) where
  level : 𝕜
  capacity : 𝕜
  rate : 𝕜
  /-- when it was filled last -/
  last : 𝕜

/-- What is done with a bucket, and when. -/
inductive Op (𝕜 : Type) where
  | fill (t : 𝕜)
  | take (t : 𝕜)
  | retune (rate capacity t : 𝕜)

namespace Op

variable {𝕜 : Type}

def time : Op 𝕜 → 𝕜
  | .fill t | .take t | .retune _ _ t => t

/-- The rate that is in force afterwards. -/
def rate (r : 𝕜) : Op 𝕜 → 𝕜
  | .retune rate _ _ => rate
  | _ => r

/-- The capacity that is in force afterwards. -/
def capacity (c : 𝕜) : Op 𝕜 → 𝕜
  | .retune _ capacity _ => capacity
  | _ => c

def isRetune : Op 𝕜 → Bool
  | .retune .. => true
  | _ => false

/-- Rates and capacities are not negative. -/
def Proper [Zero 𝕜] [LE 𝕜] : Op 𝕜 → Prop
  | .retune rate capacity _ => 0 ≤ rate ∧ 0 ≤ capacity
  | _ => True

end Op

/-- The times do not go back, and `t` comes before them. -/
def Since {𝕜 : Type} [LE 𝕜] : 𝕜 → List (Op 𝕜) → Prop
  | _, [] => True
  | t, op :: ops => t ≤ op.time ∧ Since op.time ops

variable {𝕜 : Type} [Field 𝕜] [LinearOrder 𝕜]

namespace Bucket

def fill (b : Bucket 𝕜) (t : 𝕜) : Bucket 𝕜 :=
  { b with level := min (b.level + b.rate * (t - b.last)) b.capacity, last := t }

/-- A unit is taken if there is one. -/
def grants (b : Bucket 𝕜) : Op 𝕜 → Bool
  | .take t => decide (1 ≤ (b.fill t).level)
  | _ => false

/-- One unit is taken out, if there is one. -/
def drain (b : Bucket 𝕜) : Bucket 𝕜 := if 1 ≤ b.level then { b with level := b.level - 1 } else b

def retune (b : Bucket 𝕜) (rate capacity : 𝕜) : Bucket 𝕜 :=
  { b with level := min b.level capacity, capacity := capacity, rate := rate }

def step (b : Bucket 𝕜) : Op 𝕜 → Bucket 𝕜
  | .fill t => b.fill t
  | .take t => (b.fill t).drain
  | .retune rate capacity t => (b.fill t).retune rate capacity

structure Sound (b : Bucket 𝕜) : Prop where
  nonneg : 0 ≤ b.level
  le : b.level ≤ b.capacity
  rate : 0 ≤ b.rate

/-- How many units are taken between `a` and `c`. -/
def taken (a c : 𝕜) : Bucket 𝕜 → List (Op 𝕜) → Nat
  | _, [] => 0
  | b, op :: ops => (if a ≤ op.time ∧ op.time ≤ c ∧ b.grants op = true then 1 else 0) + taken a c (b.step op) ops

end Bucket

/-- How much of the time from `x` to `y` lies between `a` and `c`. -/
def overlap (a c x y : 𝕜) : 𝕜 := max 0 (min y c - max x a)

/-- What flows in between `a` and `c`: every stretch of time at its own rate. -/
def inflow (a c : 𝕜) : 𝕜 → 𝕜 → List (Op 𝕜) → 𝕜
  | rate, since, [] => rate * max 0 (c - max since a)
  | rate, since, op :: ops => rate * overlap a c since op.time + inflow a c (op.rate rate) op.time ops

/-- The largest capacity that is in force at some time between `a` and `c`. -/
def peak (a c : 𝕜) : 𝕜 → List (Op 𝕜) → 𝕜
  | capacity, [] => capacity
  | capacity, op :: ops =>
    if op.time < a then peak a c (op.capacity capacity) ops
    else if op.time ≤ c then max capacity (peak a c (op.capacity capacity) ops)
    else capacity

/-! ### One step -/

section Step

variable (b : Bucket 𝕜) (op : Op 𝕜)

@[simp] theorem Bucket.step_take (t : 𝕜) : b.step (.take t) = (b.fill t).drain := rfl

@[simp] theorem Bucket.grants_take (t : 𝕜) : b.grants (.take t) = decide (1 ≤ (b.fill t).level) := rfl

theorem Bucket.drain_cases :
    (1 ≤ b.level ∧ b.drain = { b with level := b.level - 1 }) ∨ (¬1 ≤ b.level ∧ b.drain = b) := by
  unfold Bucket.drain
  by_cases h : 1 ≤ b.level
  · exact .inl ⟨h, if_pos h⟩
  · exact .inr ⟨h, if_neg h⟩

/-- What a step does to the other fields. -/
theorem Bucket.step_fields :
    (b.step op).last = op.time ∧ (b.step op).rate = op.rate b.rate ∧
      (b.step op).capacity = op.capacity b.capacity := by
  cases op with
  | fill t => exact ⟨rfl, rfl, rfl⟩
  | take t =>
    rw [Bucket.step_take]
    rcases (b.fill t).drain_cases with ⟨_, hdrain⟩ | ⟨_, hdrain⟩
    · rw [hdrain]
      exact ⟨rfl, rfl, rfl⟩
    · rw [hdrain]
      exact ⟨rfl, rfl, rfl⟩
  | retune rate capacity t => exact ⟨rfl, rfl, rfl⟩

@[simp] theorem Bucket.last_step : (b.step op).last = op.time := (b.step_fields op).1

@[simp] theorem Bucket.rate_step : (b.step op).rate = op.rate b.rate := (b.step_fields op).2.1

@[simp] theorem Bucket.capacity_step : (b.step op).capacity = op.capacity b.capacity :=
  (b.step_fields op).2.2

/-- A unit that is taken is paid for by the level. -/
theorem Bucket.level_step_add :
    (if b.grants op = true then 1 else 0) + (b.step op).level ≤ (b.fill op.time).level := by
  cases op with
  | fill t => simp [Bucket.grants, Bucket.step, Op.time]
  | take t =>
    rw [Bucket.step_take, Bucket.grants_take]
    rcases (b.fill t).drain_cases with ⟨hone, hdrain⟩ | ⟨hone, hdrain⟩
    · rw [hdrain]
      simp [hone, Op.time]
    · rw [hdrain]
      simp [hone, Op.time]
  | retune rate capacity t => simp [Bucket.grants, Bucket.step, Bucket.retune, Op.time]

end Step

variable {b : Bucket 𝕜} {op : Op 𝕜} {ops : List (Op 𝕜)} {a c t rate since : 𝕜}

/-- Nothing is taken in the window once it has closed. -/
theorem taken_of_late (hlate : c < t) (hsince : Since t ops) : b.taken a c ops = 0 := by
  induction ops generalizing b t with
  | nil => rfl
  | cons op ops ih =>
    have hop : c < op.time := lt_of_lt_of_le hlate hsince.1
    unfold Bucket.taken
    rw [ih hop hsince.2, if_neg (fun h => absurd h.2.1 (not_le.2 hop))]

theorem taken_cons_late (hlate : c < op.time) (hsince : Since op.time ops) : b.taken a c (op :: ops) = 0 := by
  unfold Bucket.taken
  rw [taken_of_late hlate hsince, if_neg (fun h => absurd h.2.1 (not_le.2 hlate))]

theorem taken_cons_inside (ha : a ≤ op.time) (hc : op.time ≤ c) : (b.taken a c (op :: ops) : 𝕜) =
    (if b.grants op = true then 1 else 0) + ((b.step op).taken a c ops : 𝕜) := by
  simp only [Bucket.taken, ha, hc, true_and, Nat.cast_add, Nat.cast_ite, Nat.cast_one, Nat.cast_zero]

theorem overlap_nonneg (a c x y : 𝕜) : 0 ≤ overlap a c x y := le_max_left _ _

variable [IsStrictOrderedRing 𝕜]

theorem Bucket.Sound.fill (h : b.Sound) (ht : b.last ≤ t) : (b.fill t).Sound := by
  have hcapacity : 0 ≤ b.capacity := le_trans h.nonneg h.le
  have hgain : 0 ≤ b.rate * (t - b.last) := mul_nonneg h.rate (by linarith)
  exact ⟨le_min (add_nonneg h.nonneg hgain) hcapacity, min_le_right _ _, h.rate⟩

theorem Bucket.Sound.step (h : b.Sound) (hop : op.Proper) (ht : b.last ≤ op.time) : (b.step op).Sound := by
  have hfill := h.fill ht
  cases op with
  | fill t => exact hfill
  | take t =>
    rw [Bucket.step_take]
    rcases (b.fill t).drain_cases with ⟨hone, hdrain⟩ | ⟨_, hdrain⟩
    · rw [hdrain]
      exact ⟨sub_nonneg.2 hone, le_trans (sub_le_self _ zero_le_one) hfill.le, hfill.rate⟩
    · rw [hdrain]
      exact hfill
  | retune rate capacity t => exact ⟨le_min hfill.nonneg hop.2, min_le_right _ _, hop.1⟩

/-- After the time for one unit there is one. -/
theorem Bucket.grants_of_waited (h : b.Sound) (hcapacity : 1 ≤ b.capacity) (ht : 1 ≤ b.rate * (t - b.last)) :
    b.grants (.take t) = true := by
  have hlevel := h.nonneg
  exact decide_eq_true (le_min (by linarith) hcapacity)

/-! ### A run -/

theorem Bucket.Sound.run (h : b.Sound) (hops : ∀ op ∈ ops, op.Proper) (hsince : Since b.last ops) :
    (ops.foldl Bucket.step b).Sound := by
  induction ops generalizing b with
  | nil => exact h
  | cons op ops ih =>
    rw [List.forall_mem_cons] at hops
    refine ih (h.step hops.1 hsince.1) hops.2 ?_
    rw [Bucket.last_step]
    exact hsince.2

theorem inflow_nonneg (hrate : 0 ≤ rate) (hops : ∀ op ∈ ops, op.Proper) : 0 ≤ inflow a c rate since ops := by
  induction ops generalizing rate since with
  | nil => exact mul_nonneg hrate (le_max_left _ _)
  | cons op ops ih =>
    rw [List.forall_mem_cons] at hops
    refine add_nonneg (mul_nonneg hrate (overlap_nonneg ..)) (ih ?_ hops.2)
    cases op with
    | fill t => exact hrate
    | take t => exact hrate
    | retune rate capacity t => exact hops.1.1

/-- Inside the window: the level pays for what is taken, and the inflow for what the level gains. -/
theorem taken_le_of_inside (h : b.Sound) (hops : ∀ op ∈ ops, op.Proper) (hsince : Since b.last ops)
    (ha : a ≤ b.last) :
    (b.taken a c ops : 𝕜) ≤ b.level + inflow a c b.rate b.last ops := by
  induction ops generalizing b with
  | nil =>
    have hinflow : 0 ≤ inflow a c b.rate b.last [] := inflow_nonneg h.rate hops
    have hlevel := h.nonneg
    simp only [Bucket.taken, Nat.cast_zero]
    linarith
  | cons op ops ih =>
    have hproper := hops
    rw [List.forall_mem_cons] at hops
    obtain ⟨hlast, hrest⟩ := hsince
    by_cases hc : op.time ≤ c
    · have hstep : ((b.step op).taken a c ops : 𝕜) ≤ (b.step op).level + inflow a c (op.rate b.rate) op.time ops := by
        have hih := ih (h.step hops.1 hlast) hops.2 (by rw [Bucket.last_step]; exact hrest)
          (by rw [Bucket.last_step]; exact le_trans ha hlast)
        rwa [Bucket.rate_step, Bucket.last_step] at hih
      have hpaid := b.level_step_add op
      have hfill : (b.fill op.time).level ≤ b.level + b.rate * (op.time - b.last) := min_le_left _ _
      have hoverlap : overlap a c b.last op.time = op.time - b.last := by
        unfold overlap
        rw [min_eq_left hc, max_eq_left ha, max_eq_right (by linarith)]
      have htaken : (b.taken a c (op :: ops) : 𝕜) =
          (if b.grants op = true then 1 else 0) + ((b.step op).taken a c ops : 𝕜) :=
        taken_cons_inside (le_trans ha hlast) hc
      unfold inflow
      rw [htaken, hoverlap]
      linarith
    · have hnone : b.taken a c (op :: ops) = 0 := taken_cons_late (not_le.1 hc) hrest
      have hinflow : 0 ≤ inflow a c b.rate b.last (op :: ops) := inflow_nonneg h.rate hproper
      have hlevel := h.nonneg
      rw [hnone, Nat.cast_zero]
      linarith

/-- In any window no more is taken than the largest capacity in force and what flows in. -/
theorem taken_le (h : b.Sound) (hops : ∀ op ∈ ops, op.Proper) (hsince : Since b.last ops) (a c : 𝕜) :
    (b.taken a c ops : 𝕜) ≤ peak a c b.capacity ops + inflow a c b.rate b.last ops := by
  induction ops generalizing b with
  | nil =>
    have hinflow : 0 ≤ inflow a c b.rate b.last [] := inflow_nonneg h.rate hops
    have hcapacity : 0 ≤ b.capacity := le_trans h.nonneg h.le
    simp only [Bucket.taken, Nat.cast_zero, peak]
    linarith
  | cons op ops ih =>
    have hproper := hops
    rw [List.forall_mem_cons] at hops
    obtain ⟨hlast, hrest⟩ := hsince
    have hstep := h.step hops.1 hlast
    have hrest' : Since (b.step op).last ops := by rwa [Bucket.last_step]
    have hoverlap : 0 ≤ b.rate * overlap a c b.last op.time := mul_nonneg h.rate (overlap_nonneg ..)
    by_cases ha : op.time < a
    · -- before the window
      have hih := ih hstep hops.2 hrest'
      have hnone : b.taken a c (op :: ops) = (b.step op).taken a c ops := by
        unfold Bucket.taken
        rw [if_neg (fun h => absurd h.1 (not_le.2 ha)), Nat.zero_add]
        cases ops <;> rfl
      rw [Bucket.capacity_step, Bucket.rate_step, Bucket.last_step] at hih
      unfold peak inflow
      rw [if_pos ha, hnone]
      linarith
    · by_cases hc : op.time ≤ c
      · -- the first look at the bucket in the window: it holds no more than its capacity
        have hopen : a ≤ (b.step op).last := by
          rw [Bucket.last_step]
          exact not_lt.1 ha
        have hin : ((b.step op).taken a c ops : 𝕜) ≤ _ := taken_le_of_inside hstep hops.2 hrest' hopen
        have hpaid := b.level_step_add op
        have hfull : (b.fill op.time).level ≤ b.capacity := min_le_right _ _
        have hpeak : b.capacity ≤ peak a c b.capacity (op :: ops) := by
          unfold peak
          rw [if_neg ha, if_pos hc]
          exact le_max_left _ _
        have htaken : (b.taken a c (op :: ops) : 𝕜) =
            (if b.grants op = true then 1 else 0) + ((b.step op).taken a c ops : 𝕜) :=
              taken_cons_inside (not_lt.1 ha) hc
        rw [Bucket.rate_step, Bucket.last_step] at hin
        unfold inflow
        rw [htaken]
        linarith
      · have hnone : b.taken a c (op :: ops) = 0 := taken_cons_late (not_le.1 hc) hrest
        have hinflow : 0 ≤ inflow a c b.rate b.last (op :: ops) := inflow_nonneg h.rate hproper
        have hcapacity : 0 ≤ b.capacity := le_trans h.nonneg h.le
        unfold peak
        rw [if_neg ha, if_neg hc, hnone, Nat.cast_zero]
        linarith

/-- The window up to a time and from it on. -/
theorem overlap_add_le {x y : 𝕜} (hxy : x ≤ y) : overlap a c x y + max 0 (c - max y a) ≤ max 0 (c - max x a) := by
  unfold overlap
  rcases le_total c y with hcy | hyc
  · have hover : c - max y a ≤ 0 := sub_nonpos.2 (le_trans hcy (le_max_left _ _))
    rw [min_eq_right hcy, max_eq_left hover, add_zero]
  · rw [min_eq_left hyc]
    rcases le_total y a with hya | hay
    · have hbefore : y - max x a ≤ 0 := sub_nonpos.2 (le_trans hya (le_max_right _ _))
      rw [max_eq_left hbefore, zero_add, max_eq_right hya, max_eq_right (le_trans hxy hya)]
    · have hopen : 0 ≤ y - max x a := sub_nonneg.2 (max_le hxy hay)
      rw [max_eq_right hopen, max_eq_left hay, max_eq_right (sub_nonneg.2 hyc)]
      have : c - max x a ≤ max 0 (c - max x a) := le_max_right _ _
      linarith

/-- With one rate throughout the inflow is the rate times the length of the window. -/
theorem inflow_le_of_steady (hrate : 0 ≤ rate) (hsince : Since since ops) (hops : ∀ op ∈ ops, op.isRetune = false)
    (hac : a ≤ c) :
    inflow a c rate since ops ≤ rate * (c - a) := by
  have hgeneral : inflow a c rate since ops ≤ rate * max 0 (c - max since a) := by
    induction ops generalizing since with
    | nil => exact le_refl _
    | cons op ops ih =>
      rw [List.forall_mem_cons] at hops
      have hrest := ih hsince.2 hops.2
      have hsame : op.rate rate = rate := by
        cases op with
        | fill t => rfl
        | take t => rfl
        | retune rate capacity t => cases hops.1
      have hsplit := overlap_add_le (a := a) (c := c) hsince.1
      unfold inflow
      rw [hsame]
      calc rate * overlap a c since op.time + inflow a c rate op.time ops
          ≤ rate * overlap a c since op.time + rate * max 0 (c - max op.time a) := by linarith
        _ = rate * (overlap a c since op.time + max 0 (c - max op.time a)) := by ring
        _ ≤ rate * max 0 (c - max since a) := mul_le_mul_of_nonneg_left hsplit hrate
  have hlength : max 0 (c - max since a) ≤ c - a := max_le (sub_nonneg.2 hac) (sub_le_sub_left (le_max_right _ _) c)
  exact le_trans hgeneral (mul_le_mul_of_nonneg_left hlength hrate)

omit [Field 𝕜] [IsStrictOrderedRing 𝕜] in
/-- With one capacity throughout it is the largest. -/
theorem peak_of_steady {capacity : 𝕜} (hops : ∀ op ∈ ops, op.isRetune = false) :
    peak a c capacity ops = capacity := by
  induction ops with
  | nil => rfl
  | cons op ops ih =>
    rw [List.forall_mem_cons] at hops
    have hsame : op.capacity capacity = capacity := by
      cases op with
      | fill t => rfl
      | take t => rfl
      | retune rate capacity t => cases hops.1
    unfold peak
    rw [hsame, ih hops.2, max_self]
    simp

end Metering
