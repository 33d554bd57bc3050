import Mathlib

/-!
# Pouring

An amount is poured into vessels one after the other: each takes what it holds, until nothing is left.  The total
does not depend on the order of the vessels (`sum_pour`), but what a vessel gets does, unless every vessel gets what
it would get if it came first (`pour_eq_map_min`).  With `firstVessels n` only the first `n` vessels that hold
something are used.
-/

namespace Apportion

/-- What each vessel takes. -/
def pour : Nat → List Nat → List Nat
  | _, [] => []
  | amount, size :: sizes => min amount size :: pour (amount - size) sizes

theorem length_pour (amount : Nat) (sizes : List Nat) : (pour amount sizes).length = sizes.length := by
  induction sizes generalizing amount with
  | nil => rfl
  | cons size sizes ih => simp [pour, ih]

theorem sum_pour (amount : Nat) (sizes : List Nat) : (pour amount sizes).sum = min amount sizes.sum := by
  induction sizes generalizing amount with
  | nil => simp [pour]
  | cons size sizes ih =>
    simp only [pour, List.sum_cons, ih]
    omega

theorem pour_le (amount : Nat) (sizes : List Nat) :
    List.Forall₂ (fun x size => x ≤ min amount size) (pour amount sizes) sizes := by
  induction sizes generalizing amount with
  | nil => exact .nil
  | cons size sizes ih =>
    refine .cons (Nat.le_refl _) ((ih (amount - size)).imp fun x size' hle => ?_)
    omega

theorem pour_append (amount : Nat) (sizes sizes' : List Nat) :
    pour amount (sizes ++ sizes') = pour amount sizes ++ pour (amount - sizes.sum) sizes' := by
  induction sizes generalizing amount with
  | nil => rfl
  | cons size sizes ih => simp [pour, ih, Nat.sub_sub]

/-- Two lists, the one below the other and with the same sum. -/
theorem eq_of_forall₂_le {l l' : List Nat} (h : List.Forall₂ (· ≤ ·) l l') (hsum : l'.sum ≤ l.sum) : l = l' := by
  induction h with
  | nil => rfl
  | cons hle hrest ih =>
    have hsums := List.Forall₂.sum_le_sum hrest
    simp only [List.sum_cons] at hsum
    rw [ih (by omega), show _ = _ from Nat.le_antisymm hle (by omega)]

theorem sum_map_min_le (amount : Nat) (sizes : List Nat) : (sizes.map (min amount)).sum ≤ sizes.sum := by
  conv_rhs => rw [← List.map_id sizes]
  exact List.sum_le_sum fun size _ => Nat.min_le_right amount size

/-- If the vessels cannot ask for more than there is, each of them alone, then each gets what it asks for. -/
theorem pour_eq_map_min {amount : Nat} {sizes : List Nat} (h : (sizes.map (min amount)).sum ≤ amount) :
    pour amount sizes = sizes.map (min amount) := by
  have hle : List.Forall₂ (· ≤ ·) (pour amount sizes) (sizes.map (min amount)) := by
    rw [List.forall₂_map_right_iff]
    exact pour_le amount sizes
  refine eq_of_forall₂_le hle ?_
  have hsizes := sum_map_min_le amount sizes
  rw [sum_pour]
  omega

theorem pour_of_sum_le {amount : Nat} {sizes : List Nat} (h : sizes.sum ≤ amount) : pour amount sizes = sizes := by
  refine eq_of_forall₂_le ((pour_le amount sizes).imp fun _ _ hle => hle.trans (Nat.min_le_right ..)) ?_
  rw [sum_pour]
  omega

theorem pour_zero (sizes : List Nat) : pour 0 sizes = List.replicate sizes.length 0 := by
  induction sizes with
  | nil => rfl
  | cons size sizes ih => simp [pour, ih, List.replicate_succ]

theorem pour_replicate (amount k : Nat) : pour amount (List.replicate k 0) = List.replicate k 0 := by
  induction k with
  | zero => rfl
  | succ k ih => simp [List.replicate_succ, pour, ih]

/-- The first `n` vessels that hold something; the others hold nothing. -/
def firstVessels : Nat → List Nat → List Nat
  | _, [] => []
  | n, 0 :: sizes => 0 :: firstVessels n sizes
  | 0, (_ + 1) :: sizes => 0 :: firstVessels 0 sizes
  | n + 1, (size + 1) :: sizes => (size + 1) :: firstVessels n sizes

theorem length_firstVessels (n : Nat) (sizes : List Nat) : (firstVessels n sizes).length = sizes.length := by
  induction n, sizes using firstVessels.induct with
  | case1 n => simp [firstVessels]
  | case2 n sizes ih => simp [firstVessels, ih]
  | case3 size sizes ih => simp [firstVessels, ih]
  | case4 n size sizes ih => simp [firstVessels, ih]

theorem firstVessels_le (n : Nat) (sizes : List Nat) : List.Forall₂ (· ≤ ·) (firstVessels n sizes) sizes := by
  induction n, sizes using firstVessels.induct with
  | case1 n => exact .nil
  | case2 n sizes ih => exact .cons (Nat.le_refl 0) ih
  | case3 size sizes ih => exact .cons (Nat.zero_le _) ih
  | case4 n size sizes ih => exact .cons (Nat.le_refl _) ih

theorem firstVessels_zero (sizes : List Nat) : firstVessels 0 sizes = List.replicate sizes.length 0 := by
  induction sizes with
  | nil => rfl
  | cons size sizes ih =>
    cases size with
    | zero => simp [firstVessels, ih, List.replicate_succ]
    | succ size => simp [firstVessels, ih, List.replicate_succ]

theorem firstVessels_replicate (n k : Nat) : firstVessels n (List.replicate k 0) = List.replicate k 0 := by
  induction k with
  | zero => rfl
  | succ k ih => simp [List.replicate_succ, firstVessels, ih]

/-- There are no more than `n` vessels that hold something. -/
theorem firstVessels_eq_self {n : Nat} {sizes : List Nat} (h : sizes.countP (0 < ·) ≤ n) :
    firstVessels n sizes = sizes := by
  induction n, sizes using firstVessels.induct with
  | case1 n => simp [firstVessels]
  | case2 n sizes ih =>
    rw [firstVessels, ih (by simpa using h)]
  | case3 size sizes ih => simp at h
  | case4 n size sizes ih =>
    rw [firstVessels, ih (by simpa using h)]

/-- The vessels after the first `n` that hold something; these hold nothing. -/
def laterVessels (n : Nat) (sizes : List Nat) : List Nat := List.zipWith (· - ·) sizes (firstVessels n sizes)

theorem firstVessels_append (n : Nat) (sizes sizes' : List Nat) :
    firstVessels n (sizes ++ sizes') = firstVessels n sizes ++ firstVessels (n - sizes.countP (0 < ·)) sizes' := by
  induction n, sizes using firstVessels.induct with
  | case1 n => simp [firstVessels]
  | case2 n sizes ih => simp [firstVessels, ih]
  | case3 size sizes ih => simpa [firstVessels] using ih
  | case4 n size sizes ih => simp [firstVessels, ih, Nat.add_sub_add_right]

private theorem zipWith_sub_zero (sizes : List Nat) :
    List.zipWith (· - ·) sizes (List.replicate sizes.length 0) = sizes := by
  induction sizes with
  | nil => rfl
  | cons size sizes ih => simp [List.replicate_succ, ih]

private theorem zipWith_zero_add (l : List Nat) : List.zipWith (· + ·) (List.replicate l.length 0) l = l := by
  induction l with
  | nil => rfl
  | cons x l ih => simp [List.replicate_succ, ih]

/-- What is poured into the first vessels is poured into one after the other. -/
theorem pour_firstVessels_succ (n amount : Nat) (sizes : List Nat) :
    pour amount (firstVessels (n + 1) sizes) =
      List.zipWith (· + ·) (pour amount (firstVessels 1 sizes))
        (pour (amount - (pour amount (firstVessels 1 sizes)).sum)
          (firstVessels n (List.zipWith (· - ·) sizes (pour amount (firstVessels 1 sizes))))) := by
  induction sizes with
  | nil => simp [firstVessels, pour]
  | cons size sizes ih =>
    cases size with
    | zero => simpa [firstVessels, pour] using ih
    | succ size =>
      have hone : pour amount (firstVessels 1 ((size + 1) :: sizes)) =
          min amount (size + 1) :: List.replicate sizes.length 0 := by
        rw [firstVessels, pour, firstVessels_zero, pour_replicate]
      have hsum : (min amount (size + 1) :: List.replicate sizes.length 0).sum = min amount (size + 1) := by simp
      rw [hone, hsum, firstVessels, pour, List.zipWith_cons_cons, zipWith_sub_zero]
      rcases Nat.lt_or_ge amount (size + 1) with hlt | hge
      · -- nothing is left after the first vessel
        have hnone : amount - (size + 1) = 0 := by omega
        have hleft : amount - min amount (size + 1) = 0 := by omega
        rw [hnone, hleft, pour_zero, pour_zero, length_firstVessels, length_firstVessels, List.length_cons,
          List.replicate_succ, List.zipWith_cons_cons, Nat.add_zero]
        congr 1
        simp
      · have hfull : size + 1 - min amount (size + 1) = 0 := by omega
        have hleft : amount - min amount (size + 1) = amount - (size + 1) := by omega
        have hrest := zipWith_zero_add (pour (amount - (size + 1)) (firstVessels n sizes))
        rw [length_pour, length_firstVessels] at hrest
        rw [hfull, hleft, firstVessels, pour, List.zipWith_cons_cons, Nat.sub_zero, hrest, Nat.min_zero]
        rfl

end Apportion
