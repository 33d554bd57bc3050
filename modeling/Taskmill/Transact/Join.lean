import Mathlib

/-!
# Joins and groups

`INNER JOIN` and `GROUP BY` with `COUNT(*)` on tables that are lists of rows.  A join in which no row has two
partners is a selection (`fst_innerJoin`), and it has as many rows from either side (`length_innerJoin_comm`).
-/

namespace Transact

variable {α β γ : Type}

/-! ### Joins -/

/-- `rows INNER JOIN table ON on` -/
def innerJoin (on : α → β → Bool) (rows : List α) (table : List β) : List (α × β) :=
  rows.flatMap fun a => (table.filter (on a)).map fun b => (a, b)

section Join

variable {on : α → β → Bool} {rows : List α} {table : List β}

theorem innerJoin_cons (a : α) : innerJoin on (a :: rows) table =
    (table.filter (on a)).map (fun b => (a, b)) ++ innerJoin on rows table := List.flatMap_cons

/-- A condition on the joined rows can be made part of the join. -/
theorem filter_innerJoin (keep : β → Bool) :
    (innerJoin on rows table).filter (fun p => keep p.2) = innerJoin (fun a b => on a b && keep b) rows table := by
  induction rows with
  | nil => rfl
  | cons a rows ih =>
    have hhead : ((table.filter (on a)).map fun b => (a, b)).filter (fun p => keep p.2) =
        (table.filter fun b => on a b && keep b).map fun b => (a, b) := by
      rw [List.filter_map, List.filter_filter]
      exact congrArg _ (List.filter_congr fun b _ => Bool.and_comm _ _)
    rw [innerJoin_cons, innerJoin_cons, List.filter_append, ih, hhead]

/-- Without second partners the join selects the rows that have one. -/
theorem fst_innerJoin (hone : ∀ a ∈ rows, (table.filter (on a)).length ≤ 1) :
    (innerJoin on rows table).map Prod.fst = rows.filter fun a => table.any (on a) := by
  induction rows with
  | nil => rfl
  | cons a rows ih =>
    have hrest := ih fun x hx => hone x (List.mem_cons_of_mem _ hx)
    have hhead := hone a List.mem_cons_self
    rw [innerJoin_cons, List.map_append, hrest, List.filter_cons]
    cases hpartners : table.filter (on a) with
    | nil =>
      have hnone : ¬ table.any (on a) = true := by
        rw [List.any_eq_true]
        rintro ⟨b, hb, hon⟩
        exact List.filter_eq_nil_iff.1 hpartners b hb hon
      rw [if_neg hnone]
      rfl
    | cons b partners =>
      rw [hpartners, List.length_cons] at hhead
      obtain rfl := List.length_eq_zero_iff.1 (by omega : partners.length = 0)
      have hsome : table.any (on a) = true := by
        have hb : b ∈ table.filter (on a) := hpartners ▸ List.mem_cons_self
        exact List.any_eq_true.2 ⟨b, List.mem_filter.1 hb⟩
      rw [if_pos hsome]
      rfl

theorem length_innerJoin : (innerJoin on rows table).length = (rows.map fun a => table.countP (on a)).sum := by
  rw [innerJoin, List.length_flatMap]
  simp only [List.length_map, List.countP_eq_length_filter]

private theorem sum_ones (p : β → Bool) : (table.map fun b => if p b = true then 1 else 0).sum = table.countP p := by
  induction table with
  | nil => rfl
  | cons b table ih =>
    rw [List.map_cons, List.sum_cons, List.countP_cons, ih]
    omega

/-- The pairs can be counted from either side. -/
theorem length_innerJoin_comm :
    (innerJoin on rows table).length = (innerJoin (fun b a => on a b) table rows).length := by
  rw [length_innerJoin, length_innerJoin]
  induction rows with
  | nil => simp
  | cons a rows ih =>
    have hcons : ∀ b, (a :: rows).countP (fun x => on x b) =
        rows.countP (fun x => on x b) + if on a b = true then 1 else 0 := fun b => List.countP_cons
    simp only [hcons, List.sum_map_add, List.map_cons, List.sum_cons, ih, sum_ones]
    omega

/-- At most one row has a given value in a column without repetitions. -/
theorem length_filter_le_one [DecidableEq γ] {column : α → γ} {p : α → Bool} (value : γ)
    (h : (rows.map column).Nodup) (hp : ∀ a ∈ rows, p a = true → column a = value) : (rows.filter p).length ≤ 1 := by
  have hcount : (rows.map column).count value ≤ 1 := List.nodup_iff_count_le_one.1 h value
  refine le_trans ?_ hcount
  rw [List.count, List.countP_map, ← List.countP_eq_length_filter]
  exact List.countP_mono_left fun a ha hpa => by simp [hp a ha hpa]

end Join

/-! ### Groups -/

/-- The larger count comes first. -/
def Descending (a b : γ × Nat) : Prop := b.2 ≤ a.2

instance : DecidableRel (Descending (γ := γ)) := fun a b => inferInstanceAs (Decidable (b.2 ≤ a.2))

/-- `SELECT value, COUNT(*) … GROUP BY value ORDER BY COUNT(*) DESC`; which of two equal counts comes first is left
open by SQL. -/
def groupCounts [DecidableEq γ] (values : List γ) : List (γ × Nat) :=
  (values.dedup.map fun v => (v, values.count v)).insertionSort Descending

section Groups

variable [DecidableEq γ] {values : List γ} {value : γ} {n : Nat}

private theorem groupCounts_perm : (groupCounts values).Perm (values.dedup.map fun v => (v, values.count v)) :=
  List.perm_insertionSort _ _

/-- A value with its count is listed if it occurs. -/
theorem mem_groupCounts : (value, n) ∈ groupCounts values ↔ 0 < n ∧ values.count value = n := by
  rw [groupCounts_perm.mem_iff, List.mem_map]
  constructor
  · rintro ⟨v, hv, he⟩
    cases he
    exact ⟨List.count_pos_iff.2 (List.mem_dedup.1 hv), rfl⟩
  · rintro ⟨hpos, rfl⟩
    exact ⟨value, List.mem_dedup.2 (List.count_pos_iff.1 hpos), rfl⟩

/-- Every row is counted once. -/
theorem groupCounts_total : ((groupCounts values).map Prod.snd).sum = values.length := by
  rw [(groupCounts_perm.map _).sum_eq, List.map_map]
  exact List.sum_map_count_dedup_eq_length values

end Groups

end Transact
