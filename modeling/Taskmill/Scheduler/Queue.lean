import Taskmill.Schema
import Mathlib.Data.List.Sort

/-!
# The dispatch queue as a list

The dispatch queries order the rows by effective priority and id (`Store.ordered`).  No two rows have the same id,
so the order is strict, and a row that is taken out or changed in place leaves the order of the others as it is.
-/

namespace Taskmill

section Order

variable {aging : Option AgingParams}

instance : Std.Total (TaskRow.before aging) :=
  ⟨fun a b => by unfold TaskRow.before; omega⟩

instance : IsTrans TaskRow (TaskRow.before aging) :=
  ⟨fun a b c hab hbc => by unfold TaskRow.before at *; omega⟩

theorem TaskRow.id_eq_of_before {a b : TaskRow} (hab : a.before aging b) (hba : b.before aging a) : a.id = b.id := by
  unfold TaskRow.before at hab hba
  omega

theorem TaskRow.pending_of_due {r : TaskRow} {now : Int} (h : r.due now = true) : r.status = .pending := by
  rw [TaskRow.due, Bool.and_eq_true, beq_iff_eq] at h
  exact h.1

end Order

/-- The rows around a row of the table. -/
structure Store.Split (s : Store) (r : TaskRow) (front back : List TaskRow) : Prop where
  tasks : s.tasks = front ++ r :: back
  front : ∀ x ∈ front, x.id ≠ r.id
  back : ∀ x ∈ back, x.id ≠ r.id

theorem Store.Schema.split {s : Store} (h : s.Schema) {r : TaskRow} (hr : r ∈ s.tasks) :
    ∃ front back, s.Split r front back := by
  obtain ⟨front, back, htasks⟩ := List.append_of_mem hr
  have hids := h.ids
  rw [Store.ids, htasks, List.map_append, List.map_cons, List.nodup_append] at hids
  obtain ⟨_, hback, hdisj⟩ := hids
  refine ⟨front, back, htasks, fun x hx hid => ?_, fun x hx hid => ?_⟩
  · exact hdisj x.id (List.mem_map_of_mem hx) r.id List.mem_cons_self hid
  · exact (List.nodup_cons.1 hback).1 (hid ▸ List.mem_map_of_mem hx)

namespace Store.Split

variable {s : Store} {r : TaskRow} {front back : List TaskRow} {p : TaskRow → Bool} {f : TaskRow → TaskRow}

/-- An `UPDATE` of this row only. -/
theorem update (h : s.Split r front back) (hr : p r = true) (hp : ∀ x, p x = true → x.id = r.id) :
    (s.updateTasks p f).tasks = front ++ f r :: back := by
  have hkeep : ∀ l : List TaskRow, (∀ x ∈ l, x.id ≠ r.id) → l.map (fun x => if p x then f x else x) = l := by
    intro l hl
    rw [List.map_congr_left fun x hx => if_neg fun hpx => hl x hx (hp x hpx)]
    exact List.map_id' l
  rw [Store.updateTasks, h.tasks, List.map_append, List.map_cons, hkeep front h.front, hkeep back h.back, if_pos hr]

/-- A `SELECT` of this row. -/
theorem select (h : s.Split r front back) (hr : p r = true) (hp : ∀ x, p x = true → x.id = r.id) :
    s.tasks.filter p = [r] := by
  have hnone : ∀ l : List TaskRow, (∀ x ∈ l, x.id ≠ r.id) → l.filter p = [] := by
    intro l hl
    exact List.filter_eq_nil_iff.2 fun x hx hpx => hl x hx (hp x hpx)
  rw [h.tasks, List.filter_append, List.filter_cons_of_pos hr, hnone front h.front, hnone back h.back]
  rfl

/-- A `DELETE` of this row. -/
theorem delete (h : s.Split r front back) : s.tasks.filter (fun x => !(x.id == r.id)) = front ++ back := by
  have hkeep : ∀ l : List TaskRow, (∀ x ∈ l, x.id ≠ r.id) → l.filter (fun x => !(x.id == r.id)) = l := by
    intro l hl
    exact List.filter_eq_self.2 fun x hx => by simpa using hl x hx
  rw [h.tasks, List.filter_append, List.filter_cons, hkeep front h.front, hkeep back h.back]
  simp

end Store.Split

section Ordered

variable {s s' : Store} {aging : Option AgingParams} {p : TaskRow → Bool} {r : TaskRow}
    {queue front back : List TaskRow}

theorem Store.mem_ordered : r ∈ s.ordered aging p ↔ r ∈ s.tasks ∧ p r = true := by
  rw [Store.ordered, List.mem_insertionSort, List.mem_filter]

/-- A row that is not among the first `n` of the queue has `n` rows before it. -/
theorem Store.before_of_not_taken {n : Nat} (hr : r ∈ s.ordered aging p) (h : r ∉ (s.ordered aging p).take n) :
    (∀ x ∈ (s.ordered aging p).take n, x.before aging r) ∧ n < (s.ordered aging p).length := by
  have hsorted : (s.ordered aging p).Pairwise (TaskRow.before aging) := List.pairwise_insertionSort _ _
  rw [← List.take_append_drop n (s.ordered aging p), List.pairwise_append] at hsorted
  rw [← List.take_append_drop n (s.ordered aging p), List.mem_append] at hr
  have hdrop := hr.resolve_left h
  have hlong := List.length_pos_of_mem hdrop
  rw [List.length_drop] at hlong
  exact ⟨fun x hx => hsorted.2.2 x hx r hdrop, by omega⟩

/-- The head of the queue stands somewhere in the table, the rest of the queue around it. -/
private theorem queue_perm (h : s.Split r front back) (hq : s.ordered aging p = r :: queue) :
    queue.Perm (front.filter p ++ back.filter p) := by
  have hr : p r = true := by
    have hmem : r ∈ s.ordered aging p := hq ▸ List.mem_cons_self
    exact (Store.mem_ordered.1 hmem).2
  have hperm : (r :: queue).Perm (s.tasks.filter p) := hq ▸ List.perm_insertionSort _ _
  rw [h.tasks, List.filter_append, List.filter_cons_of_pos hr] at hperm
  exact List.Perm.cons_inv (hperm.trans List.perm_middle)

/-- A sorted list of the selected rows is what the query returns. -/
private theorem ordered_unique {l : List TaskRow} (hids : (l.map (·.id)).Nodup) (hperm : l.Perm (s.tasks.filter p))
    (hsorted : l.Pairwise (TaskRow.before aging)) : s.ordered aging p = l := by
  have hperm' : (s.ordered aging p).Perm l := (List.perm_insertionSort _ _).trans hperm.symm
  refine List.Perm.eq_of_pairwise (fun a b ha hb hab hba => ?_) (List.pairwise_insertionSort _ _) hsorted hperm'
  exact List.inj_on_of_nodup_map hids (hperm'.mem_iff.1 ha) hb (TaskRow.id_eq_of_before hab hba)

/-- Part of a queue is the queue of the narrower query. -/
theorem Store.ordered_filter (hschema : s.Schema) (q : TaskRow → Bool) :
    (s.ordered aging p).filter q = s.ordered aging fun r => p r && q r := by
  have hperm : (s.ordered aging p).Perm (s.tasks.filter p) := List.perm_insertionSort _ _
  refine (ordered_unique ?_ ?_ ?_).symm
  · have hids : ((s.ordered aging p).map (·.id)).Nodup :=
      (hperm.map _).nodup_iff.2 ((List.filter_sublist.map _).nodup hschema.ids)
    exact (List.filter_sublist.map _).nodup hids
  · have hfilter := hperm.filter q
    rwa [List.filter_filter, List.filter_congr fun r _ => Bool.and_comm (q r) (p r)] at hfilter
  · exact (List.pairwise_insertionSort _ _).sublist List.filter_sublist

private theorem queue_ids (hschema : s.Schema) (hq : s.ordered aging p = r :: queue) :
    ((r :: queue).map (·.id)).Nodup := by
  have hperm : (r :: queue).Perm (s.tasks.filter p) := hq ▸ List.perm_insertionSort _ _
  exact (hperm.map _).nodup_iff.2 (((List.filter_sublist (l := s.tasks)).map _).nodup hschema.ids)

private theorem queue_sorted (hq : s.ordered aging p = r :: queue) : (r :: queue).Pairwise (TaskRow.before aging) :=
  hq ▸ List.pairwise_insertionSort _ _

/-- The head goes, and the rest of the queue is left. -/
theorem Store.ordered_remove (mid : List TaskRow) (hschema : s.Schema) (h : s.Split r front back)
    (hq : s.ordered aging p = r :: queue) (htasks : s'.tasks = front ++ mid ++ back) (hmid : mid.filter p = []) :
    s'.ordered aging p = queue := by
  refine ordered_unique (List.nodup_cons.1 (queue_ids hschema hq)).2 ?_ (List.pairwise_cons.1 (queue_sorted hq)).2
  rw [htasks, List.filter_append, List.filter_append, hmid, List.append_nil]
  exact queue_perm h hq

/-- The head changes, but not its place in the queue. -/
theorem Store.ordered_replace {r' : TaskRow} (hschema : s.Schema) (h : s.Split r front back)
    (hq : s.ordered aging p = r :: queue) (htasks : s'.tasks = front ++ r' :: back) (hp : p r' = true)
    (hid : r'.id = r.id) (hrank : r'.rank aging = r.rank aging) : s'.ordered aging p = r' :: queue := by
  have hids := queue_ids hschema hq
  obtain ⟨hhead, htail⟩ := List.pairwise_cons.1 (queue_sorted hq)
  refine ordered_unique ?_ ?_ (List.pairwise_cons.2 ⟨fun x hx => ?_, htail⟩)
  · rw [List.map_cons, hid]
    exact hids
  · rw [htasks, List.filter_append, List.filter_cons_of_pos hp]
    exact ((queue_perm h hq).cons r').trans List.perm_middle.symm
  · have hbefore := hhead x hx
    unfold TaskRow.before at hbefore ⊢
    rw [hid, hrank]
    exact hbefore

end Ordered

end Taskmill
