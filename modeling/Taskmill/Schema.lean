import Taskmill.Frame

/-!
# The constraints of the schema

`INTEGER PRIMARY KEY` on `tasks.id`, `UNIQUE` on `tasks.key` and the primary key of `task_deps` hold in every
reachable state because every statement keeps them, and so do the numbers of the lives: no two rows share one, and
the ones that are given out lie below `nextInst`.
-/

namespace Taskmill

open Transact

structure Store.Schema (s : Store) : Prop where
  ids : s.ids.Nodup
  keys : (s.tasks.map (·.key)).Nodup
  deps : s.taskDeps.Nodup
  insts : (s.tasks.map (·.inst)).Nodup
  inst_lt : ∀ r ∈ s.tasks, r.inst < s.nextInst

namespace Store.Schema

variable {s s' : Store}

/-- The id determines the row. -/
theorem eq_of_id (h : s.Schema) {r r' : TaskRow} (hr : r ∈ s.tasks) (hr' : r' ∈ s.tasks)
    (he : r.id = r'.id) : r = r' :=
  List.inj_on_of_nodup_map h.ids hr hr' he

/-- `taskById` finds the row with this id. -/
theorem taskById_eq (h : s.Schema) {r : TaskRow} (hr : r ∈ s.tasks) : s.taskById r.id = some r := by
  obtain ⟨r', hf⟩ : ∃ r', s.taskById r.id = some r' := by
    cases hf : s.taskById r.id with
    | none => exact absurd (List.find?_eq_none.1 hf r hr) (by simp)
    | some r' => exact ⟨r', rfl⟩
  have hid : r'.id = r.id := by simpa using List.find?_some hf
  rw [hf, h.eq_of_id (List.mem_of_find?_eq_some hf) hr hid]

/-- The number of the life determines the row. -/
theorem find_inst (h : s.Schema) {r : TaskRow} (hr : r ∈ s.tasks) : s.tasks.find? (·.inst == r.inst) = some r := by
  cases hfind : s.tasks.find? (·.inst == r.inst) with
  | none => exact absurd (List.find?_eq_none.1 hfind r hr) (by simp)
  | some r₀ =>
    have hinst : r₀.inst = r.inst := by simpa using List.find?_some hfind
    rw [List.inj_on_of_nodup_map h.insts (List.mem_of_find?_eq_some hfind) hr hinst]

/-- A key is free once its row is deleted. -/
theorem taskByKey_delete (h : s.Schema) {key : String} {row : TaskRow} (hrow : s.taskByKey key = some row) :
    (s.delete row.id).taskByKey key = none := by
  refine List.find?_eq_none.2 fun r hr hk => ?_
  obtain ⟨hr, hne⟩ := List.mem_filter.1 hr
  have hrow' := List.mem_of_find?_eq_some hrow
  have hkr : row.key = key := by simpa using List.find?_some hrow
  have hrk : r.key = key := by simpa using hk
  obtain rfl := List.inj_on_of_nodup_map h.keys hr hrow' (hrk.trans hkr.symm)
  simp at hne

private theorem of_same (h : s.Schema) (ht : s'.tasks = s.tasks) (hd : s'.taskDeps = s.taskDeps)
    (hn : s'.nextInst = s.nextInst) : s'.Schema := by
  constructor
  · rw [Store.ids, ht]; exact h.ids
  · rw [ht]; exact h.keys
  · rw [hd]; exact h.deps
  · rw [ht]; exact h.insts
  · rw [ht, hn]; exact h.inst_lt

private theorem update (h : s.Schema) {p : TaskRow → Bool} {f : TaskRow → TaskRow}
    (hf : ∀ r, (f r).id = r.id ∧ (f r).inst = r.inst ∧ (f r).key = r.key) : (s.updateTasks p f).Schema := by
  constructor
  · rw [s.ids_updateTasks p fun r => (hf r).1]; exact h.ids
  · rw [s.map_updateTasks p _ fun r => (hf r).2.2]; exact h.keys
  · exact h.deps
  · rw [s.map_updateTasks p _ fun r => (hf r).2.1]; exact h.insts
  · intro r' hr'
    obtain ⟨r, hr, rfl⟩ := List.mem_map.1 hr'
    split
    · rw [(hf r).2.1]; exact h.inst_lt r hr
    · exact h.inst_lt r hr

/-- A new life for the row with one id: the number is new, and only one row gets it. -/
private theorem renew (h : s.Schema) {id : Int} {f : TaskRow → TaskRow}
    (hf : ∀ r, (f r).id = r.id ∧ (f r).inst = s.nextInst ∧ (f r).key = r.key) :
    ({ s.updateTasks (·.id == id) f with nextInst := s.nextInst + 1 } : Store).Schema := by
  have hinst : ∀ r, (if r.id == id then f r else r).inst = if r.id == id then s.nextInst else r.inst := by
    intro r
    split
    · exact (hf r).2.1
    · rfl
  constructor
  · show ((s.updateTasks (·.id == id) f).tasks.map _).Nodup
    rw [s.map_updateTasks _ _ fun r => (hf r).1]; exact h.ids
  · show ((s.updateTasks (·.id == id) f).tasks.map _).Nodup
    rw [s.map_updateTasks _ _ fun r => (hf r).2.2]; exact h.keys
  · exact h.deps
  · show ((s.tasks.map _).map _).Nodup
    rw [List.map_map]
    refine List.Nodup.map_on ?_ (List.Nodup.of_map _ h.ids)
    intro a ha b hb hab
    simp only [Function.comp_apply, hinst] at hab
    have hla := h.inst_lt a ha
    have hlb := h.inst_lt b hb
    by_cases hai : (a.id == id) = true
    · by_cases hbi : (b.id == id) = true
      · rw [beq_iff_eq] at hai hbi
        exact h.eq_of_id ha hb (hai.trans hbi.symm)
      · rw [if_pos hai, if_neg hbi] at hab
        omega
    · by_cases hbi : (b.id == id) = true
      · rw [if_neg hai, if_pos hbi] at hab
        omega
      · rw [if_neg hai, if_neg hbi] at hab
        exact List.inj_on_of_nodup_map h.insts ha hb hab
  · intro r' hr'
    obtain ⟨r, hr, rfl⟩ := List.mem_map.1 hr'
    have := h.inst_lt r hr
    simp only [hinst]
    split
    · omega
    · omega

private theorem delete (h : s.Schema) (p : TaskRow → Bool) : (s.deleteTasks p).Schema := by
  have hsub : ∀ {γ : Type} (g : TaskRow → γ), (s.tasks.map g).Nodup → ((s.deleteTasks p).tasks.map g).Nodup :=
    fun g hg => List.Nodup.sublist ((List.filter_sublist ..).map g) hg
  exact ⟨hsub _ h.ids, hsub _ h.keys, h.deps, hsub _ h.insts, fun r hr => h.inst_lt r (List.mem_of_mem_filter hr)⟩

private theorem add (h : s.Schema) {row : TaskRow} (hk : s.taskByKey row.key = none) : (s.addTask row).Schema := by
  have happ : ∀ {γ : Type} (g : TaskRow → γ), (s.tasks.map g).Nodup →
      g { row with id := s.nextTaskId, inst := s.nextInst } ∉ s.tasks.map g →
          ((s.addTask row).tasks.map g).Nodup := by
    intro γ g hg hn
    rw [Store.addTask_tasks, List.map_append, List.map_singleton]
    exact List.Nodup.append hg (List.nodup_singleton _) (by simpa using hn)
  constructor
  · refine happ _ h.ids fun hm => ?_
    obtain ⟨r, hr, hid⟩ := List.mem_map.1 hm
    exact Store.id_ne_nextTaskId hr hid
  · refine happ _ h.keys fun hm => ?_
    obtain ⟨r, hr, hkey⟩ := List.mem_map.1 hm
    exact absurd hkey (by simpa using List.find?_eq_none.1 hk r hr)
  · exact h.deps
  · refine happ _ h.insts fun hm => ?_
    obtain ⟨r, hr, hi⟩ := List.mem_map.1 hm
    have := h.inst_lt r hr
    simp only at hi
    omega
  · intro r hr
    rcases List.mem_append.1 hr with hr | hr
    · have := h.inst_lt r hr
      simp only [Store.addTask_nextInst]
      omega
    · rw [List.mem_singleton] at hr
      subst hr
      exact Nat.lt_succ_self _

/-- Every statement keeps the constraints. -/
theorem stmt {b : Bool} (h : s.Schema) (hst : Stmt b s s') : s'.Schema := by
  cases hst with
  | history rows tags => exact h.of_same rfl rfl rfl
  | tags tags => exact h.of_same rfl rfl rfl
  | update p f hf hb => exact h.update hf
  | renew id f hf hb => exact h.renew hf
  | delete p => exact h.delete p
  | add row hk hb => exact h.add hk
  | deleteEdges p => exact ⟨h.ids, h.keys, h.deps.filter p, h.insts, h.inst_lt⟩
  | addEdges id deps hs hn hd =>
    refine ⟨h.ids, h.keys, ?_, h.insts, h.inst_lt⟩
    refine List.Nodup.append h.deps (hn.map fun a b hab => (Prod.mk.inj hab).2) ?_
    intro e he hnew
    obtain ⟨dep, hdep, rfl⟩ := List.mem_map.1 hnew
    exact hd dep hdep he
  | settings tags hierarchy running n => exact h.of_same rfl rfl rfl
  | groups groups hs => exact h.of_same rfl rfl rfl

theorem steps {b : Bool} (h : s.Schema) (hst : Steps b s s') : s'.Schema :=
  hst.invariant (fun _ _ hst hs => hs.stmt hst) h

end Store.Schema

theorem Store.Fresh.schema {s : Store} (h : s.Fresh) : s.Schema := by
  constructor
  · simp [Store.ids, h.tasks]
  · simp [h.tasks]
  · simp [h.taskDeps]
  · simp [h.tasks]
  · simp [h.tasks]

theorem ReachableVia.schema {sha256 : List UInt8 → String} {guard : Store → Action → Prop} {s : Store}
    (h : ReachableVia sha256 guard s) : s.Schema :=
  h.of_stmt (fun _ hs => hs.schema) fun _ _ _ hst hs => hs.stmt hst

theorem schema_execAll (sha256 : List UInt8 → String) (actions : List Action) {s : Store} (hs : s.Schema) :
    (execAll sha256 s actions).Schema := by
  induction actions generalizing s with
  | nil => exact hs
  | cons a actions ih => exact ih (hs.steps (a.steps sha256 s))

end Taskmill
