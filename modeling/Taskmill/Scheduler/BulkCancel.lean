import Taskmill.Scheduler.Descendants
import Taskmill.TagQueries

/-!
# Bulk cancellation

`cancel_group`, `cancel_type`, `cancel_by_tag`, `cancel_by_tag_key_prefix` and `cancel_where` of
`src/scheduler/submit.rs`, and `cancel_all` and `cancel_where` of `src/module.rs`.  Each reads the ids of some tasks
and calls `cancel` for one after the other, so that it meets what the cancellations before did to the later ones:
children that are gone already, dependents that have failed.

Nothing that `cancel` does brings a row or an execution back (`cancel_shrinks`), hence none of the tasks is left in
the end (`cancelIds_ends`).
-/

namespace Taskmill

open Transact

/-! ### The calls -/

/-- `for id in ids { if self.cancel(id).await? { cancelled.push(id) } }` -/
def cancelIds (now : Int) (ids : List Int) : Sched (List Int) := do
  let cancelled ← Txn.mapList (fun id => do
    let found ← cancel id now
    pure (if found then [id] else [])) ids
  pure cancelled.flatten

/-- `SELECT * FROM tasks WHERE … ORDER BY id ASC`, with the tags. -/
def Store.tasksWhere (s : Store) (p : TaskRow → Bool) : List TaskRecord :=
  ((s.tasks.filter p).insertionSort fun a b => a.id ≤ b.id).map fun r => s.populateTags (rowToTaskRecord r)

/-- `tasks_by_group` -/
def Store.tasksByGroup (s : Store) (groupKey : String) : List TaskRecord := s.tasksWhere (·.groupKey == some groupKey)

/-- `tasks_by_type` -/
def Store.tasksByType (s : Store) (taskType : String) : List TaskRecord := s.tasksWhere (·.taskType == taskType)

/-- `all_active_tasks` -/
def Store.allActiveTasks (s : Store) : List TaskRecord := s.tasksWhere fun _ => true

/-- `Scheduler::cancel_group` -/
def cancelGroup (groupKey : String) (now : Int) : Sched (List Int) := do
  let tasks ← onStore ((fun s => s.tasksByGroup groupKey) <$> Txn.get)
  cancelIds now (tasks.map (·.id))

/-- `Scheduler::cancel_type` -/
def cancelType (taskType : String) (now : Int) : Sched (List Int) := do
  let tasks ← onStore ((fun s => s.tasksByType taskType) <$> Txn.get)
  cancelIds now (tasks.map (·.id))

/-- `Scheduler::cancel_by_tag` -/
def cancelByTag (key value : String) (now : Int) : Sched (List Int) := do
  let ids ← onStore (do Txn.ofExcept ((← Txn.get).taskIdsByTags [(key, value)] none))
  cancelIds now ids

/-- `Scheduler::cancel_where` -/
def cancelWhere (predicate : TaskRecord → Bool) (now : Int) : Sched (List Int) := do
  let tasks ← onStore ((fun s => s.allActiveTasks) <$> Txn.get)
  cancelEach predicate now tasks

/-! ### What a bulk cancellation does -/

/-- The history has the task, or the execution that was in the active map under its id, as cancelled. -/
def Control.Recorded (σ : Control) (id : Int) (s' : Store) : Prop :=
  ∃ h ∈ s'.taskHistory, h.status = .cancelled ∧
    ((∃ r ∈ σ.store.tasks, r.id = id ∧ h.inst = r.inst) ∨
      ∃ task ∈ σ.active, task.id = id ∧ h.inst = task.inst)

/-- None of the tasks is left, in the store or in the active map, those that are returned are in the history, and
apart from that tasks can only have gone. -/
structure Control.Ends (σ : Control) (ids cancelled : List Int) (σ' : Control) : Prop where
  gone : ∀ id ∈ ids, id ∉ σ'.store.ids
  stopped : ∀ id ∈ ids, ∀ task ∈ σ'.active, task.id ≠ id
  returned : cancelled.Sublist ids
  recorded : ∀ id ∈ cancelled, σ.Recorded id σ'.store
  thins : σ.store.Thins σ'.store
  active : ∀ task ∈ σ'.active, task ∈ σ.active

/-- The call ends, and the tasks that meet `p` are those that it has cancelled. -/
def Control.Cancels (σ : Control) (x : Sched (List Int)) (p : TaskRow → Bool) : Prop :=
  ∃ ids cancelled σ', x σ = (.ok cancelled, σ') ∧ ids.Perm ((σ.store.tasks.filter p).map (·.id)) ∧
    σ.Ends ids cancelled σ'

/-- The calls, and the tasks that they select. -/
structure Control.BulkCancels (σ : Control) (now : Int) : Prop where
  group : ∀ groupKey, σ.Cancels (cancelGroup groupKey now) fun r => r.groupKey == some groupKey
  type : ∀ taskType, σ.Cancels (cancelType taskType now) fun r => r.taskType == taskType
  tag : ∀ key value, σ.Cancels (cancelByTag key value now) fun r => σ.store.taskTags.contains (r.id, key, value)
  tagKey : ∀ sel, σ.Cancels (cancelByTagKeyPrefix sel now) fun r =>
    σ.store.taskTags.any fun t => t.1 == r.id && sel t.2.1
  all : ∀ predicate, σ.Cancels (cancelWhere predicate now) fun r =>
    predicate (σ.store.populateTags (rowToTaskRecord r))
  module : ∀ sel predicate, σ.Cancels (cancelSelected sel predicate now) fun r =>
    sel r.taskType && predicate (σ.store.populateTags (rowToTaskRecord r))

/-! ### One cancellation -/

/-- Rows and executions go, none comes. -/
def Control.Shrinks (σ σ' : Control) : Prop := σ.store.Thins σ'.store ∧ ∀ task ∈ σ'.active, task ∈ σ.active

namespace Control.Shrinks

variable {σ σ' σ'' : Control}

theorem refl (σ : Control) : σ.Shrinks σ := ⟨.refl _, fun _ h => h⟩

theorem trans (h : σ.Shrinks σ') (h' : σ'.Shrinks σ'') : σ.Shrinks σ'' :=
  ⟨h.1.trans h'.1, fun task ht => h.2 task (h'.2 task ht)⟩

/-- An id that is gone does not come back. -/
theorem gone (h : σ.Shrinks σ') {id : Int} (hid : id ∉ σ.store.ids) : id ∉ σ'.store.ids := by
  intro hmem
  obtain ⟨r', hr', rfl⟩ := List.mem_map.1 hmem
  obtain ⟨r, hr, he, _⟩ := h.1.rows r' hr'
  exact hid (he ▸ List.mem_map_of_mem hr)

end Control.Shrinks

section Cancel

variable {σ σ' : Control} {s s' : Store} {id now : Int}

private theorem onStore_shrinks {α : Type} {x : Sql α} (hx : Txn.Always Store.Thins x) :
    Txn.Always Control.Shrinks (onStore x) := by
  intro σ
  exact ⟨hx σ.store, fun _ h => h⟩

private theorem cancelActive_shrinks : Txn.Always Control.Shrinks (cancelActive now id) := by
  intro σ
  refine ⟨Sched.Thinning.cancelActive id σ, fun task htask => ?_⟩
  rw [cancelActive_active] at htask
  exact List.mem_of_mem_filter htask

private theorem cancelChildren_shrinks (id now : Int) :
    Txn.Always Control.Shrinks (onStore (cancelChildren id now)) :=
  onStore_shrinks thins_cancelChildren

private theorem cancelEach_shrinks (ids : List Int) (now : Int) :
    Txn.Always Control.Shrinks (Txn.mapList (cancelActive now) ids) :=
  .mapList .refl (fun _ _ _ => .trans) (fun _ => cancelActive_shrinks) ids

theorem cancel_shrinks : Txn.Always Control.Shrinks (cancel id now) := by
  refine (cancelChildren_shrinks id now).bind (fun _ _ _ => .trans) fun ids => ?_
  refine (cancelEach_shrinks ids now).bind (fun _ _ _ => .trans) fun _ => ?_
  refine cancelActive_shrinks.bind (fun _ _ _ => .trans) fun found => ?_
  split
  · exact .pure .refl _
  · exact onStore_shrinks thins_cancelToHistory

theorem cancelToHistory_total :
    Txn.Total Store.HistoryTagsOwned (cancelToHistory id now) fun _ => Store.HistoryTagsOwned := by
  have htx : Txn.Total Store.HistoryTagsOwned (cancelToHistoryTx id now) fun _ => Store.HistoryTagsOwned := by
    refine .atomically fun s hs => ?_
    cases s.taskById id with
    | none => exact ⟨false, s, rfl, hs⟩
    | some row =>
      have hcancel : Txn.Total Store.HistoryTagsOwned (cancelInner (rowToTaskRecord row) now)
          fun _ => Store.HistoryTagsOwned :=
        .bind insertHistory_total fun _ => .modify fun _ h => h
      exact hcancel.bind (fun _ => .pure fun _ h => h) s hs
  have hcascade : Txn.Total Store.HistoryTagsOwned (failDependents id now) fun _ => Store.HistoryTagsOwned :=
    .atomically fun s hs => failDependentsInner_total _ id s hs
  refine htx.bind fun found => ?_
  split
  · exact hcascade.attempt.bind fun _ => .pure fun _ h => h
  · exact .pure fun _ h => h

theorem cancel_total (id now : Int) : Txn.Total (fun σ : Control => σ.store.HistoryTagsOwned) (cancel id now)
    fun _ σ => σ.store.HistoryTagsOwned := by
  refine .bind (Q := fun _ (σ : Control) => σ.store.HistoryTagsOwned) (cancelChildren_total.zoom fun _ _ => rfl)
    fun ids => ?_
  refine .bind (.mapList (fun _ => cancelActive_total) ids) fun _ => ?_
  refine .bind cancelActive_total fun found => ?_
  split
  · exact .pure fun _ h => h
  · exact cancelToHistory_total.zoom fun _ _ => rfl

/-- The record is in the history, and no row has its id. -/
private theorem cancelInner_ok {task : TaskRecord} {u : Unit} (h : cancelInner task now s = (.ok u, s')) :
    task.id ∉ s'.ids ∧ ∃ row ∈ s'.taskHistory, row.status = .cancelled ∧ row.inst = task.inst := by
  obtain ⟨_, s₁, hlog, hdelete⟩ := Txn.bind_ok h
  obtain ⟨tags, rfl⟩ := insertHistory_leaves hlog
  obtain ⟨_, rfl⟩ := Prod.mk.inj hdelete
  refine ⟨fun hmem => ?_, _, List.mem_append_right _ (List.mem_singleton_self _), rfl, rfl⟩
  obtain ⟨r, hr, hid⟩ := List.mem_map.1 hmem
  have hkept := (List.mem_filter.1 hr).2
  simp [hid] at hkept

/-- What stays true when rows go and history rows come. -/
private theorem thins_keeps {h : TaskHistoryRow} (ht : s.Thins s') (hid : id ∉ s.ids) (hh : h ∈ s.taskHistory) :
    id ∉ s'.ids ∧ h ∈ s'.taskHistory := by
  refine ⟨fun hmem => ?_, ht.history h hh⟩
  obtain ⟨r', hr', rfl⟩ := List.mem_map.1 hmem
  obtain ⟨r, hr, he, _⟩ := ht.rows r' hr'
  exact hid (he ▸ List.mem_map_of_mem hr)

private theorem cancelToHistoryWithRecord_ok {task : TaskRecord} {u : Unit}
    (h : cancelToHistoryWithRecord task now s = (.ok u, s')) :
    task.id ∉ s'.ids ∧ ∃ row ∈ s'.taskHistory, row.status = .cancelled ∧ row.inst = task.inst := by
  obtain ⟨_, s₁, htx, hcascade⟩ := Txn.bind_ok h
  obtain ⟨hgone, row, hrow, hstatus, hinst⟩ := cancelInner_ok (transaction_ok htx)
  have hthins : s₁.Thins s' := by
    have h : s₁.Thins (Txn.attempt (failDependents task.id now) s₁).2 := (thins_failDependents task.id).attempt s₁
    rwa [hcascade] at h
  obtain ⟨hgone, hrow⟩ := thins_keeps hthins hgone hrow
  exact ⟨hgone, row, hrow, hstatus, hinst⟩

private theorem cancelToHistory_ok {found : Bool} (h : cancelToHistory id now s = (.ok found, s')) :
    id ∉ s'.ids ∧ (found = true → ∃ r ∈ s.tasks, r.id = id ∧
      ∃ row ∈ s'.taskHistory, row.status = .cancelled ∧ row.inst = r.inst) := by
  obtain ⟨b, s₁, htx, hcascade⟩ := Txn.bind_ok h
  have hbody := transaction_ok htx
  cases hrow : s.taskById id with
  | none =>
    rw [hrow] at hbody
    cases hbody
    rw [if_neg Bool.false_ne_true] at hcascade
    cases hcascade
    refine ⟨fun hmem => ?_, fun hfound => absurd hfound Bool.false_ne_true⟩
    obtain ⟨r, hr, hid⟩ := List.mem_map.1 hmem
    exact List.find?_eq_none.1 hrow r hr (by simpa using hid)
  | some r =>
    rw [hrow] at hbody
    obtain ⟨_, s₂, hcancel, hpure⟩ := Txn.bind_ok hbody
    cases hpure
    have hid : r.id = id := by simpa using List.find?_some hrow
    obtain ⟨hgone, row, hlogged, hstatus, hinst⟩ := cancelInner_ok hcancel
    rw [if_pos rfl] at hcascade
    obtain ⟨_, s₃, hattempt, hpure⟩ := Txn.bind_ok hcascade
    cases hpure
    have hthins : s₁.Thins s' := by
      have h : s₁.Thins (Txn.attempt (failDependents id now) s₁).2 := (thins_failDependents id).attempt s₁
      rwa [hattempt] at h
    obtain ⟨hgone, hlogged⟩ := thins_keeps hthins hgone hlogged
    exact ⟨hid ▸ hgone, fun _ => ⟨r, List.mem_of_find?_eq_some hrow, hid, row, hlogged, hstatus, hinst⟩⟩

private theorem cancelActive_ok {b : Bool} (h : cancelActive now id σ = (.ok b, σ')) :
    (∀ task ∈ σ'.active, task.id ≠ id) ∧
      (b = true → id ∉ σ'.store.ids ∧ ∃ task ∈ σ.active, task.id = id ∧
        ∃ row ∈ σ'.store.taskHistory, row.status = .cancelled ∧ row.inst = task.inst) := by
  have hactive : (cancelActive now id σ).2.active = σ.active.remove id := cancelActive_active
  rw [h] at hactive
  constructor
  · intro task htask
    rw [hactive, ActiveTaskMap.remove, List.mem_filter] at htask
    simpa using htask.2
  · rw [cancelActive, Txn.bind_of_ok (x := removeActive id) rfl] at h
    cases hfind : σ.active.find? (·.id == id) with
    | none =>
      rw [hfind] at h
      cases h
      exact fun hb => absurd hb Bool.false_ne_true
    | some task =>
      rw [hfind] at h
      obtain ⟨_, σ₁, hstore, hpure⟩ := Txn.bind_ok h
      cases hpure
      obtain ⟨hok, rfl⟩ := Txn.zoom_ok hstore
      have hid : task.id = id := by simpa using List.find?_some hfind
      obtain ⟨hgone, hrow⟩ := cancelToHistoryWithRecord_ok hok
      exact fun _ => ⟨hid ▸ hgone, task, List.mem_of_find?_eq_some hfind, hid, hrow⟩

/-- The task is not left anywhere, and if it was found the history has it. -/
theorem cancel_ok {found : Bool} (h : cancel id now σ = (.ok found, σ')) :
    id ∉ σ'.store.ids ∧ (∀ task ∈ σ'.active, task.id ≠ id) ∧ (found = true → σ.Recorded id σ'.store) := by
  obtain ⟨ids, σ₁, hchildren, h⟩ := Txn.bind_ok h
  obtain ⟨_, σ₂, hloop, h⟩ := Txn.bind_ok h
  have hbefore : σ.Shrinks σ₂ := by
    have hfirst := cancelChildren_shrinks id now σ
    rw [hchildren] at hfirst
    have hrest := cancelEach_shrinks ids now σ₁
    rw [hloop] at hrest
    exact hfirst.trans hrest
  obtain ⟨b, σ₃, hactive, h⟩ := Txn.bind_ok h
  obtain ⟨hstopped, hrecorded⟩ := cancelActive_ok hactive
  cases b with
  | true =>
    rw [if_pos rfl] at h
    cases h
    obtain ⟨hgone, task, htask, hid, row, hrow, hstatus, hinst⟩ := hrecorded rfl
    exact ⟨hgone, hstopped, fun _ => ⟨row, hrow, hstatus, .inr ⟨task, hbefore.2 task htask, hid, hinst⟩⟩⟩
  | false =>
    rw [if_neg Bool.false_ne_true] at h
    obtain ⟨hok, rfl⟩ := Txn.zoom_ok h
    have hthins : σ.store.Thins σ₃.store := by
      have hself : σ₂.Shrinks (cancelActive now id σ₂).2 := cancelActive_shrinks σ₂
      rw [hactive] at hself
      exact hbefore.1.trans hself.1
    obtain ⟨hgone, hlogged⟩ := cancelToHistory_ok hok
    refine ⟨hgone, hstopped, fun hfound => ?_⟩
    obtain ⟨r, hr, hid, row, hrow, hstatus, hinst⟩ := hlogged hfound
    obtain ⟨r₀, hr₀, hid₀, hinst₀, _⟩ := hthins.rows r hr
    exact ⟨row, hrow, hstatus, .inl ⟨r₀, hr₀, hid₀.trans hid, hinst.trans hinst₀.symm⟩⟩

end Cancel

/-! ### The loop -/

section Loop

variable {σ σ' : Control} {ids : List Int} {now : Int}

theorem Control.Recorded.of_shrinks {σ₀ : Control} {id : Int} {s' : Store} (h : σ.Recorded id s')
    (hσ : σ₀.Shrinks σ) : σ₀.Recorded id s' := by
  obtain ⟨row, hrow, hstatus, ⟨r, hr, hid, hinst⟩ | ⟨task, htask, hid, hinst⟩⟩ := h
  · obtain ⟨r₀, hr₀, hid₀, hinst₀, _⟩ := hσ.1.rows r hr
    exact ⟨row, hrow, hstatus, .inl ⟨r₀, hr₀, hid₀.trans hid, hinst.trans hinst₀.symm⟩⟩
  · exact ⟨row, hrow, hstatus, .inr ⟨task, hσ.2 task htask, hid, hinst⟩⟩

theorem Control.Recorded.thins {id : Int} {s s' : Store} (h : σ.Recorded id s) (ht : s.Thins s') :
    σ.Recorded id s' := by
  obtain ⟨row, hrow, hrest⟩ := h
  exact ⟨row, ht.history row hrow, hrest⟩

/-- The loop ends, and none of the tasks is left. -/
theorem cancelIds_ends (ids : List Int) (now : Int) (howned : σ.store.HistoryTagsOwned) :
    ∃ cancelled σ', cancelIds now ids σ = (.ok cancelled, σ') ∧ σ.Ends ids cancelled σ' := by
  -- induction on the ids that are still to come
  suffices h : ∃ rounds σ', Txn.mapList (fun id => do
      let found ← cancel id now
      pure (if found then [id] else []) : Int → Sched (List Int)) ids σ = (.ok rounds, σ') ∧
        σ.Ends ids rounds.flatten σ' by
    obtain ⟨rounds, σ', hloop, hends⟩ := h
    exact ⟨_, _, Txn.bind_of_ok hloop, hends⟩
  induction ids generalizing σ with
  | nil => exact ⟨[], σ, rfl, fun _ hid => absurd hid List.not_mem_nil, fun _ hid => absurd hid List.not_mem_nil,
      List.Sublist.refl _, fun _ hid => absurd hid List.not_mem_nil, .refl _, fun _ h => h⟩
  | cons id ids ih =>
    obtain ⟨found, σ₁, hcancel, howned₁⟩ := cancel_total id now σ howned
    obtain ⟨rounds, σ', hloop, hends⟩ := ih howned₁
    obtain ⟨hgone, hstopped, hrecorded⟩ := cancel_ok hcancel
    have hshrinks : σ.Shrinks σ₁ := by
      have h : σ.Shrinks (cancel id now σ).2 := cancel_shrinks σ
      rwa [hcancel] at h
    have hrest : σ₁.Shrinks σ' := ⟨hends.thins, hends.active⟩
    have hround : (do
        let found ← cancel id now
        pure (if found then [id] else []) : Sched (List Int)) σ = (.ok (if found then [id] else []), σ₁) :=
      Txn.bind_of_ok hcancel
    refine ⟨(if found then [id] else []) :: rounds, σ', ?_, ?_, ?_, ?_, ?_, hshrinks.1.trans hends.thins,
      fun task htask => hshrinks.2 task (hends.active task htask)⟩
    · rw [Txn.mapList, Txn.bind_of_ok hround, Txn.bind_of_ok hloop]
      rfl
    · intro x hx
      rcases List.mem_cons.1 hx with rfl | hx
      · exact hrest.gone hgone
      · exact hends.gone x hx
    · intro x hx task htask
      rcases List.mem_cons.1 hx with rfl | hx
      · exact hstopped task (hends.active task htask)
      · exact hends.stopped x hx task htask
    · rw [List.flatten_cons]
      cases found with
      | true => exact hends.returned.cons_cons id
      | false => exact hends.returned.cons id
    · intro x hx
      rw [List.flatten_cons, List.mem_append] at hx
      rcases hx with hx | hx
      · cases found with
        | true =>
          obtain rfl := List.mem_singleton.1 hx
          exact (hrecorded rfl).thins hends.thins
        | false => exact absurd hx List.not_mem_nil
      · exact (hends.recorded x hx).of_shrinks hshrinks

/-- The loop of `cancel_where` passes over the other tasks. -/
private theorem cancelEach_ends (predicate : TaskRecord → Bool) (tasks : List TaskRecord) (now : Int)
    (howned : σ.store.HistoryTagsOwned) : ∃ cancelled σ', cancelEach predicate now tasks σ = (.ok cancelled, σ') ∧
      σ.Ends ((tasks.filter predicate).map (·.id)) cancelled σ' := by
  obtain ⟨cancelled, σ', hok, hends⟩ := cancelIds_ends ((tasks.filter predicate).map (·.id)) now howned
  obtain ⟨rounds, σ₁, hloop, hok⟩ := Txn.bind_ok hok
  cases hok
  rw [Txn.mapList_map] at hloop
  obtain ⟨rounds', hloop', hflatten⟩ := Txn.mapList_filter_ok hloop
  refine ⟨_, _, Txn.bind_of_ok hloop', ?_⟩
  rw [hflatten]
  exact hends

end Loop

/-! ### The calls -/

section Calls

variable {σ : Control} {p : TaskRow → Bool} {now : Int}

/-- A call that first reads the ids. -/
private theorem cancels_ids {x : Sched (List Int)} {ids : List Int} (howned : σ.store.HistoryTagsOwned)
    (hx : x σ = cancelIds now ids σ) (hids : ids.Perm ((σ.store.tasks.filter p).map (·.id))) : σ.Cancels x p := by
  obtain ⟨cancelled, σ', hok, hends⟩ := cancelIds_ends ids now howned
  exact ⟨ids, cancelled, σ', hx.trans hok, hids, hends⟩

private theorem populated_id (s : Store) :
    ((·.id : TaskRecord → Int) ∘ fun r : TaskRow => s.populateTags (rowToTaskRecord r)) = TaskRow.id := by
  funext r
  obtain ⟨tags, he⟩ := s.populateTags_eq (rowToTaskRecord r)
  rw [Function.comp_apply, he]
  rfl

/-- The records of some rows, and those of them that meet a predicate. -/
private theorem records_perm {s : Store} {rows : List TaskRow} (hrows : rows.Perm (s.tasks.filter p))
    (predicate : TaskRecord → Bool) :
    (((rows.map fun r => s.populateTags (rowToTaskRecord r)).filter predicate).map (·.id)).Perm
      ((s.tasks.filter fun r => p r && predicate (s.populateTags (rowToTaskRecord r))).map (·.id)) := by
  have hfilter := (hrows.filter (predicate ∘ fun r => s.populateTags (rowToTaskRecord r))).map TaskRow.id
  rw [List.filter_filter] at hfilter
  rw [List.filter_map, List.map_map, populated_id]
  exact hfilter.trans (.of_eq (congrArg _ (List.filter_congr fun r _ => Bool.and_comm _ _)))

private theorem tasksWhere_perm {s : Store} : ((s.tasksWhere p).map (·.id)).Perm ((s.tasks.filter p).map (·.id)) := by
  rw [Store.tasksWhere, List.map_map, populated_id]
  exact (List.perm_insertionSort (fun a b : TaskRow => a.id ≤ b.id) _).map TaskRow.id

private theorem cancelSelected_cancels (howned : σ.store.HistoryTagsOwned) (sel : String → Bool)
    (predicate : TaskRecord → Bool) : σ.Cancels (cancelSelected sel predicate now) fun r =>
      sel r.taskType && predicate (σ.store.populateTags (rowToTaskRecord r)) := by
  obtain ⟨cancelled, σ', hok, hends⟩ := cancelEach_ends predicate (σ.store.tasksByTypePrefix sel) now howned
  exact ⟨_, cancelled, σ', hok, records_perm (List.perm_insertionSort _ _) predicate, hends⟩

private theorem cancelWhere_cancels (howned : σ.store.HistoryTagsOwned) (predicate : TaskRecord → Bool) :
    σ.Cancels (cancelWhere predicate now) fun r => predicate (σ.store.populateTags (rowToTaskRecord r)) := by
  obtain ⟨cancelled, σ', hok, hends⟩ := cancelEach_ends predicate σ.store.allActiveTasks now howned
  exact ⟨_, cancelled, σ', hok, records_perm (p := fun _ => true) (List.perm_insertionSort _ _) predicate, hends⟩

end Calls

/-- A parent and its child in one group, and a task of another group that depends on the parent. -/
private def groupedRun : List Action :=
  [.submitDirect { TaskSubmission.new "a" with groupKey := some "g" } 0,
    .submitDirect { TaskSubmission.new "b" with groupKey := some "g", parentId := some 1 } 1,
    .submitDirect { TaskSubmission.new "c" with groupKey := some "h", dependencies := [1] } 2]

private def grouped : Control where
  store := execAll sampleSha256 openMemory groupedRun
  active := []
  paused := false
  modulePaused := fun _ => false

end Taskmill
