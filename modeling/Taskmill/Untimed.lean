import Taskmill.Completion
import Taskmill.Transact.Alike

/-!
# Completions and failures at different times

A completion or failure reads the clock, but only to write it down: `created_at`, `run_after`, `expires_at` and
`paused_at_ms` of rows, `completed_at` and `duration_ms` of history rows.  Which rows it changes does not depend on
the time, so two calls that start from tables which agree up to these columns end in such tables.
-/

namespace Taskmill

open Transact

/-- A row without its timestamps. -/
def TaskRow.untimed (r : TaskRow) : TaskRow :=
  { r with
    createdAt := 0
    runAfter := r.runAfter.map fun _ => 0
    expiresAt := r.expiresAt.map fun _ => 0
    pausedAtMs := r.pausedAtMs.map fun _ => 0 }

def TaskHistoryRow.untimed (h : TaskHistoryRow) : TaskHistoryRow :=
  { h with completedAt := 0, durationMs := h.durationMs.map fun _ => 0 }

/-- The tables without the timestamps that a completion or failure writes. -/
@[simps] def Store.untimed (s : Store) : Store :=
  { s with tasks := s.tasks.map TaskRow.untimed, taskHistory := s.taskHistory.map TaskHistoryRow.untimed }

/-- The stores agree up to timestamps. -/
def Store.SameUntimed (s t : Store) : Prop := s.untimed = t.untimed

namespace Store.SameUntimed

variable {s t : Store}

/-- What can be read from the stores without their timestamps. -/
private theorem view {γ : Type} (h : s.SameUntimed t) (g : Store → γ) : g s.untimed = g t.untimed := congrArg g h

theorem taskDeps (h : s.SameUntimed t) : s.taskDeps = t.taskDeps := h.view Store.taskDeps

theorem taskTags (h : s.SameUntimed t) : s.taskTags = t.taskTags := h.view Store.taskTags

theorem taskHistoryTags (h : s.SameUntimed t) : s.taskHistoryTags = t.taskHistoryTags :=
  h.view Store.taskHistoryTags

theorem hasTags (h : s.SameUntimed t) : s.hasTags = t.hasTags := h.view Store.hasTags

theorem nextInst (h : s.SameUntimed t) : s.nextInst = t.nextInst := h.view Store.nextInst

theorem groupPaused (h : s.SameUntimed t) : s.groupPaused = t.groupPaused := h.view Store.groupPaused

theorem tagsOf (h : s.SameUntimed t) : s.tagsOf = t.tagsOf := h.view Store.tagsOf

/-- A column that is no timestamp. -/
private theorem map_tasks {γ : Type} (h : s.SameUntimed t) {g : TaskRow → γ} (hg : ∀ r, g r.untimed = g r) :
    s.tasks.map g = t.tasks.map g := by
  have hs : ∀ u : Store, u.untimed.tasks.map g = u.tasks.map g := by
    intro u
    rw [Store.untimed_tasks, List.map_map]
    exact List.map_congr_left fun r _ => hg r
  rw [← hs s, ← hs t, h]

theorem ids (h : s.SameUntimed t) : s.ids = t.ids := h.map_tasks fun _ => rfl

theorem nextTaskId (h : s.SameUntimed t) : s.nextTaskId = t.nextTaskId := congrArg nextRowid h.ids

theorem nextHistoryId (h : s.SameUntimed t) : s.nextHistoryId = t.nextHistoryId := by
  have hs : ∀ u : Store, u.untimed.taskHistory.map (·.id) = u.taskHistory.map (·.id) := by
    intro u
    rw [Store.untimed_taskHistory, List.map_map]
    rfl
  rw [Store.nextHistoryId, Store.nextHistoryId, ← hs s, ← hs t, h]

/-- A condition that reads no timestamp. -/
private theorem any_tasks (h : s.SameUntimed t) {p : TaskRow → Bool} (hp : ∀ r, p r.untimed = p r) :
    s.tasks.any p = t.tasks.any p := by
  have hs : ∀ u : Store, u.tasks.any p = (u.tasks.map p).any id := by
    intro u
    rw [List.any_map]
    rfl
  rw [hs s, hs t, h.map_tasks hp]

private theorem countP_tasks (h : s.SameUntimed t) {p : TaskRow → Bool} (hp : ∀ r, p r.untimed = p r) :
    s.tasks.countP p = t.tasks.countP p := by
  have hs : ∀ u : Store, u.tasks.countP p = (u.tasks.map p).countP id := by
    intro u
    rw [List.countP_map]
    rfl
  rw [hs s, hs t, h.map_tasks hp]

private theorem filter_ids (h : s.SameUntimed t) {p : TaskRow → Bool} (hp : ∀ r, p r.untimed = p r) :
    (s.tasks.filter p).map (·.id) = (t.tasks.filter p).map (·.id) := by
  have hs : ∀ u : Store, (u.tasks.filter p).map (·.id) = (u.untimed.tasks.filter p).map (·.id) := by
    intro u
    rw [Store.untimed_tasks, List.filter_map, List.map_map]
    exact congrArg _ (List.filter_congr fun r _ => (hp r).symm)
  rw [hs s, hs t, h]

private theorem taskByKey_isSome (h : s.SameUntimed t) (key : String) :
    (s.taskByKey key).isSome = (t.taskByKey key).isSome := by
  have hs : ∀ u : Store, (u.taskByKey key).isSome = u.tasks.any (·.key == key) := by
    intro u
    rw [Store.taskByKey, Bool.eq_iff_iff, List.find?_isSome, List.any_eq_true]
  rw [hs s, hs t, h.any_tasks fun _ => rfl]

/-- A change of rows by a condition that reads no timestamp. -/
private theorem update (h : s.SameUntimed t) {p : TaskRow → Bool} {f g : TaskRow → TaskRow} (F : TaskRow → TaskRow)
    (hp : ∀ r, p r.untimed = p r) (hf : ∀ r, (f r).untimed = F r.untimed) (hg : ∀ r, (g r).untimed = F r.untimed) :
    (s.updateTasks p f).SameUntimed (t.updateTasks p g) := by
  have hone : ∀ (u : Store) (f : TaskRow → TaskRow), (∀ r, (f r).untimed = F r.untimed) →
      (u.updateTasks p f).untimed = u.untimed.updateTasks p F := by
    intro u f hf
    have htasks : (u.tasks.map fun r => if p r then f r else r).map TaskRow.untimed =
        (u.tasks.map TaskRow.untimed).map fun r => if p r then F r else r := by
      rw [List.map_map, List.map_map]
      refine List.map_congr_left fun r _ => ?_
      simp only [Function.comp_apply, hp]
      split
      · exact hf r
      · rfl
    rw [Store.untimed, Store.updateTasks_tasks, htasks]
    rfl
  rw [Store.SameUntimed, hone s f hf, hone t g hg, h]

private theorem delete (h : s.SameUntimed t) {p : TaskRow → Bool} (hp : ∀ r, p r.untimed = p r) :
    (s.deleteTasks p).SameUntimed (t.deleteTasks p) := by
  have hone : ∀ u : Store, (u.deleteTasks p).untimed = u.untimed.deleteTasks p := by
    intro u
    have htasks : (u.tasks.filter fun r => !p r).map TaskRow.untimed =
        (u.tasks.map TaskRow.untimed).filter fun r => !p r := by
      rw [List.filter_map]
      refine congrArg _ (List.filter_congr fun r _ => ?_)
      rw [Function.comp_apply, hp]
    rw [Store.untimed, Store.deleteTasks_tasks, htasks]
    rfl
  rw [Store.SameUntimed, hone s, hone t, h]

private theorem deleteTags (h : s.SameUntimed t) (id : Int) :
    (s.deleteTaskTags id).SameUntimed (t.deleteTaskTags id) :=
  congrArg (Store.deleteTaskTags · id) h

end Store.SameUntimed

/-! ### The statements -/

section Statements

variable {α β : Type} {Q : α → β → Prop} {task : TaskRecord} {now now' : Int}

private theorem alike_transaction {x : Sql α} {y : Sql β} (h : Txn.Alike Store.SameUntimed Q x y) :
    Txn.Alike Store.SameUntimed Q (transaction x) (transaction y) := by
  refine h.atomically fun s s' t t' hst hst' => ?_
  have hone : ∀ u u' : Store, (u.rollback u').untimed = u.untimed.rollback u'.untimed := fun _ _ => rfl
  rw [Store.SameUntimed, hone, hone, hst, hst']

private theorem alike_insertHistory {status : HistoryStatus} {metrics : IoBudget} {lastError : Option String}
    {skipTags : Bool} :
    Txn.Alike Store.SameUntimed (fun _ _ => True)
      (insertHistory task status metrics (computeDurationMs now task) lastError skipTags now)
      (insertHistory task status metrics (computeDurationMs now' task) lastError skipTags now') := by
  refine (Txn.Alike.map_get fun s t h => h.nextHistoryId).bind ?_
  rintro rowid _ rfl
  refine (Txn.Alike.modify fun s t h => ?_).bind fun _ _ _ => ?_
  · have hdur : ∀ now, (computeDurationMs now task).map (fun _ => (0 : Int)) = task.startedAt.map fun _ => 0 := by
      intro now
      rw [computeDurationMs, Option.map_map]
      rfl
    have hone : ∀ (u : Store) (now : Int), Store.untimed { u with taskHistory := u.taskHistory ++
        [historyRow rowid task status metrics (computeDurationMs now task) lastError now] } =
        { u.untimed with taskHistory := u.untimed.taskHistory ++
          [historyRow rowid task status metrics (task.startedAt.map fun _ => 0) lastError 0] } := by
      intro u now
      rw [Store.untimed]
      simp only [List.map_append, List.map_cons, List.map_nil, TaskHistoryRow.untimed, historyRow, hdur]
      rfl
    rw [Store.SameUntimed, hone s now, hone t now', h]
  · split
    · exact Txn.Alike.pure trivial
    · intro s t h
      rw [copyTags, copyTags, h.tagsOf, h.taskHistoryTags]
      split
      · exact ⟨.error _, h⟩
      · refine ⟨.ok trivial, ?_⟩
        exact congrArg (fun u : Store => { u with
          taskHistoryTags := t.taskHistoryTags ++ (t.tagsOf task.id).map fun tag => (rowid, tag) }) h

/-- A pause for its group, at any time. -/
private theorem untimed_pauseFor (now : Int) (r : TaskRow) :
    (r.pauseFor .group now).untimed = r.untimed.pauseFor .group 0 := by
  have hpaused : (some (r.pausedAtMs.getD now)).map (fun _ => (0 : Int)) =
      some ((r.pausedAtMs.map fun _ => (0 : Int)).getD 0) := by
    cases r.pausedAtMs with
    | none => rfl
    | some _ => rfl
  simp only [TaskRow.untimed, TaskRow.pauseFor, hpaused]

private theorem untimed_nextInstance (task : TaskRecord) (interval now : Int) (id : Int) (inst : Nat) :
    TaskRow.untimed { task.nextInstance interval now with id := id, inst := inst } =
      TaskRow.untimed { task.nextInstance interval 0 with id := id, inst := inst } := by
  simp only [TaskRow.untimed, TaskRecord.nextInstance, Option.map_some]
  congr 1
  cases task.ttlSeconds with
  | none => rfl
  | some ttl =>
    cases task.ttlFrom with
    | submission => rfl
    | firstAttempt => rfl

private theorem alike_insertTags {id : Int} {tags : List (String × String)} :
    Txn.Alike Store.SameUntimed (fun _ _ => True) (insertTags id tags) (insertTags id tags) := by
  have htag : ∀ tag, Txn.Alike Store.SameUntimed (fun _ _ => True) (insertTag id tag) (insertTag id tag) := by
    intro tag s t h
    rw [insertTag, insertTag, h.taskTags]
    split
    · exact ⟨.error _, h⟩
    · refine ⟨.ok trivial, ?_⟩
      exact congrArg (fun u : Store => { u with taskTags := t.taskTags ++ [(id, tag)] }) h
  have hloop : Txn.Alike Store.SameUntimed (fun _ _ => True) (Txn.mapList (insertTag id) tags)
      (Txn.mapList (insertTag id) tags) := by
    induction tags with
    | nil => exact Txn.Alike.pure trivial
    | cons tag tags ih => exact (htag tag).bind fun _ _ _ => ih.bind fun _ _ _ => Txn.Alike.pure trivial
  exact hloop.bind fun _ _ _ => Txn.Alike.pure trivial

private theorem alike_insertTask {interval : Int} :
    Txn.Alike Store.SameUntimed Eq (insertTask (task.nextInstance interval now))
      (insertTask (task.nextInstance interval now')) := by
  intro s t h
  have hkey : (s.taskByKey (task.nextInstance interval now).key).isSome =
      (t.taskByKey (task.nextInstance interval now').key).isSome := h.taskByKey_isSome _
  rw [insertTask, insertTask, hkey]
  split
  · exact ⟨.error _, h⟩
  · refine ⟨.ok h.nextTaskId, ?_⟩
    have hone : ∀ (u : Store) (now : Int), (u.addTask (task.nextInstance interval now)).untimed =
        { u.untimed with
          tasks := u.untimed.tasks ++ [TaskRow.untimed { task.nextInstance interval 0 with
            id := u.nextTaskId, inst := u.nextInst }]
          nextInst := u.nextInst + 1 } := by
      intro u now
      rw [Store.untimed, Store.addTask_tasks, List.map_append, List.map_cons, untimed_nextInstance]
      rfl
    rw [Store.SameUntimed, hone s now, hone t now', h.nextTaskId, h.nextInst, h]

/-- The next run and the number of the next instance: the number does not depend on the time. -/
def SameInstance (a b : Option (Int × Int)) : Prop := a.map Prod.snd = b.map Prod.snd

private theorem alike_createNextInstance {tags : List (String × String)} {interval : Int} :
    Txn.Alike Store.SameUntimed SameInstance (createNextInstance task tags interval now)
      (createNextInstance task tags interval now') := by
  refine Txn.Alike.get_bind fun s t h => ?_
  rw [h.any_tasks (p := fun r => r.key == task.key && r.status == .pending) fun _ => rfl]
  split
  · exact Txn.Alike.pure rfl
  · refine alike_insertTask.bind ?_
    rintro nextId _ rfl
    refine alike_insertTags.bind fun _ _ _ => ?_
    refine (Txn.Alike.map_get fun s t h => congrFun h.groupPaused task.groupKey).bind ?_
    rintro paused _ rfl
    refine (Txn.Alike.modify fun s t h => ?_).bind fun _ _ _ => Txn.Alike.pure rfl
    split
    · exact h.update (TaskRow.pauseFor · .group 0) (fun _ => rfl) (untimed_pauseFor now) (untimed_pauseFor now')
    · exact h

private theorem alike_completeInner {metrics : IoBudget} {skipTags : Bool} :
    Txn.Alike Store.SameUntimed SameInstance (completeInner task metrics skipTags now)
      (completeInner task metrics skipTags now') := by
  refine alike_insertHistory.bind fun _ _ _ => ?_
  refine (Txn.Alike.map_get fun s t h => congrFun h.tagsOf task.id).bind ?_
  rintro tags _ rfl
  have hdelete : Txn.Alike Store.SameUntimed Eq (deleteCompleted task.id) (deleteCompleted task.id) := by
    intro s t h
    exact ⟨.ok (h.countP_tasks fun _ => rfl), h.delete fun _ => rfl⟩
  refine hdelete.bind ?_
  rintro deleted _ rfl
  split
  · refine (Txn.Alike.modify fun s t h => ?_).bind fun _ _ _ => Txn.Alike.pure rfl
    have hrow : (s.updateTasks (·.id == task.id) (TaskRow.resetRequeued s.nextInst)).SameUntimed
        (t.updateTasks (·.id == task.id) (TaskRow.resetRequeued s.nextInst)) :=
      h.update (TaskRow.resetRequeued s.nextInst) (fun _ => rfl) (fun _ => rfl) (fun _ => rfl)
    rw [Store.resetRequeued, Store.resetRequeued, ← h.ids, ← h.nextInst]
    exact congrArg (fun u : Store => { u with
      nextInst := if s.ids.contains task.id then s.nextInst + 1 else s.nextInst }) hrow
  · refine (Txn.Alike.modify fun s t h => ?_).bind fun _ _ _ => ?_
    · split
      · exact h
      · exact h.deleteTags task.id
    · split
      · exact Txn.Alike.pure rfl
      · exact alike_createNextInstance

private theorem alike_resolveDependentsInner {id : Int} :
    Txn.Alike Store.SameUntimed Eq (resolveDependentsInner id now) (resolveDependentsInner id now') := by
  have hedges : Txn.Alike Store.SameUntimed Eq (deleteEdgesTo id) (deleteEdgesTo id) := by
    intro s t h
    refine ⟨.ok (by rw [h.taskDeps]), ?_⟩
    exact congrArg (fun u : Store => { u with taskDeps := u.taskDeps.filter fun e => !(e.2 == id) }) h
  refine hedges.bind ?_
  rintro dependents _ rfl
  split
  · exact Txn.Alike.pure rfl
  · have hunblock : Txn.Alike Store.SameUntimed Eq (unblock dependents) (unblock dependents) := by
      intro s t h
      have hsel : s.unblockable dependents = t.unblockable dependents := by
        funext r
        rw [Store.unblockable, Store.unblockable, h.taskDeps]
      rw [unblock, unblock, hsel]
      refine ⟨.ok (h.filter_ids fun _ => rfl), ?_⟩
      exact h.update (fun r => { r with status := .pending }) (fun _ => rfl) (fun _ => rfl) (fun _ => rfl)
    refine hunblock.bind ?_
    rintro unblocked _ rfl
    refine (Txn.Alike.modify fun s t h => ?_).bind fun _ _ _ => Txn.Alike.pure rfl
    rw [Store.pauseUnblocked, Store.pauseUnblocked, h.groupPaused]
    exact h.update (TaskRow.pauseFor · .group 0) (fun _ => rfl) (untimed_pauseFor now) (untimed_pauseFor now')

/-- Two reports of a completion that differ in the time of the next run at most. -/
def SameReport (a b : Int × Option (Int × Int) × List Int) : Prop :=
  a.1 = b.1 ∧ SameInstance a.2.1 b.2.1 ∧ a.2.2 = b.2.2

theorem alike_completeAndResolveTx (task : TaskRecord) (metrics : IoBudget) (now now' : Int) :
    Txn.Alike Store.SameUntimed SameReport (completeAndResolveTx task metrics now)
    (completeAndResolveTx task metrics now') := by
  have hround : ∀ skipTags, Txn.Alike Store.SameUntimed SameReport (completeAndResolve skipTags now (task, metrics))
      (completeAndResolve skipTags now' (task, metrics)) := by
    intro skipTags
    refine alike_completeInner.bind fun instance₁ instance₂ hinst => alike_resolveDependentsInner.bind ?_
    rintro unblocked _ rfl
    exact Txn.Alike.pure ⟨rfl, hinst, rfl⟩
  refine alike_transaction fun s t h => ?_
  rw [h.hasTags]
  exact hround _ s t h

theorem alike_failWithRecordTx (task : TaskRecord) (error : String) (retryable : Bool) (metrics : IoBudget)
    (backoff : FailBackoff) (now now' : Int) :
    Txn.Alike Store.SameUntimed (fun _ _ => True) (failWithRecordTx task error retryable 0 metrics backoff now)
      (failWithRecordTx task error retryable 0 metrics backoff now') := by
  refine alike_transaction ?_
  rw [failInner, failInner, willRetry_zero]
  refine alike_insertHistory.bind fun _ _ _ => Txn.Alike.modify fun s t h => ?_
  exact (h.deleteTags task.id).delete fun _ => rfl

end Statements

end Taskmill
