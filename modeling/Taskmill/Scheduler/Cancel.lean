import Taskmill.Scheduler.Control
import Taskmill.Cascade
import Taskmill.Transact.Zoom

/-!
# Cancellation with children

`Scheduler::cancel` and `handle_superseded_active` (`src/scheduler/submit.rs`) and the fail-fast branch of
`propagate_failure` (`src/scheduler/spawn/failure.rs`).  All three call `cancel_children`, which cancels the
children that are pending or paused, and then look up the running and waiting ones in the active map.

None of them adds a row or moves one to another parent, and none takes a history row away: they thin the store out
(`Store.Thins`).  The pruning of the history is a step of its own.
-/

namespace Taskmill

open Transact

/-! ### The calls of the store -/

/-- `cancel_children`: the running and waiting children are left to the caller. -/
def cancelChildren (parent now : Int) : Sql (List Int) := do
  let runningIds ← (fun s => (s.tasks.filter fun r =>
    r.parentId == some parent && (r.status == .running || r.status == .waiting)).map (·.id)) <$> Txn.get
  let pendingRows ← (fun s => s.cancellableChildren parent) <$> Txn.get
  cancelChildrenTx parent pendingRows now
  pure runningIds

/-- `cancel_to_history` -/
def cancelToHistory (id now : Int) : Sql Bool := do
  let found ← cancelToHistoryTx id now
  if found then
    Txn.attempt (failDependents id now)
    pure true
  else pure false

/-- `cancel_to_history_with_record` -/
def cancelToHistoryWithRecord (task : TaskRecord) (now : Int) : Sql Unit := do
  cancelToHistoryWithRecordTx task now
  Txn.attempt (failDependents task.id now)

/-! ### The calls of the scheduler -/

abbrev Sched := Txn Control StoreError

def onStore {α : Type} (x : Sql α) : Sched α := Txn.zoom Control.store (fun s σ => { σ with store := s }) x

/-- `ActiveTaskMap::remove` -/
def removeActive (id : Int) : Sched (Option TaskRecord) := fun σ =>
  (.ok (σ.active.find? (·.id == id)), { σ with active := σ.active.remove id })

/-- A task of the active map is taken out and recorded as cancelled; whether it was there. -/
def cancelActive (now id : Int) : Sched Bool := do
  match ← removeActive id with
  | none => pure false
  | some record =>
    onStore (cancelToHistoryWithRecord record now)
    pure true

/-- `Scheduler::cancel` -/
def cancel (id now : Int) : Sched Bool := do
  let runningChildIds ← onStore (cancelChildren id now)
  let _ ← Txn.mapList (cancelActive now) runningChildIds
  if ← cancelActive now id then pure true
  else onStore (cancelToHistory id now)

/-- `handle_superseded_active`: errors are ignored, and the replaced task itself is in the history already. -/
def handleSupersededActive (replacedTaskId now : Int) : Sched Unit := do
  Txn.ifOk (onStore (cancelChildren replacedTaskId now)) fun runningChildIds => do
    let _ ← Txn.mapList (fun childId => Txn.attempt (cancelActive now childId)) runningChildIds
    pure ()
  let _ ← removeActive replacedTaskId
  pure ()

/-- The fail-fast branch of `propagate_failure`: running siblings are deleted, the parent fails. -/
def failFast (parent : TaskRecord) (taskId : Int) (message : String) (now : Int) : Sched Unit := do
  Txn.ifOk (onStore (cancelChildren parent.id now)) fun runningIds => do
    let _ ← Txn.mapList (fun rid => do
      match ← removeActive rid with
      | none => pure ()
      | some _ => onStore (Txn.modify fun s => s.delete rid)) runningIds
    pure ()
  Txn.attempt (onStore (failWithRecordTx parent s!"child task {taskId} failed: {message}" false 0 {} {} now))

/-! ### Thinning -/

/-- Rows go and keep their parents, history rows come. -/
structure Store.Thins (s s' : Store) : Prop where
  rows : ∀ r' ∈ s'.tasks, ∃ r ∈ s.tasks, r.id = r'.id ∧ r.inst = r'.inst ∧ r.parentId = r'.parentId
  history : ∀ h ∈ s.taskHistory, h ∈ s'.taskHistory

namespace Store.Thins

variable {s s' s'' : Store}

theorem refl (s : Store) : s.Thins s := ⟨fun r hr => ⟨r, hr, rfl, rfl, rfl⟩, fun _ hh => hh⟩

theorem trans (h : s.Thins s') (h' : s'.Thins s'') : s.Thins s'' := by
  refine ⟨fun r'' hr'' => ?_, fun row hrow => h'.history row (h.history row hrow)⟩
  obtain ⟨r', hr', hid', hinst', hparent'⟩ := h'.rows r'' hr''
  obtain ⟨r, hr, hid, hinst, hparent⟩ := h.rows r' hr'
  exact ⟨r, hr, hid.trans hid', hinst.trans hinst', hparent.trans hparent'⟩

/-- Rows that are there already, and the same history. -/
theorem of_subset (htasks : ∀ r ∈ s'.tasks, r ∈ s.tasks) (hhistory : s'.taskHistory = s.taskHistory) :
    s.Thins s' := by
  refine ⟨fun r hr => ⟨r, htasks r hr, rfl, rfl, rfl⟩, fun h hh => ?_⟩
  rw [hhistory]
  exact hh

theorem update {p : TaskRow → Bool} {f : TaskRow → TaskRow}
    (hf : ∀ r, (f r).id = r.id ∧ (f r).inst = r.inst ∧ (f r).parentId = r.parentId) :
    s.Thins (s.updateTasks p f) := by
  refine ⟨fun r' hr' => ?_, fun _ hh => hh⟩
  rw [Store.updateTasks_tasks] at hr'
  obtain ⟨r, hr, rfl⟩ := List.mem_map.1 hr'
  refine ⟨r, hr, ?_⟩
  split
  · exact ⟨(hf r).1.symm, (hf r).2.1.symm, (hf r).2.2.symm⟩
  · exact ⟨rfl, rfl, rfl⟩

end Store.Thins

section Rules

variable {α β : Type} {now : Int}

private theorem thins_bind {x : Sql α} {f : α → Sql β} (hx : Txn.Always Store.Thins x)
    (hf : ∀ a, Txn.Always Store.Thins (f a)) :
    Txn.Always Store.Thins (x >>= f) := hx.bind (fun _ _ _ => .trans) hf

private theorem thins_pure {a : α} : Txn.Always Store.Thins (pure a : Sql α) := .pure .refl a

private theorem thins_read {f : Store → α} : Txn.Always Store.Thins (f <$> Txn.get : Sql α) :=
  thins_bind (.get .refl) fun _ => thins_pure

private theorem thins_mapList {f : α → Sql β} (hf : ∀ x, Txn.Always Store.Thins (f x)) (xs : List α) :
    Txn.Always Store.Thins (Txn.mapList f xs) := .mapList .refl (fun _ _ _ => .trans) hf xs

private theorem thins_transaction {x : Sql α} (hx : Txn.Always Store.Thins x) :
    Txn.Always Store.Thins (transaction x) :=
  hx.atomically fun _ _ _ => .of_subset (fun _ hr => hr) rfl

private theorem thins_delete {f : Store → Store} (htasks : ∀ s, ∀ r ∈ (f s).tasks, r ∈ s.tasks)
    (hhistory : ∀ s, (f s).taskHistory = s.taskHistory) : Txn.Always Store.Thins (Txn.modify f : Sql Unit) :=
  .modify fun s => .of_subset (htasks s) (hhistory s)

private theorem thins_insertHistory {task : TaskRecord} {status : HistoryStatus} {metrics : IoBudget}
    {durationMs : Option Int} {lastError : Option String} {skipTags : Bool} :
    Txn.Always Store.Thins (insertHistory task status metrics durationMs lastError skipTags now) := by
  intro s
  obtain ⟨tags, hlog⟩ := insertHistory_state task status metrics durationMs lastError skipTags now s
  rw [hlog]
  exact ⟨fun r hr => ⟨r, hr, rfl, rfl, rfl⟩, fun h hh => List.mem_append_left _ hh⟩

private theorem mem_of_mem_deleteTasks {s : Store} {p : TaskRow → Bool} {r : TaskRow}
    (h : r ∈ (s.deleteTasks p).tasks) :
    r ∈ s.tasks := List.mem_of_mem_filter h

private theorem thins_pauseUnblocked {ids : List Int} (s : Store) : s.Thins (s.pauseUnblocked ids now) :=
  .update fun _ => ⟨rfl, rfl, rfl⟩

private theorem thins_failDependentsInner (fuel : Nat) (id : Int) :
    Txn.Always Store.Thins (failDependentsInner now fuel id) := by
  induction fuel generalizing id with
  | zero => exact thins_pure
  | succ fuel ih =>
    have hedges : Txn.Always Store.Thins (deleteEdgesTo id) := fun s => .of_subset (fun _ hr => hr) rfl
    refine thins_bind hedges fun dependents => thins_bind (thins_mapList (fun depId => ?_) _) fun _ => thins_pure
    refine thins_bind thins_read fun row => ?_
    cases row with
    | none => exact thins_pure
    | some task =>
      have hremove : Txn.Always Store.Thins (dependencyFail id task now) :=
        thins_bind thins_insertHistory fun _ => thins_delete (fun _ _ hr => mem_of_mem_deleteTasks hr) fun _ => rfl
      have hrelease : Txn.Always Store.Thins (releaseDependent depId now) := by
        intro s
        rw [releaseDependent]
        split
        · exact .refl s
        · split
          · have hpending : s.Thins (s.updateTasks (fun r => r.id == depId && r.status == .blocked) fun r =>
                { r with status := .pending }) := .update fun _ => ⟨rfl, rfl, rfl⟩
            exact hpending.trans (thins_pauseUnblocked _)
          · exact .refl s
      cases hpolicy : task.onDepFailure with
      | cancel =>
        simp only [hpolicy]
        exact thins_bind hremove fun _ => thins_bind (ih depId) fun _ => thins_pure
      | fail =>
        simp only [hpolicy]
        exact thins_bind hremove fun _ => thins_bind (ih depId) fun _ => thins_pure
      | ignore =>
        simp only [hpolicy]
        exact thins_bind hrelease fun _ => thins_pure

theorem thins_failDependents (id : Int) : Txn.Always Store.Thins (failDependents id now) :=
  thins_transaction fun s => thins_failDependentsInner _ id s

theorem thins_cancelInner {task : TaskRecord} : Txn.Always Store.Thins (cancelInner task now) :=
  thins_bind thins_insertHistory fun _ => thins_delete (fun _ _ hr => mem_of_mem_deleteTasks hr) fun _ => rfl

theorem thins_cancelChildren {parent : Int} : Txn.Always Store.Thins (cancelChildren parent now) := by
  refine thins_bind thins_read fun runningIds => thins_bind thins_read fun pendingRows => ?_
  refine thins_bind ?_ fun _ => thins_pure
  unfold cancelChildrenTx
  split
  · exact thins_pure
  · refine thins_transaction (thins_bind (thins_mapList (fun _ => thins_insertHistory) _) fun _ => ?_)
    exact thins_delete (fun _ _ hr => mem_of_mem_deleteTasks hr) fun _ => rfl

theorem thins_cancelToHistoryWithRecord {task : TaskRecord} :
    Txn.Always Store.Thins (cancelToHistoryWithRecord task now) :=
  thins_bind (thins_transaction thins_cancelInner) fun _ => (thins_failDependents task.id).attempt

theorem thins_cancelToHistory {id : Int} : Txn.Always Store.Thins (cancelToHistory id now) := by
  have htx : Txn.Always Store.Thins (cancelToHistoryTx id now) := by
    refine thins_transaction fun s => ?_
    cases s.taskById id with
    | none => exact .refl s
    | some row => exact thins_bind thins_cancelInner (fun _ => thins_pure) s
  refine thins_bind htx fun found => ?_
  split
  · exact thins_bind (thins_failDependents id).attempt fun _ => thins_pure
  · exact thins_pure

/-- The final failure of a task thins the store out, too. -/
theorem thins_failWithRecordTx {task : TaskRecord} {error : String} :
    Txn.Always Store.Thins (failWithRecordTx task error false 0 {} {} now) := by
  refine thins_transaction ?_
  rw [failInner, show task.willRetry false 0 = false from rfl]
  exact thins_bind thins_insertHistory fun _ => thins_delete (fun _ _ hr => mem_of_mem_deleteTasks hr) fun _ => rfl

end Rules

/-! ### Thinning under the scheduler -/

/-- The call thins the store out. -/
def Sched.Thinning {α : Type} (x : Sched α) : Prop := Txn.Always (fun σ σ' : Control => σ.store.Thins σ'.store) x

namespace Sched.Thinning

variable {α β : Type} {now : Int}

theorem pure {a : α} : Sched.Thinning (Pure.pure a : Sched α) := Txn.Always.pure (fun σ => .refl σ.store) a

theorem bind {x : Sched α} {f : α → Sched β} (hx : Sched.Thinning x) (hf : ∀ a, Sched.Thinning (f a)) :
    Sched.Thinning (x >>= f) := Txn.Always.bind (fun _ _ _ => .trans) hx hf

theorem mapList {f : α → Sched β} (hf : ∀ x, Sched.Thinning (f x)) (xs : List α) :
    Sched.Thinning (Txn.mapList f xs) :=
  Txn.Always.mapList (fun σ => .refl σ.store) (fun _ _ _ => .trans) hf xs

theorem ifOk {x : Sched α} {f : α → Sched Unit} (hx : Sched.Thinning x) (hf : ∀ a, Sched.Thinning (f a)) :
    Sched.Thinning (Txn.ifOk x f) := Txn.Always.ifOk (fun _ _ _ => .trans) hx hf

theorem onStore {x : Sql α} (hx : Txn.Always Store.Thins x) : Sched.Thinning (Taskmill.onStore x) :=
  hx.zoom fun _ _ => rfl

theorem removeActive (id : Int) : Sched.Thinning (Taskmill.removeActive id) := fun σ => .refl σ.store

theorem cancelActive (id : Int) : Sched.Thinning (Taskmill.cancelActive now id) := by
  refine bind (removeActive id) fun entry => ?_
  cases entry with
  | none => exact pure
  | some record => exact bind (onStore thins_cancelToHistoryWithRecord) fun _ => pure

end Sched.Thinning

end Taskmill
