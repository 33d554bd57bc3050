import Taskmill.Transitions

/-!
# Pause, resume, cancellation, expiry and hierarchy

`src/store/lifecycle/cancel_expire.rs`, `src/store/hierarchy.rs` and the recurring control of
`src/store/query/scheduling.rs`.  Operations that run several statements or transactions one after the other are given
statement by statement, because other callers may come in between; their composition is named after the source.
-/

namespace Taskmill

open Transact

/-! ### Pause and resume -/

/-- `pause`: any status becomes `paused`. -/
def Store.pause (s : Store) (id : Int) (reason : PauseReasons) (now : Int) : Store :=
  s.updateTasks (·.id == id) fun r => { r.pauseFor reason now with startedAt := none }

/-- Back to `pending` with no reason, adding the pause to `pause_duration_ms`. -/
def TaskRow.resume (now : Int) (r : TaskRow) : TaskRow :=
  { r with
    status := .pending
    pauseReasons := .none
    pauseDurationMs := r.pauseDurationMs + (r.pausedAtMs.map (now - ·)).getD 0
    pausedAtMs := none }

/-- `resume` -/
def Store.resume (s : Store) (id now : Int) : Store :=
  s.updateTasks (fun r => r.id == id && r.status == .paused) (TaskRow.resume now)

/-- The first statement of a bit-wise resume: rows for which `reason` is the only one become pending. -/
def Store.resumeSole (s : Store) (p : TaskRow → Bool) (reason : PauseReasons) (now : Int) : Store :=
  s.updateTasks (fun r => p r && r.status == .paused && r.pauseReasons == reason) (TaskRow.resume now)

/-- The second statement: the bit is cleared from the rows that stay paused. -/
def Store.clearBit (s : Store) (p : TaskRow → Bool) (reason : PauseReasons) : Store :=
  s.updateTasks (fun r => p r && r.status == .paused && r.pauseReasons &&& reason != 0) fun r =>
    { r with pauseReasons := r.pauseReasons &&& ~~~reason }

/-- `resume_preempted`; its second statement runs only if the first one hit no row. -/
def Store.resumePreempted (s : Store) (id now : Int) : Store :=
  if s.tasks.any fun r => r.id == id && r.status == .paused && r.pauseReasons == .preemption then
    s.resumeSole (·.id == id) .preemption now
  else s.clearBit (·.id == id) .preemption

/-- `clear_pause_bit` -/
def Store.clearPauseBit (s : Store) (reason : PauseReasons) (now : Int) : Store :=
  (s.resumeSole (fun _ => true) reason now).clearBit (fun _ => true) reason

/-- `pause_group_state` -/
def Store.pauseGroupState (s : Store) (group : String) (resumeAt : Option Int) (now : Int) : Store :=
  if s.groupPaused (some group) then s else { s with pausedGroups := s.pausedGroups ++ [(group, now, resumeAt)] }

/-- `resume_group_state` -/
def Store.resumeGroupState (s : Store) (group : String) : Store :=
  { s with pausedGroups := s.pausedGroups.filter fun g => !(g.1 == group) }

/-- The first statement of `pause_tasks_in_group`: the GROUP bit on rows that are paused already. -/
def Store.addGroupBit (s : Store) (group : String) : Store :=
  s.updateTasks (fun r => r.groupKey == some group && r.status == .paused && r.pauseReasons &&& .group == 0) fun r =>
    { r with pauseReasons := r.pauseReasons ||| .group }

/-- The second statement of `pause_tasks_in_group`: pending rows become paused. -/
def Store.pausePendingInGroup (s : Store) (group : String) (now : Int) : Store :=
  s.updateTasks (fun r => r.groupKey == some group && r.status == .pending) fun r => r.pauseFor .group now

/-- `pause_tasks_in_group` -/
def Store.pauseTasksInGroup (s : Store) (group : String) (now : Int) : Store :=
  (s.addGroupBit group).pausePendingInGroup group now

/-- `resume_paused_by_group` -/
def Store.resumePausedByGroup (s : Store) (group : String) (now : Int) : Store :=
  (s.resumeSole (·.groupKey == some group) .group now).clearBit (·.groupKey == some group) .group

/-- `pause_pending_by_type_prefix`; `like` is the SQL condition `task_type LIKE prefix || '%'`. -/
def Store.pausePendingByTypePrefix (s : Store) (like : String → Bool) (now : Int) : Store :=
  s.updateTasks (fun r => like r.taskType && (r.status == .pending || r.status == .paused)) fun r =>
    r.pauseFor .module now

/-- `resume_paused_by_type_prefix` -/
def Store.resumePausedByTypePrefix (s : Store) (like : String → Bool) (now : Int) : Store :=
  (s.resumeSole (fun r => like r.taskType) .module now).clearBit (fun r => like r.taskType) .module

/-! ### Cancellation -/

/-- The transaction shared by `cancel_to_history` and `cancel_to_history_with_record`. -/
def cancelInner (task : TaskRecord) (now : Int) : Sql Unit := do
  insertHistory task .cancelled {} (computeDurationMs now task) none false now
  Txn.modify fun s => ((s.deleteEdgesFrom task.id).deleteTaskTags task.id).deleteTasks (·.id == task.id)

/-- The first transaction of `cancel_to_history`; `fail_dependents` follows it. -/
def cancelToHistoryTx (id now : Int) : Sql Bool :=
  transaction fun s =>
    match s.taskById id with
    | none => (.ok false, s)
    | some row => (do cancelInner (rowToTaskRecord row) now; pure true : Sql Bool) s

/-- The first transaction of `cancel_to_history_with_record`; `fail_dependents` follows it. -/
def cancelToHistoryWithRecordTx (task : TaskRecord) (now : Int) : Sql Unit := transaction (cancelInner task now)

/-! ### Expiry -/

/-- Move one row to history as `expired` and delete it with its tags; its own edges stay. -/
def expireRow (row : TaskRow) (now : Int) : Sql TaskRecord := do
  let s ← Txn.get
  let task : TaskRecord := { row with tags := s.tagsOf row.id }
  insertHistory task .expired {} none none false now
  Txn.modify fun s => (s.deleteTaskTags row.id).deleteTasks (·.id == row.id)
  pure task

def TaskRow.pendingOrPaused (r : TaskRow) : Bool := r.status == .pending || r.status == .paused

def TaskRow.past (now : Int) (r : TaskRow) : Bool := r.expiresAt.any (· ≤ now)

/-- The rows `expire_tasks` selects: at most 500, by deadline. -/
def Store.expiredRows (s : Store) (now : Int) : List TaskRow :=
  ((s.tasks.filter fun r => r.past now && (r.pendingOrPaused || r.status == .blocked)).insertionSort
    fun a b => a.expiresAt.getD 0 ≤ b.expiresAt.getD 0).take 500

/-- The loop body of `expire_tasks`: history row, children, own edges, row. -/
def expireWithChildren (now : Int) (row : TaskRow) : Sql (List TaskRecord) := do
  let s ← Txn.get
  let task : TaskRecord := { row with tags := s.tagsOf row.id }
  insertHistory task .expired {} none none false now
  let children ← (fun s => s.tasks.filter fun r => r.parentId == some row.id && r.pendingOrPaused) <$> Txn.get
  let expired ← Txn.mapList (expireRow · now) children
  Txn.modify fun s => ((s.deleteEdgesFrom row.id).deleteTaskTags row.id).deleteTasks (·.id == row.id)
  pure (expired ++ [task])

/-- The transaction of `expire_tasks`; a `fail_dependents` for every expired task follows it. -/
def expireTasksTx (now : Int) : Sql (List TaskRecord) :=
  transaction do
    let rows ← (fun s => s.expiredRows now) <$> Txn.get
    let expired ← Txn.mapList (expireWithChildren now) rows
    pure expired.flatten

/-- `expire_single` -/
def expireSingle (id now : Int) : Sql (Option TaskRecord) :=
  transaction fun s =>
    match s.tasks.find? fun r => r.id == id && r.past now && r.pendingOrPaused with
    | none => (.ok none, s)
    | some row => (do let task ← expireRow row now; pure (some task) : Sql (Option TaskRecord)) s

/-! ### Hierarchy -/

/-- `set_waiting` -/
def Store.setWaiting (s : Store) (id : Int) (memo : Option (List UInt8)) : Store :=
  s.updateTasks (fun r => r.id == id && r.status == .running) fun r =>
    { r with status := .waiting, startedAt := none, memo := memo }

/-- `set_running_for_finalize` -/
def Store.setRunningForFinalize (s : Store) (id now : Int) : Store :=
  s.updateTasks (fun r => r.id == id && r.status == .waiting) fun r =>
    { r with status := .running, startedAt := some now }

/-- The children that `cancel_children` reads before it opens its transaction. -/
def Store.cancellableChildren (s : Store) (parent : Int) : List TaskRow :=
  s.tasks.filter fun r => r.parentId == some parent && r.pendingOrPaused

/-- The transaction of `cancel_children`: history rows for the children that were read, then one `DELETE` of the
children that are pending or paused now. -/
def cancelChildrenTx (parent : Int) (read : List TaskRow) (now : Int) : Sql Unit :=
  if read.isEmpty then pure ()
  else transaction do
    let _ ← Txn.mapList (fun row => insertHistory (rowToTaskRecord row) .cancelled {} none none false now) read
    Txn.modify fun s => s.deleteTasks fun r => r.parentId == some parent && r.pendingOrPaused

/-! ### Recurring control -/

/-- `pause_recurring` and `resume_recurring` -/
def Store.setRecurringPaused (s : Store) (id : Int) (paused : Bool) : Store :=
  s.updateTasks (fun r => r.id == id && r.recurringIntervalSecs.isSome) fun r => { r with recurringPaused := paused }

end Taskmill
