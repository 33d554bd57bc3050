import Taskmill.Task
import Taskmill.Transact.Rowid
import Taskmill.Transact.Txn
import Mathlib.Data.List.Sort
import Mathlib.Tactic.Simps.Basic

/-!
# The store

The tables of the database, the fast-path flags of `TaskStore` and the statements that the operations are made of
(`src/store/mod.rs`, `src/store/lifecycle/mod.rs`, `migrations/`).  A table is the list of its rows in insertion
order.

Constraint violations abort the statement, not the transaction: a statement that fails leaves the store as the
statements before it left it, and `transaction` is the `BEGIN IMMEDIATE … COMMIT` bracket.  The code never rolls back;
it drops the connection, and what happens to its open transaction is up to the pool (`Pool`).  The model takes a pool
that restores the tables (`Pool.RollsBack`).  The flags are not in the database, so they are kept.

SQLite refuses statements that are too large.  The limits are modelled where the caller of a submission or of a tag
query decides the size; lists of ids that the store builds itself are taken to stay below `maxVariableNumber`.
-/

namespace Taskmill

open Transact

inductive RetentionPolicy where
  | maxCount (n : Int)
  | maxAgeDays (days : Int)
deriving DecidableEq, Repr

structure Store where
  tasks : List TaskRow
  /-- `(task_id, depends_on_id)` -/
  taskDeps : List (Int × Int)
  /-- `(task_id, key, value)` -/
  taskTags : List (Int × String × String)
  taskHistory : List TaskHistoryRow
  /-- `(history_rowid, key, value)` -/
  taskHistoryTags : List (Int × String × String)
  /-- `(group_key, paused_at, resume_at)` -/
  pausedGroups : List (String × Int × Option Int)
  hasTags : Bool
  hasHierarchy : Bool
  hasRunning : Bool
  retentionPolicy : Option RetentionPolicy
  pruneInterval : Nat
  completionCount : Nat
  /-- the next life to be numbered, see `TaskRow.inst` -/
  nextInst : Nat
deriving DecidableEq, Repr

/-- `TaskStore::open_memory`. -/
def openMemory : Store where
  tasks := []
  taskDeps := []
  taskTags := []
  taskHistory := []
  taskHistoryTags := []
  pausedGroups := []
  hasTags := false
  hasHierarchy := false
  hasRunning := false
  retentionPolicy := some (.maxCount 10000)
  pruneInterval := 100
  completionCount := 0
  nextInst := 0

abbrev Sql := Txn Store StoreError

/-- What dropping a connection with an open transaction leaves: the old tables and the new flags. -/
@[simps] def Store.rollback (before after : Store) : Store :=
  { before with hasTags := after.hasTags, hasHierarchy := after.hasHierarchy, hasRunning := after.hasRunning }

/-- `BEGIN IMMEDIATE … COMMIT`, on a pool that rolls the tables back (`Pool.transaction_eq`). -/
def transaction {α : Type} (x : Sql α) : Sql α := Txn.atomically Store.rollback x

/-- What `sqlx` does with a connection that is dropped in an open transaction: the store it leaves, from the store
before `BEGIN IMMEDIATE` and the store of the last statement.  The code issues no `ROLLBACK` of its own. -/
structure Pool where
  drop : Store → Store → Store

/-- The tables are those from before the transaction; the flags are not in the database and keep their values. -/
def Pool.RollsBack (pool : Pool) : Prop := ∀ before after, pool.drop before after = before.rollback after

/-- The bracket on a given pool: a transaction that fails leaves what the pool makes of its connection. -/
def Pool.transaction {α : Type} (pool : Pool) (x : Sql α) : Sql α := Txn.atomically pool.drop x

/-- The one thing that the transactions of the model assume of the pool. -/
theorem Pool.transaction_eq {α : Type} {pool : Pool} (hpool : pool.RollsBack) (x : Sql α) :
    pool.transaction x = Taskmill.transaction x := by
  have hdrop : pool.drop = Store.rollback := funext fun before => funext (hpool before)
  rw [Pool.transaction, hdrop, Taskmill.transaction]

/-! ### Statements on `tasks` -/

def Store.ids (s : Store) : List Int := s.tasks.map (·.id)

/-- `SELECT * FROM tasks WHERE id = ?` -/
def Store.taskById (s : Store) (id : Int) : Option TaskRow := s.tasks.find? (·.id == id)

/-- `SELECT * FROM tasks WHERE key = ?` -/
def Store.taskByKey (s : Store) (key : String) : Option TaskRow := s.tasks.find? (·.key == key)

/-- `UPDATE tasks SET … WHERE …` -/
@[simps] def Store.updateTasks (s : Store) (p : TaskRow → Bool) (f : TaskRow → TaskRow) : Store :=
  { s with tasks := s.tasks.map fun r => if p r then f r else r }

/-- `DELETE FROM tasks WHERE …` -/
@[simps] def Store.deleteTasks (s : Store) (p : TaskRow → Bool) : Store :=
  { s with tasks := s.tasks.filter fun r => !p r }

def Store.nextTaskId (s : Store) : Int := nextRowid s.ids

/-- The new row, with the id SQLite gives it. -/
@[simps] def Store.addTask (s : Store) (row : TaskRow) : Store :=
  { s with
    tasks := s.tasks ++ [{ row with id := s.nextTaskId, inst := s.nextInst }]
    nextInst := s.nextInst + 1 }

/-! ### Limits of SQLite -/

/-- `SQLITE_MAX_VARIABLE_NUMBER` -/
def maxVariableNumber : Nat := 32766

/-- `SQLITE_MAX_COMPOUND_SELECT` -/
def maxCompoundSelect : Nat := 500

/-- The tables that one `FROM` may join. -/
def maxJoinTables : Nat := 64

/-- A statement that SQLite does not prepare, as `sqlx` prints it. -/
def prepareError (message : String) : StoreError := .database s!"error returned from database: (code: 1) {message}"

def variablesError : StoreError := prepareError "too many SQL variables"
def compoundSelectError : StoreError := prepareError "too many terms in compound SELECT"

/-! ### Constraints -/

/-- A violated `PRIMARY KEY` (code 1555) or `UNIQUE` (code 2067) constraint, as `sqlx` prints it. -/
def constraintError (code : Nat) (columns : String) : StoreError :=
  .database s!"error returned from database: (code: {code}) UNIQUE constraint failed: {columns}"

def taskKeyError : StoreError := constraintError 2067 "tasks.key"
def taskDepsError : StoreError := constraintError 1555 "task_deps.task_id, task_deps.depends_on_id"
def taskTagsError : StoreError := constraintError 1555 "task_tags.task_id, task_tags.key"
def taskHistoryTagsError : StoreError :=
  constraintError 1555 "task_history_tags.history_rowid, task_history_tags.key"

/-- `INSERT INTO tasks`, which fails on a key that is already there. -/
def insertTask (row : TaskRow) : Sql Int := fun s =>
  if s.taskByKey row.key |>.isSome then (.error taskKeyError, s) else (.ok s.nextTaskId, s.addTask row)

/-- `INSERT OR IGNORE INTO tasks`: the new id, or `none` on a duplicate key. -/
def insertOrIgnoreTask (row : TaskRow) : Sql (Option Int) := fun s =>
  if s.taskByKey row.key |>.isSome then (.ok none, s) else (.ok (some s.nextTaskId), s.addTask row)

/-! ### Statements on `task_tags` -/

/-- `load_task_tags` -/
def Store.tagsOf (s : Store) (id : Int) : List (String × String) :=
  (s.taskTags.filter fun t => t.1 == id).map Prod.snd

/-- `delete_task_tags` -/
@[simps] def Store.deleteTaskTags (s : Store) (id : Int) : Store :=
  { s with taskTags := s.taskTags.filter fun t => !(t.1 == id) }

def insertTag (id : Int) (tag : String × String) : Sql Unit := fun s =>
  if s.taskTags.any fun t => t.1 == id && t.2.1 == tag.1 then (.error taskTagsError, s)
  else (.ok (), { s with taskTags := s.taskTags ++ [(id, tag)] })

/-- `insert_tags` -/
def insertTags (id : Int) (tags : List (String × String)) : Sql Unit := do
  let _ ← Txn.mapList (insertTag id) tags

/-- `insert_tags_flagged` -/
def insertTagsFlagged (id : Int) (tags : List (String × String)) : Sql Unit := do
  Txn.modify fun s => { s with hasTags := s.hasTags || !tags.isEmpty }
  insertTags id tags

/-- `populate_tags` for one record. -/
def Store.populateTags (s : Store) (record : TaskRecord) : TaskRecord :=
  if s.hasTags then { record with tags := s.tagsOf record.id } else record

/-- Nothing but the tags of the record changes. -/
theorem Store.populateTags_eq (s : Store) (record : TaskRecord) :
    ∃ tags, s.populateTags record = { record with tags := tags } := by
  unfold Store.populateTags
  split
  · exact ⟨_, rfl⟩
  · exact ⟨record.tags, rfl⟩

/-! ### Statements on `task_history` -/

def Store.nextHistoryId (s : Store) : Int := nextRowid (s.taskHistory.map (·.id))

/-- The row that `insert_history` writes for `task`. -/
def historyRow (id : Int) (task : TaskRecord) (status : HistoryStatus) (metrics : IoBudget)
    (durationMs : Option Int) (lastError : Option String) (now : Int) : TaskHistoryRow where
  id := id
  inst := task.inst
  taskType := task.taskType
  key := task.key
  label := task.label
  priority := task.priority
  status := status
  payload := task.payload
  memo := task.memo
  expectedIo := task.expectedIo
  actualIo := metrics
  retryCount := if status.incrementsRetries then task.retryCount + 1 else task.retryCount
  maxRetries := task.maxRetries
  lastError := lastError
  createdAt := task.createdAt
  startedAt := task.startedAt
  completedAt := now
  durationMs := durationMs
  runAfter := task.runAfter
  parentId := task.parentId
  failFast := task.failFast
  groupKey := task.groupKey
  ttlSeconds := task.ttlSeconds
  ttlFrom := task.ttlFrom
  expiresAt := task.expiresAt

/-- `INSERT INTO task_history_tags … SELECT ?, key, value FROM task_tags WHERE task_id = ?` -/
def copyTags (historyRowid taskId : Int) : Sql Unit := fun s =>
  if (s.tagsOf taskId).any fun tag => s.taskHistoryTags.any fun t => t.1 == historyRowid && t.2.1 == tag.1 then
    (.error taskHistoryTagsError, s)
  else
    (.ok (), { s with taskHistoryTags := s.taskHistoryTags ++ (s.tagsOf taskId).map fun tag => (historyRowid, tag) })

/-- `insert_history`.  The row gets an id of its own: the id of the task is not stored. -/
def insertHistory (task : TaskRecord) (status : HistoryStatus) (metrics : IoBudget) (durationMs : Option Int)
    (lastError : Option String) (skipTags : Bool) (now : Int) : Sql Unit := do
  let rowid ← Store.nextHistoryId <$> Txn.get
  Txn.modify fun s =>
    { s with taskHistory := s.taskHistory ++ [historyRow rowid task status metrics durationMs lastError now] }
  if skipTags then pure () else copyTags rowid task.id

/-- `compute_duration_ms` -/
def computeDurationMs (now : Int) (task : TaskRecord) : Option Int := task.startedAt.map (now - ·)

/-! ### Pruning -/

/-- `prune_history_by_age`; the tags of the pruned rows stay. -/
def Store.pruneHistoryByAge (s : Store) (maxAgeDays now : Int) : Store :=
  { s with taskHistory := s.taskHistory.filter fun h => !(h.completedAt < now - maxAgeDays * 86400000) }

/-- `prune_history_by_count`; a negative `LIMIT` is no limit, and the tags of the pruned rows stay. -/
def Store.pruneHistoryByCount (s : Store) (keepLatest : Int) : Store :=
  let latest := s.taskHistory.insertionSort fun a b => b.completedAt ≤ a.completedAt
  let kept := if keepLatest < 0 then latest else latest.take keepLatest.toNat
  { s with taskHistory := s.taskHistory.filter fun h => (kept.map (·.id)).contains h.id }

/-- `count % self.prune_interval` with an interval of zero. -/
def Store.maybePrunePanics (s : Store) : Bool := s.retentionPolicy.isSome && s.pruneInterval == 0

/-- `maybe_prune`, which runs on its own after the commit. -/
def Store.maybePrune (s : Store) (now : Int) : Store :=
  match s.retentionPolicy with
  | none => s
  | some policy =>
    let s' := { s with completionCount := s.completionCount + 1 }
    if s.maybePrunePanics || s.completionCount % s.pruneInterval != 0 then s'
    else
      match policy with
      | .maxCount n => s'.pruneHistoryByCount n
      | .maxAgeDays days => s'.pruneHistoryByAge days now

@[simp] theorem Store.tasks_maybePrune (s : Store) (now : Int) : (s.maybePrune now).tasks = s.tasks := by
  rw [Store.maybePrune]
  split
  · rfl
  · dsimp only
    split
    · rfl
    · split
      · rfl
      · rfl

/-! ### Small operations of the store -/

/-- `TaskStore::delete`: the row and its tags, but neither its edges nor a history row. -/
def Store.delete (s : Store) (id : Int) : Store := (s.deleteTaskTags id).deleteTasks (·.id == id)

/-- `TaskStore::delete_history` -/
def Store.deleteHistory (s : Store) (historyId : Int) : Store :=
  { s with
    taskHistoryTags := s.taskHistoryTags.filter fun t => !(t.1 == historyId)
    taskHistory := s.taskHistory.filter fun h => !(h.id == historyId) }

/-- Whether a `group_key` is in `paused_groups`. -/
def Store.groupPaused (s : Store) (group : Option String) : Bool :=
  match group with
  | some g => s.pausedGroups.any (·.1 == g)
  | none => false

/-- `status = 'paused', pause_reasons = pause_reasons | ?, paused_at_ms = COALESCE(paused_at_ms, now)` -/
def TaskRow.pauseFor (r : TaskRow) (reason : PauseReasons) (now : Int) : TaskRow :=
  { r with status := .paused, pauseReasons := r.pauseReasons ||| reason, pausedAtMs := some (r.pausedAtMs.getD now) }

/-! ### Recovery -/

/-- Running rows go back to `pending`. -/
def Store.resetRunning (s : Store) : Store :=
  s.updateTasks (·.status == .running) fun r => { r with status := .pending, startedAt := none }

/-- Open pauses are added to `pause_duration_ms` and closed. -/
def Store.settlePauses (s : Store) (now : Int) : Store :=
  s.updateTasks (fun r => r.status == .paused && r.pausedAtMs.isSome) fun r =>
    { r with pauseDurationMs := r.pauseDurationMs + (now - r.pausedAtMs.getD now), pausedAtMs := none }

/-- `DELETE FROM task_deps WHERE depends_on_id NOT IN (SELECT id FROM tasks)` -/
def Store.deleteDanglingEdges (s : Store) : Store :=
  { s with taskDeps := s.taskDeps.filter fun e => s.ids.contains e.2 }

/-- Blocked rows without an edge become `pending`. -/
def Store.unblockEdgeless (s : Store) : Store :=
  s.updateTasks (fun r => r.status == .blocked && !(s.taskDeps.any fun e => e.1 == r.id)) fun r =>
    { r with status := .pending }

/-- `recover_running`, run when a file-backed store is opened.  Rows are unblocked only if a dangling edge was
found. -/
def Store.recoverRunning (s : Store) (now : Int) : Store :=
  let settled := s.resetRunning.settlePauses now
  let cleaned := settled.deleteDanglingEdges
  if cleaned.taskDeps.length == settled.taskDeps.length then cleaned else cleaned.unblockEdgeless

end Taskmill
