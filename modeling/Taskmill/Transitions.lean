import Taskmill.Dependencies

/-!
# State machine transitions: pop, complete, fail

`src/store/lifecycle/transitions.rs`.  Every operation is one transaction or one statement; `maybe_prune` follows the
commit of a completion or failure and is a step of its own (`withPrune`).
-/

namespace Taskmill

open Transact

/-- `AgingParams` -/
structure AgingParams where
  nowMs : Int
  gracePeriodMs : Int
  agingIntervalMs : Int
  maxEffectivePriority : Int
deriving DecidableEq, Repr

/-! ### Pop, peek, requeue -/

/-- The first `ORDER BY` key of the dispatch queries: the priority, or
`MAX(priority - MAX(0, (now - created_at - pause_duration_ms - grace) / interval), ceiling)`. -/
def TaskRow.rank (r : TaskRow) : Option AgingParams → Int
  | none => r.priority.toNat
  | some ap =>
    max (r.priority.toNat -
      max 0 (Int.tdiv (ap.nowMs - r.createdAt - r.pauseDurationMs - ap.gracePeriodMs) ap.agingIntervalMs))
      ap.maxEffectivePriority

/-- `ORDER BY rank ASC, id ASC` -/
def TaskRow.before (aging : Option AgingParams) (a b : TaskRow) : Prop :=
  a.rank aging < b.rank aging ∨ (a.rank aging = b.rank aging ∧ a.id ≤ b.id)

instance (aging : Option AgingParams) : DecidableRel (TaskRow.before aging) :=
  fun _ _ => inferInstanceAs (Decidable (_ ∨ _))

/-- `status = 'pending' AND (run_after IS NULL OR run_after <= now)` -/
def TaskRow.due (now : Int) (r : TaskRow) : Bool := r.status == .pending && r.runAfter.all (· ≤ now)

/-- `expires_at IS NULL OR expires_at > now` -/
def TaskRow.unexpired (now : Int) (r : TaskRow) : Bool := r.expiresAt.all (now < ·)

/-- What `pop_next` selects from. -/
def TaskRow.eligible (now : Int) (r : TaskRow) : Bool := r.due now && r.unexpired now

/-- `SELECT … FROM tasks WHERE p ORDER BY rank, id` -/
def Store.ordered (s : Store) (aging : Option AgingParams) (p : TaskRow → Bool) : List TaskRow :=
  (s.tasks.filter p).insertionSort (TaskRow.before aging)

/-- `peek_next` -/
def Store.peekNext (s : Store) (aging : Option AgingParams) (now : Int) : Option TaskRecord :=
  (s.ordered aging (·.due now)).head?.map rowToTaskRecord

/-- The `SET` clause shared by all claims: the first claim starts a first-attempt TTL. -/
def TaskRow.claim (now : Int) (r : TaskRow) : TaskRow :=
  { r with
    status := .running
    startedAt := some now
    expiresAt :=
      match r.ttlFrom, r.ttlSeconds, r.expiresAt with
      | .firstAttempt, some ttl, none => some (now + ttl * 1000)
      | _, _, e => e }

/-- `UPDATE tasks SET status = 'running', … WHERE id IN … RETURNING *` -/
def claimRows (p : TaskRow → Bool) (now : Int) : Sql (List TaskRow) := fun s =>
  (.ok ((s.tasks.filter p).map (TaskRow.claim now)), s.updateTasks p (TaskRow.claim now))

/-- `pop_by_id`: unlike the other claims it does not set `has_running`. -/
def popById (id now : Int) : Sql (Option TaskRecord) := do
  let rows ← claimRows (fun r => r.id == id && r.status == .pending) now
  let s ← Txn.get
  pure (rows.head?.map fun r => s.populateTags (rowToTaskRecord r))

/-- Mark that a task was claimed. -/
def Store.noteRunning (claimed : Bool) (s : Store) : Store := { s with hasRunning := s.hasRunning || claimed }

/-- `claim_task` -/
def claimTask (id now : Int) : Sql Bool := do
  let rows ← claimRows (fun r => r.id == id && r.status == .pending) now
  Txn.modify (Store.noteRunning !rows.isEmpty)
  pure !rows.isEmpty

/-- The ids of the first `limit` eligible rows. -/
def Store.nextIds (s : Store) (limit : Nat) (aging : Option AgingParams) (now : Int) : List Int :=
  ((s.ordered aging (·.eligible now)).take limit).map (·.id)

/-- Claim the first `limit` eligible rows. -/
def popFirst (limit : Nat) (aging : Option AgingParams) (now : Int) : Sql (List TaskRecord) := do
  let ids ← (fun s => s.nextIds limit aging now) <$> Txn.get
  let rows ← claimRows (fun r => ids.contains r.id) now
  Txn.modify (Store.noteRunning !rows.isEmpty)
  pure (rows.map rowToTaskRecord)

/-- `pop_next` -/
def popNext (aging : Option AgingParams) (now : Int) : Sql (Option TaskRecord) := do
  let records ← popFirst 1 aging now
  pure records.head?

/-- `pop_next_batch` -/
def popNextBatch (limit : Nat) (aging : Option AgingParams) (now : Int) : Sql (List TaskRecord) :=
  match limit with
  | 0 => pure []
  | 1 => do
    let record ← popNext aging now
    pure record.toList
  | _ => popFirst limit aging now

/-- `requeue` -/
def Store.requeue (s : Store) (id : Int) : Store :=
  s.updateTasks (fun r => r.id == id && r.status == .running) fun r =>
    { r with status := .pending, startedAt := none }

/-- `set_run_after` -/
def Store.setRunAfter (s : Store) (id runAfter : Int) : Store :=
  s.updateTasks (fun r => r.id == id && r.status == .pending) fun r => { r with runAfter := some runAfter }

/-! ### Complete -/

/-- The reset of a row whose `requeue` flag is set.  It starts a new life under the same id. -/
def TaskRow.resetRequeued (inst : Nat) (r : TaskRow) : TaskRow :=
  { r with
    inst := inst
    status := .pending
    priority := r.requeuePriority.getD r.priority
    startedAt := none
    retryCount := 0
    lastError := none
    requeue := false
    requeuePriority := none }

/-- `UPDATE tasks SET status = 'pending', priority = COALESCE(requeue_priority, priority), … WHERE id = ?` -/
def Store.resetRequeued (s : Store) (id : Int) : Store :=
  { s.updateTasks (·.id == id) (TaskRow.resetRequeued s.nextInst) with
    nextInst := if s.ids.contains id then s.nextInst + 1 else s.nextInst }

/-- `DELETE FROM tasks WHERE id = ? AND requeue = 0`, with the number of deleted rows. -/
def deleteCompleted (id : Int) : Sql Nat := fun s =>
  (.ok (s.tasks.countP fun r => r.id == id && !r.requeue), s.deleteTasks fun r => r.id == id && !r.requeue)

/-- The next instance of a recurring task. -/
def TaskRecord.nextInstance (task : TaskRecord) (interval now : Int) : TaskRow where
  id := 0
  inst := 0
  taskType := task.taskType
  key := task.key
  label := task.label
  priority := task.priority
  status := .pending
  payload := task.payload
  memo := none
  expectedIo := task.expectedIo
  retryCount := 0
  maxRetries := task.maxRetries
  lastError := none
  createdAt := now
  startedAt := none
  runAfter := some (now + interval * 1000)
  requeue := false
  requeuePriority := none
  parentId := task.parentId
  failFast := task.failFast
  groupKey := task.groupKey
  onDepFailure := .cancel
  ttlSeconds := task.ttlSeconds
  ttlFrom := task.ttlFrom
  expiresAt :=
    match task.ttlSeconds, task.ttlFrom with
    | some ttl, .submission => some (now + ttl * 1000)
    | _, _ => none
  recurringIntervalSecs := task.recurringIntervalSecs
  recurringMaxExecutions := task.recurringMaxExecutions
  recurringExecutionCount := task.recurringExecutionCount + 1
  recurringPaused := false
  pauseReasons := .none
  pauseDurationMs := 0
  pausedAtMs := none

/-- The recurring branch of `complete_inner`, after the completed row is gone. -/
def createNextInstance (task : TaskRecord) (savedTags : List (String × String)) (interval now : Int) :
    Sql (Option (Int × Int)) := do
  let s ← Txn.get
  -- pile-up prevention: a pending row with this key is already there
  if s.tasks.any fun r => r.key == task.key && r.status == .pending then pure none
  else
    let nextId ← insertTask (task.nextInstance interval now)
    insertTags nextId savedTags
    let groupPaused ← (fun s => s.groupPaused task.groupKey) <$> Txn.get
    Txn.modify fun s => if groupPaused then s.updateTasks (·.id == nextId) fun r => r.pauseFor .group now else s
    pure (some (now + interval * 1000, task.recurringExecutionCount + 1))

/-- Whether `complete_inner` goes on to create the next instance, and with which interval. -/
def TaskRecord.recurs (task : TaskRecord) : Option Int :=
  match task.recurringIntervalSecs with
  | none => none
  | some interval =>
    if !task.recurringPaused && task.recurringMaxExecutions.all
      (task.recurringExecutionCount + 1 < ·) then some interval
    else none

/-- `complete_inner` -/
def completeInner (task : TaskRecord) (metrics : IoBudget) (skipTags : Bool) (now : Int) :
    Sql (Option (Int × Int)) := do
  insertHistory task .completed metrics (computeDurationMs now task) task.lastError skipTags now
  let savedTags ← (fun s => s.tagsOf task.id) <$> Txn.get
  let deleted ← deleteCompleted task.id
  if deleted == 0 then
    Txn.modify fun s => s.resetRequeued task.id
    pure none
  else
    Txn.modify fun s => if skipTags then s else s.deleteTaskTags task.id
    match task.recurs with
    | none => pure none
    | some interval => createNextInstance task savedTags interval now

/-- The completion and the resolution of the dependents of one task, without the bracket. -/
def completeAndResolve (skipTags : Bool) (now : Int) (item : TaskRecord × IoBudget) :
    Sql (Int × Option (Int × Int) × List Int) := do
  let recurring ← completeInner item.1 item.2 skipTags now
  let unblocked ← resolveDependentsInner item.1.id now
  pure (item.1.id, recurring, unblocked)

/-- Step 1 of the batched path: the history rows. -/
def insertCompleted (skipTags : Bool) (now : Int) (item : TaskRecord × IoBudget) : Sql Unit :=
  insertHistory item.1 .completed item.2 (computeDurationMs now item.1) item.1.lastError skipTags now

/-- Step 2: `DELETE FROM tasks WHERE id IN … AND requeue = 0 RETURNING id`. -/
def deleteCompletedBatch (ids : List Int) : Sql (List Int) := fun s =>
  (.ok ((s.tasks.filter fun r => ids.contains r.id && !r.requeue).map (·.id)),
    s.deleteTasks fun r => ids.contains r.id && !r.requeue)

/-- Step 5: `DELETE FROM task_deps WHERE depends_on_id IN … RETURNING task_id`. -/
def deleteEdgesToAll (ids : List Int) : Sql (List Int) := fun s =>
  (.ok ((s.taskDeps.filter fun e => ids.contains e.2).map Prod.fst),
    { s with taskDeps := s.taskDeps.filter fun e => !ids.contains e.2 })

/-- The batched path of `complete_batch_with_resolve`, for items that are not recurring. -/
def completeBatchFast (skipTags : Bool) (now : Int) (items : List (TaskRecord × IoBudget)) : Sql (List Int) := do
  let ids := items.map (·.1.id)
  let _ ← Txn.mapList (insertCompleted skipTags now) items
  let deleted ← deleteCompletedBatch ids
  Txn.modify fun s => (ids.filter fun id => !deleted.contains id).foldl Store.resetRequeued s
  Txn.modify fun s =>
    if skipTags || deleted.isEmpty then s
    else { s with taskTags := s.taskTags.filter fun t => !deleted.contains t.1 }
  let dependentIds ← deleteEdgesToAll ids
  if dependentIds.isEmpty then pure []
  else
    let unblocked ← unblock dependentIds
    Txn.modify fun s => s.pauseUnblocked unblocked now
    pure unblocked

/-- The per-task results of the batched path: the unblocked ids are attached to the last item. -/
def batchResults (unblocked : List Int) : List (TaskRecord × IoBudget) → List (Int × Option (Int × Int) × List Int)
  | [] => []
  | [item] => [(item.1.id, none, unblocked)]
  | item :: rest => (item.1.id, none, []) :: batchResults unblocked rest

/-- The transaction of `complete_with_record_and_resolve`. -/
def completeAndResolveTx (task : TaskRecord) (metrics : IoBudget) (now : Int) :
    Sql (Int × Option (Int × Int) × List Int) :=
  transaction fun s => completeAndResolve (!s.hasTags) now (task, metrics) s

/-- The transaction of `complete_batch_with_resolve`. -/
def completeBatchTx (items : List (TaskRecord × IoBudget)) (now : Int) :
    Sql (List (Int × Option (Int × Int) × List Int)) :=
  match items with
  | [] => pure []
  | [(task, metrics)] => do
    let result ← completeAndResolveTx task metrics now
    pure [result]
  | _ =>
    if items.any fun item => item.1.recurringIntervalSecs.isSome then
      transaction fun s => Txn.mapList (completeAndResolve (!s.hasTags) now) items s
    else do
      let unblocked ← transaction fun s => completeBatchFast (!s.hasTags) now items s
      pure (batchResults unblocked items)

/-- The transaction of `complete_with_record`. -/
def completeWithRecordTx (task : TaskRecord) (metrics : IoBudget) (now : Int) : Sql (Option (Int × Int)) :=
  transaction fun s => completeInner task metrics (!s.hasTags) now s

/-- The transaction of `complete`, which reads the row it completes. -/
def completeTx (id : Int) (metrics : IoBudget) (now : Int) : Sql Unit :=
  transaction fun s =>
    match s.taskById id with
    | none => (.ok (), s)
    | some row => (do let _ ← completeInner (rowToTaskRecord row) metrics (!s.hasTags) now : Sql Unit) s

/-- `maybe_prune` after a committed transaction. -/
def withPrune {α : Type} (now : Int) (x : Sql α) : Sql α := do
  let a ← x
  Txn.modify fun s => s.maybePrune now
  pure a

/-- `complete_with_record_and_resolve` -/
def completeWithRecordAndResolve (task : TaskRecord) (metrics : IoBudget) (now : Int) :
    Sql (Int × Option (Int × Int) × List Int) :=
  withPrune now (completeAndResolveTx task metrics now)

/-- `complete_batch_with_resolve`.  The empty batch returns before it counts a completion. -/
def completeBatchWithResolve (items : List (TaskRecord × IoBudget)) (now : Int) :
    Sql (List (Int × Option (Int × Int) × List Int)) :=
  if items.isEmpty then pure [] else withPrune now (completeBatchTx items now)

/-! ### Fail -/

/-- `FailBackoff`: the delay the strategy would give for a retry count, and the executor's override. -/
structure FailBackoff where
  strategy : Option (Nat → Duration) := none
  executorRetryAfterMs : Option Nat := none

/-- The retry delay of `fail_inner`. -/
def FailBackoff.delay (b : FailBackoff) (retryCount : Nat) : Duration :=
  match b.executorRetryAfterMs, b.strategy with
  | some ms, _ => ⟨ms * 1000000⟩
  | none, some delayFor => delayFor retryCount
  | none, none => ⟨0⟩

/-- The retry `UPDATE` of `requeue_for_retry` and `fail_inner`. -/
def TaskRow.retry (error : String) (delay : Duration) (now : Int) (r : TaskRow) : TaskRow :=
  { r with
    status := .pending
    startedAt := none
    retryCount := r.retryCount + 1
    lastError := some error
    runAfter := if delay.isZero then r.runAfter else some (now + delay.asMillis) }

/-- `requeue_for_retry` -/
def Store.requeueForRetry (s : Store) (id : Int) (error : String) (delay : Duration) (now : Int) : Store :=
  s.updateTasks (·.id == id) (TaskRow.retry error delay now)

/-- `increment_retry` -/
def Store.incrementRetry (s : Store) (id : Int) (error : String) : Store :=
  s.updateTasks (·.id == id) fun r => { r with retryCount := r.retryCount + 1, lastError := some error }

def terminalStatus (retryable : Bool) : HistoryStatus := if retryable then .deadLetter else .failed

/-- Whether `fail_inner` retries. -/
def TaskRecord.willRetry (task : TaskRecord) (retryable : Bool) (maxRetries : Int) : Bool :=
  retryable && (task.retryCount : Int) < maxRetries

/-- `fail_inner` -/
def failInner (task : TaskRecord) (error : String) (retryable : Bool) (maxRetries : Int) (metrics : IoBudget)
    (backoff : FailBackoff) (now : Int) : Sql Unit :=
  if task.willRetry retryable maxRetries then
    Txn.modify fun s => s.requeueForRetry task.id error (backoff.delay task.retryCount) now
  else do
    insertHistory task (terminalStatus retryable) metrics (computeDurationMs now task) (some error) false now
    Txn.modify fun s => (s.deleteTaskTags task.id).deleteTasks (·.id == task.id)

/-- The transaction of `fail_with_record`. -/
def failWithRecordTx (task : TaskRecord) (error : String) (retryable : Bool) (maxRetries : Int) (metrics : IoBudget)
    (backoff : FailBackoff) (now : Int) : Sql Unit :=
  transaction (failInner task error retryable maxRetries metrics backoff now)

/-- The transaction of `fail`, which reads the row that failed. -/
def failTx (id : Int) (error : String) (retryable : Bool) (maxRetries : Int) (metrics : IoBudget)
    (backoff : FailBackoff) (now : Int) : Sql Unit :=
  transaction fun s =>
    match s.taskById id with
    | none => (.ok (), s)
    | some row => failInner (rowToTaskRecord row) error retryable maxRetries metrics backoff now s

/-- One terminal failure: the task, the error, whether it was retryable, the metrics. -/
structure FailureItem where
  task : TaskRecord
  error : String
  retryable : Bool
  metrics : IoBudget
deriving DecidableEq, Repr

/-- Step 1 of `fail_batch`: the history rows. -/
def insertFailed (skipTags : Bool) (now : Int) (item : FailureItem) : Sql Unit :=
  insertHistory item.task (terminalStatus item.retryable) item.metrics (computeDurationMs now item.task)
    (some item.error) skipTags now

/-- The transaction of `fail_batch`. -/
def failBatchTx (items : List FailureItem) (now : Int) : Sql Unit :=
  match items with
  | [] => pure ()
  | [item] => failWithRecordTx item.task item.error item.retryable 0 item.metrics {} now
  | _ => transaction fun s =>
    let skipTags := !s.hasTags
    let ids := items.map (·.task.id)
    (do
      let _ ← Txn.mapList (insertFailed skipTags now) items
      Txn.modify fun s => s.deleteTasks fun r => ids.contains r.id
      Txn.modify fun s =>
        if skipTags then s else { s with taskTags := s.taskTags.filter fun t => !ids.contains t.1 } : Sql Unit) s

/-- `fail_with_record` -/
def failWithRecord (task : TaskRecord) (error : String) (retryable : Bool) (maxRetries : Int) (metrics : IoBudget)
    (backoff : FailBackoff) (now : Int) : Sql Unit :=
  withPrune now (failWithRecordTx task error retryable maxRetries metrics backoff now)

/-- `fail_batch` -/
def failBatch (items : List FailureItem) (now : Int) : Sql Unit :=
  if items.isEmpty then pure () else withPrune now (failBatchTx items now)

end Taskmill
