import Taskmill.Store
import Taskmill.Transact.Reach

/-!
# Submission

`src/store/submit`: validation, the insert with key-based deduplication, dependency edges and cycle detection, and the
three ways of calling `submit_one`: alone in a transaction (`submitDirect`), several coalesced callers in one shared
transaction (`processSubmitBatch`), and a batch in chunks (`submitBatch`).

`sha256` is the digest function of `effective_key` and `now` the clock of the call.
-/

namespace Taskmill

open Transact

def maxPayloadBytes : Nat := 1048576
def maxTagKeyLen : Nat := 64
def maxTagValueLen : Nat := 256
def maxTagsPerTask : Nat := 32

/-- `validate_tags` -/
def validateTags (tags : Tags) : Except StoreError Unit :=
  if maxTagsPerTask < tags.entries.length then
    .error (.invalidTag s!"too many tags: {tags.entries.length} > {maxTagsPerTask}")
  else
    match tags.entries.find? fun t => maxTagKeyLen < t.1.utf8ByteSize || maxTagValueLen < t.2.utf8ByteSize with
    | none => .ok ()
    | some (k, v) =>
      if maxTagKeyLen < k.utf8ByteSize then
        .error (.invalidTag s!"tag key too long: {k.utf8ByteSize} > {maxTagKeyLen}")
      else .error (.invalidTag s!"tag value too long: {v.utf8ByteSize} > {maxTagValueLen}")

/-! ### Dependencies -/

/-- The status of the history row with the *row id* `dep`.  The id is the primary key, so the row with the latest
`completed_at` among those with this id is the row itself. -/
def Store.historyStatus (s : Store) (dep : Int) : Option HistoryStatus :=
  (s.taskHistory.find? (·.id == dep)).map (·.status)

/-- The loop over the history results: the ids that need a check of the active queue. -/
def needActiveCheck (s : Store) (policy : DependencyFailurePolicy) : List Int → Except StoreError (List Int)
  | [] => .ok []
  | dep :: deps =>
    match s.historyStatus dep with
    | some .completed => needActiveCheck s policy deps
    | some _ =>
      match policy with
      | .cancel | .fail => .error (.dependencyFailed dep)
      | .ignore => needActiveCheck s policy deps
    | none => (needActiveCheck s policy deps).map (dep :: ·)

/-- Every id that is neither in history nor active is invalid. -/
def activeDependencies (s : Store) : List Int → Except StoreError (List Int)
  | [] => .ok []
  | dep :: deps =>
    if s.ids.contains dep then (activeDependencies s deps).map (dep :: ·) else .error (.invalidDependency dep)

/-- `INSERT INTO task_deps VALUES …` with two variables for each row: all rows, or none if one violates the primary
key. -/
def insertEdges (taskId : Int) (deps : List Int) : Sql Unit := fun s =>
  if maxVariableNumber < 2 * deps.length then (.error variablesError, s)
  else if deps.Nodup ∧ ∀ dep ∈ deps, (taskId, dep) ∉ s.taskDeps then
    (.ok (), { s with taskDeps := s.taskDeps ++ deps.map fun dep => (taskId, dep) })
  else (.error taskDepsError, s)

/-- `resolve_dependency_edges`: the ids that got an edge.  The status it returns is `blocked` if there is one.  The
first query binds every id, so SQLite refuses too many of them. -/
def resolveDependencyEdges (taskId : Int) (deps : List Int) (policy : DependencyFailurePolicy) : Sql (List Int) := do
  if maxVariableNumber < deps.length then Txn.throw variablesError
  else
    let s ← Txn.get
    let needed ← Txn.ofExcept (needActiveCheck s policy deps)
    let active ← Txn.ofExcept (activeDependencies s needed)
    if active.isEmpty then pure active
    else
      insertEdges taskId active
      pure active

/-- `detect_cycle`: does the recursive query seeded with `deps` reach the new task?  Every seed is a term of the
compound `SELECT` of the query, and SQLite refuses one with too many terms. -/
def detectCycle (newTaskId : Int) (deps : List Int) : Sql Unit := do
  if maxCompoundSelect ≤ deps.length then Txn.throw compoundSelectError
  else
    let s ← Txn.get
    if newTaskId ∈ reached s.taskDeps deps then Txn.throw .cyclicDependency else pure ()

/-- The dependency handling of `submit_one`. -/
def attachDependencies (taskId : Int) (deps : List Int) (policy : DependencyFailurePolicy) : Sql Unit := do
  if deps.isEmpty then pure ()
  else
    let active ← resolveDependencyEdges taskId deps policy
    if active.isEmpty then pure ()
    else
      detectCycle taskId active
      Txn.modify fun s => s.updateTasks (·.id == taskId) fun r => { r with status := .blocked }

/-! ### Duplicates -/

/-- `UPDATE tasks SET … WHERE key = ? AND … RETURNING id` on the unique key. -/
def updateByKey (p : TaskRow → Bool) (f : TaskRow → TaskRow) : Sql (Option Int) := fun s =>
  (.ok ((s.tasks.find? p).map (·.id)), s.updateTasks p f)

/-- `skip_existing` -/
def skipExisting (key : String) (priority : Priority) (skipRequeue : Bool) : Sql SubmitOutcome := do
  let upgraded ← updateByKey
    (fun r => r.key == key && (r.status == .pending || r.status == .paused) && priority < r.priority)
    fun r => { r with priority := priority }
  match upgraded with
  | some id => pure (.upgraded id)
  | none =>
    if skipRequeue then pure .duplicate
    else
      let requeued ← updateByKey
        (fun r => r.key == key && (r.status == .running || r.status == .paused) &&
          (!r.requeue || r.requeuePriority.any (priority < ·)))
        fun r => { r with requeue := true, requeuePriority := some priority }
      match requeued with
      | some id => pure (.requeued id)
      | none => pure .duplicate

/-- `expires_at` of a submission. -/
def TaskSubmission.expiresAt (sub : TaskSubmission) (now : Int) : Option Int :=
  match sub.ttl, sub.ttlFrom with
  | some ttl, .submission => some (now + ttl.asMillis)
  | _, _ => none

/-- `ttl.as_secs() as i64` -/
def TaskSubmission.ttlSeconds (sub : TaskSubmission) : Option Int := sub.ttl.map fun d => asI64 d.asSecs

/-- The columns that both `INSERT`s of a submission bind, with the defaults of the schema for the others. -/
def TaskSubmission.baseRow (sub : TaskSubmission) (key : String) (now : Int) : TaskRow where
  id := 0
  inst := 0
  taskType := sub.taskType
  key := key
  label := sub.label
  priority := sub.priority
  status := .pending
  payload := sub.payload
  memo := none
  expectedIo := sub.expectedIo
  retryCount := 0
  maxRetries := sub.maxRetries
  lastError := none
  createdAt := now
  startedAt := none
  runAfter := none
  requeue := false
  requeuePriority := none
  parentId := sub.parentId
  failFast := sub.failFast
  groupKey := sub.groupKey
  onDepFailure := .cancel
  ttlSeconds := sub.ttlSeconds
  ttlFrom := sub.ttlFrom
  expiresAt := sub.expiresAt now
  recurringIntervalSecs := none
  recurringMaxExecutions := none
  recurringExecutionCount := 0
  recurringPaused := false
  pauseReasons := .none
  pauseDurationMs := 0
  pausedAtMs := none

/-- The row inserted by `submit_one`. -/
def TaskSubmission.newRow (sub : TaskSubmission) (key : String) (now : Int) : TaskRow :=
  { sub.baseRow key now with
    runAfter := sub.runAfter
    recurringIntervalSecs := sub.recurring.map fun r => asI64 r.interval.asSecs
    recurringMaxExecutions := sub.recurring.bind fun r => r.maxExecutions.map fun n => asI64 n
    onDepFailure := sub.onDependencyFailure }

/-- The in-place `UPDATE` of `supersede_existing`.  It starts a new life under the same id. -/
def TaskSubmission.supersedeRow (sub : TaskSubmission) (inst : Nat) (now : Int) (r : TaskRow) : TaskRow :=
  { r with
    inst := inst
    label := sub.label
    priority := sub.priority
    payload := sub.payload
    expectedIo := sub.expectedIo
    retryCount := 0
    lastError := none
    status := .pending
    requeue := false
    requeuePriority := none
    failFast := sub.failFast
    groupKey := sub.groupKey
    ttlSeconds := sub.ttlSeconds
    ttlFrom := sub.ttlFrom
    expiresAt := sub.expiresAt now
    maxRetries := sub.maxRetries }

/-- The in-place branch of `supersede_existing`. -/
def supersedeInPlace (sub : TaskSubmission) (replacedId now : Int) : Sql SubmitOutcome := do
  Txn.modify fun s =>
    { s.updateTasks (·.id == replacedId) (sub.supersedeRow s.nextInst now) with nextInst := s.nextInst + 1 }
  Txn.modify fun s => s.deleteTaskTags replacedId
  insertTags replacedId sub.tags.entries
  pure (.superseded replacedId replacedId)

/-- The delete-and-insert branch of `supersede_existing`. -/
def supersedeReplace (sub : TaskSubmission) (key : String) (replacedId now : Int) : Sql SubmitOutcome := do
  Txn.modify fun s => (s.deleteTaskTags replacedId).deleteTasks (·.id == replacedId)
  let newTaskId ← insertTask (sub.baseRow key now)
  insertTags newTaskId sub.tags.entries
  pure (.superseded newTaskId replacedId)

/-- `supersede_existing` -/
def supersedeExisting (sub : TaskSubmission) (key : String) (now : Int) : Sql SubmitOutcome := do
  let row ← (fun s => s.taskByKey key) <$> Txn.get
  match row with
  | none => pure .duplicate
  | some existing =>
    insertHistory (rowToTaskRecord existing) .superseded {} (existing.startedAt.map (now - ·)) none false now
    match existing.status with
    | .pending | .paused | .blocked => supersedeInPlace sub existing.id now
    | .running | .waiting => supersedeReplace sub key existing.id now

/-! ### `submit_one` and its callers -/

/-- The checks of `submit_one` before it touches the database. -/
def TaskSubmission.validate (sub : TaskSubmission) : Except StoreError Unit :=
  match sub.payloadError with
  | some err => .error (.serialization err)
  | none =>
    match validateTags sub.tags with
    | .error e => .error e
    | .ok () =>
      if sub.parentId.isSome && sub.recurring.isSome then
        .error (.database "recurring tasks cannot be children (parent_id must be None)")
      else .ok ()

/-- What `submit_one` does after the row is in: hierarchy flag, tags, dependencies, group pause. -/
def finishInsert (sub : TaskSubmission) (taskId now : Int) : Sql SubmitOutcome := do
  Txn.modify fun s => { s with hasHierarchy := s.hasHierarchy || sub.parentId.isSome }
  insertTagsFlagged taskId sub.tags.entries
  attachDependencies taskId sub.dependencies sub.onDependencyFailure
  let groupPaused ← (fun s => s.groupPaused sub.groupKey) <$> Txn.get
  Txn.modify fun s =>
    if groupPaused then
      s.updateTasks (fun r => r.id == taskId && r.status == .pending) fun r => r.pauseFor .group now
    else s
  pure (.inserted taskId groupPaused)

/-- `submit_one` -/
def submitOne (sha256 : List UInt8 → String) (sub : TaskSubmission) (skipRequeue : Bool) (now : Int) :
    Sql SubmitOutcome := do
  Txn.ofExcept sub.validate
  let key := sub.effectiveKey sha256
  let inserted ← insertOrIgnoreTask (sub.newRow key now)
  match inserted with
  | some taskId => finishInsert sub taskId now
  | none =>
    match sub.onDuplicate with
    | .reject => pure .rejected
    | .supersede => supersedeExisting sub key now
    | .skip => skipExisting key sub.priority skipRequeue

/-- `submit_direct` -/
def submitDirect (sha256 : List UInt8 → String) (sub : TaskSubmission) (now : Int) : Sql SubmitOutcome :=
  transaction fun s => submitOne sha256 sub (!s.hasRunning) now s

/-- The loop of `process_submit_batch`: one `submit_one` per message, errors are kept as results. -/
def submitEach (sha256 : List UInt8 → String) (skipRequeue : Bool) :
    List (TaskSubmission × Int) → Store → List (Except StoreError SubmitOutcome) × Store
  | [], s => ([], s)
  | (sub, now) :: rest, s =>
    let (r, s₁) := submitOne sha256 sub skipRequeue now s
    let (rs, s₂) := submitEach sha256 skipRequeue rest s₁
    (r :: rs, s₂)

/-- `process_submit_batch`: all messages share one transaction, which is committed whatever their results are.  A
message carries the clock reading of its turn.  `skipRequeue` is what `has_running` said when the batch was taken,
before the transaction is opened. -/
def processSubmitBatch (sha256 : List UInt8 → String) (skipRequeue : Bool) (batch : List (TaskSubmission × Int))
    (s : Store) : List (Except StoreError SubmitOutcome) × Store :=
  submitEach sha256 skipRequeue batch s

/-- The checks of `TaskStore::submit` and `submit_batch` before a transaction is opened. -/
def TaskSubmission.prevalidate (sub : TaskSubmission) : Except StoreError Unit :=
  if sub.payload.any (maxPayloadBytes < ·.length) then .error .payloadTooLarge else validateTags sub.tags

def batchChunkSize : Nat := 10000

/-- The loop body of `submit_batch`.  `last i key` says whether position `i` is the last with its key. -/
def submitItem (sha256 : List UInt8 → String) (skipRequeue : Bool) (last : Nat → String → Bool) (now : Int)
    (item : Nat × TaskSubmission) : Sql SubmitOutcome :=
  if last item.1 (item.2.effectiveKey sha256) then submitOne sha256 item.2 skipRequeue now else pure .duplicate

/-- One chunk of `submit_batch`, in a transaction. -/
def submitChunk (sha256 : List UInt8 → String) (skipRequeue : Bool) (last : Nat → String → Bool) (now : Int)
    (chunk : List (Nat × TaskSubmission)) : Sql (List SubmitOutcome) :=
  transaction (Txn.mapList (submitItem sha256 skipRequeue last now) chunk)

/-- `submit_batch` -/
def submitBatch (sha256 : List UInt8 → String) (subs : List TaskSubmission) (now : Int) :
    Sql (List SubmitOutcome) := do
  let _ ← Txn.mapList (fun sub => Txn.ofExcept sub.prevalidate) subs
  let keys := subs.map (·.effectiveKey sha256)
  let skipRequeue ← (fun s => !s.hasRunning) <$> Txn.get
  let results ← Txn.mapList
    (submitChunk sha256 skipRequeue (fun i key => !(keys.drop (i + 1)).contains key) now)
    ((subs.zipIdx.map fun x => (x.2, x.1)).toChunks batchChunkSize)
  pure results.flatten

end Taskmill
