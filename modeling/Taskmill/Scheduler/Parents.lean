import Taskmill.Stale
import Taskmill.Survival

/-!
# Parents and their finalizers

A task that has spawned children becomes `waiting` when its executor returns, and is finalized or failed when the
last child is gone.  After a completion, a final failure of a child and after `set_waiting`,
`handle_parent_resolution` looks at the parent (`src/scheduler/spawn/`): `try_resolve_parent` decides in one
transaction, then the parent is put into `pending_finalizers`, or its record is read and its failure written.
`try_dispatch_finalizer` takes a parent out of the set, moves it to `running`, reads it and starts it
(`src/scheduler/run_loop.rs`).

Every transaction and every access to the set is a step of its own.  The calls under way are listed with how far
they are; the dispatch of a finalizer also carries which waiting row its `UPDATE` has changed, which the code does
not look at.
-/

namespace Taskmill

open Transact

/-- `ParentResolution` -/
inductive ParentResolution where
  | readyToFinalize
  | failed (reason : String)
  | stillWaiting
deriving DecidableEq, Repr

/-- `try_resolve_parent` -/
def Store.tryResolveParent (s : Store) (parentId : Int) : Option ParentResolution :=
  match s.taskById parentId with
  | none => none
  | some parent =>
    if parent.status != .waiting then none
    else if s.tasks.any (·.parentId == some parentId) then some .stillWaiting
    else
      let failedCount := s.taskHistory.countP fun h => h.parentId == some parentId && h.status == .failed
      if 0 < failedCount then some (.failed s!"{failedCount} child task(s) failed") else some .readyToFinalize

/-- `task_by_id`, with the tags -/
def Store.recordById (s : Store) (id : Int) : Option TaskRecord :=
  (s.taskById id).map fun r => s.populateTags (rowToTaskRecord r)

/-- A stay of a life in `waiting`: the life, and how many times it has entered `waiting` by then. -/
abbrev Episode := Nat × Nat

/-- The calls under way that are about a parent. -/
inductive ParentCall where
  /-- `Scheduler::cancel` of the parent: its children go first -/
  | cancelling (parent : Int)
  /-- `propagate_failure` of a child -/
  | propagating (parent child : Int) (error : String)
  /-- `handle_parent_resolution` before its transaction -/
  | resolving (parent : Int)
  /-- the parent is ready to finalize -/
  | ready (parent : Int)
  /-- a child has failed: the record of the parent is to be read -/
  | failing (parent : Int) (reason : String)
  /-- the failure of the parent is to be written; the other children of a fail-fast parent are being cancelled -/
  | recording (parent : TaskRecord) (reason : String)
  /-- `try_dispatch_finalizer` has taken the parent out of the set -/
  | popped (parent : Int)
  /-- and has read its group -/
  | grouped (parent : Int) (group : String)
  /-- the group is not paused -/
  | admitted (parent : Int)
  /-- `set_running_for_finalize` has run -/
  | moved (parent : Int) (episode : Option Episode)
  /-- the record has been read -/
  | fetched (e : Execution) (episode : Option Episode)
deriving DecidableEq, Repr

inductive ParentEvent where
  /-- the life enters `waiting` -/
  | waits (life : Nat)
  /-- the finalize phase is started for the life, by a dispatch that has moved `episode`; with the status of its
  row -/
  | spawned (life : Nat) (episode : Option Episode) (status : Option TaskStatus)
deriving DecidableEq, Repr

structure Parents where
  store : Store
  /-- the set of paused groups in memory -/
  pausedGroups : List String
  pendingFinalizers : List Int
  calls : List ParentCall
  /-- the newest event first -/
  log : List ParentEvent

/-- The steps; those of a call under way name its place. -/
inductive ParentStep where
  /-- any other transaction or statement -/
  | store (a : Action)
  | setPausedGroups (groups : List String)
  /-- `handle_success` of a task with children: `set_waiting`, then `handle_parent_resolution` -/
  | wait (id : Int) (memo : Option (List UInt8))
  /-- `process_completion_batch`: the batch, then a `handle_parent_resolution` for every parent -/
  | complete (items : List (TaskRecord × IoBudget)) (now : Int)
  /-- `handle_failure` of a child: `fail_with_record`, then `propagate_failure` if the failure is final -/
  | fail (task : TaskRecord) (error : String) (retryable : Bool) (maxRetries : Int) (metrics : IoBudget)
      (backoff : FailBackoff) (now : Int)
  /-- `Scheduler::cancel` -/
  | cancel (id : Int)
  /-- its last transaction -/
  | finishCancel (i : Nat) (now : Int)
  /-- `propagate_failure` reads the parent -/
  | propagate (i : Nat)
  | resolve (i : Nat)
  | enqueue (i : Nat)
  | readFailing (i : Nat)
  | record (i : Nat) (now : Int)
  /-- the set has no order -/
  | pop (id : Int)
  | check (i : Nat)
  | checkGroup (i : Nat)
  | move (i : Nat) (now : Int)
  | fetch (i : Nat)
  | spawn (i : Nat)
  /-- there is no executor for the type -/
  | reject (i : Nat) (now : Int)
  /-- a crash and a new scheduler on the same database -/
  | restart (now : Int)

/-- The call at place `i` goes on. -/
def Parents.set (σ : Parents) (i : Nat) (call : ParentCall) : Parents := { σ with calls := σ.calls.set i call }

/-- It returns. -/
def Parents.drop (σ : Parents) (i : Nat) : Parents := { σ with calls := σ.calls.eraseIdx i }

/-- The insertion into the set. -/
def Parents.enqueue (σ : Parents) (parent : Int) : Parents :=
  { σ with pendingFinalizers := σ.pendingFinalizers.filter (· != parent) ++ [parent] }

/-- How many times the life has entered `waiting`. -/
def Parents.entries (σ : Parents) (life : Nat) : Nat := σ.log.count (.waits life)

/-- The rows that `set_waiting` changes. -/
def Store.enterWaiting (s : Store) (id : Int) : List TaskRow :=
  s.tasks.filter fun r => r.id == id && r.status == .running

/-- The episode that `set_running_for_finalize` ends. -/
def Parents.leaves (σ : Parents) (parent : Int) : Option Episode :=
  (σ.store.tasks.find? fun r => r.id == parent && r.status == .waiting).map fun r => (r.inst, σ.entries r.inst)

/-- The parents that are looked at after a batch of completions. -/
def completedParents (items : List (TaskRecord × IoBudget)) : List ParentCall :=
  (items.filterMap (·.1.parentId)).map .resolving

def ParentStep.exec (sha256 : List UInt8 → String) (σ : Parents) : ParentStep → Parents
  | .store a => { σ with store := a.exec sha256 σ.store }
  | .setPausedGroups groups => { σ with pausedGroups := groups }
  | .wait id memo =>
    { σ with
      store := σ.store.setWaiting id memo
      calls := σ.calls ++ [.resolving id]
      log := ((σ.store.enterWaiting id).map fun r => .waits r.inst) ++ σ.log }
  | .complete items now =>
    match completeBatchTx items now σ.store with
    | (.ok _, s) => { σ with store := s, calls := σ.calls ++ completedParents items }
    | (.error _, s) => { σ with store := s }
  | .fail task error retryable maxRetries metrics backoff now =>
    { σ with
      store := (failWithRecordTx task error retryable maxRetries metrics backoff now σ.store).2
      calls :=
        if task.willRetry retryable maxRetries then σ.calls
        else σ.calls ++ (task.parentId.map fun parent => .propagating parent task.id error).toList }
  | .cancel id => { σ with calls := σ.calls ++ [.cancelling id] }
  | .finishCancel i now =>
    match σ.calls[i]? with
    | some (.cancelling parent) => { σ.drop i with store := (cancelToHistoryTx parent now σ.store).2 }
    | _ => σ
  | .propagate i =>
    match σ.calls[i]? with
    | some (.propagating parent child error) =>
      match σ.store.recordById parent with
      | none => σ.drop i
      | some task =>
        if task.failFast then σ.set i (.recording task s!"child task {child} failed: {error}")
        else σ.set i (.resolving parent)
    | _ => σ
  | .resolve i =>
    match σ.calls[i]? with
    | some (.resolving parent) =>
      match σ.store.tryResolveParent parent with
      | some .readyToFinalize => σ.set i (.ready parent)
      | some (.failed reason) => σ.set i (.failing parent reason)
      | some .stillWaiting | none => σ.drop i
    | _ => σ
  | .enqueue i =>
    match σ.calls[i]? with
    | some (.ready parent) => (σ.drop i).enqueue parent
    | _ => σ
  | .readFailing i =>
    match σ.calls[i]? with
    | some (.failing parent reason) =>
      match σ.store.recordById parent with
      | none => σ.drop i
      | some task => σ.set i (.recording task reason)
    | _ => σ
  | .record i now =>
    match σ.calls[i]? with
    | some (.recording parent reason) =>
      { σ.drop i with store := (failWithRecordTx parent reason false 0 {} {} now σ.store).2 }
    | _ => σ
  | .pop id =>
    if σ.pendingFinalizers.contains id then
      { σ with pendingFinalizers := σ.pendingFinalizers.filter (· != id), calls := σ.calls ++ [.popped id] }
    else σ
  | .check i =>
    match σ.calls[i]? with
    | some (.popped parent) =>
      match (σ.store.recordById parent).bind (·.groupKey) with
      | some group => σ.set i (.grouped parent group)
      | none => σ.set i (.admitted parent)
    | _ => σ
  | .checkGroup i =>
    match σ.calls[i]? with
    | some (.grouped parent group) =>
      if σ.pausedGroups.contains group then (σ.drop i).enqueue parent else σ.set i (.admitted parent)
    | _ => σ
  | .move i now =>
    match σ.calls[i]? with
    | some (.admitted parent) =>
      { σ.set i (.moved parent (σ.leaves parent)) with store := σ.store.setRunningForFinalize parent now }
    | _ => σ
  | .fetch i =>
    match σ.calls[i]? with
    | some (.moved parent episode) =>
      match σ.store.recordById parent with
      | none => σ.drop i
      | some task => σ.set i (.fetched (.ofRecord task) episode)
    | _ => σ
  | .spawn i =>
    match σ.calls[i]? with
    | some (.fetched e episode) =>
      { σ.drop i with
        log := .spawned e.life episode ((σ.store.tasks.find? (·.inst == e.life)).map (·.status)) :: σ.log }
    | _ => σ
  | .reject i now =>
    match σ.calls[i]? with
    | some (.fetched e _) =>
      { σ.drop i with store := (failTx e.task.id "no executor for finalize" false 0 {} {} now σ.store).2 }
    | _ => σ
  | .restart now =>
    { σ with
      store := σ.store.recoverRunning now
      pausedGroups := σ.store.pausedGroups.map (·.1)
      pendingFinalizers := []
      calls := [] }

structure Parents.Fresh (σ : Parents) : Prop where
  store : σ.store.Fresh
  pendingFinalizers : σ.pendingFinalizers = []
  calls : σ.calls = []
  log : σ.log = []

def Action.setsWaiting : Action → Bool
  | .update (.setWaiting ..) => true
  | _ => false

/-- The steps that belong to the calls and to a restart. -/
def Action.ofParents : Action → Bool
  | .update (.setWaiting ..) | .update (.setRunningForFinalize ..) | .recoverRunning _ => true
  | _ => false

/-- The other callers do not make tasks wait and do not finalize. -/
def ParentStep.Foreign : ParentStep → Prop
  | .store a => a.ofParents = false
  | _ => True

theorem Action.setsWaiting_of_ofParents {a : Action} (h : a.ofParents = false) : a.setsWaiting = false := by
  cases a with
  | update u =>
    cases u with
    | setWaiting id memo => cases h
    | _ => rfl
  | _ => rfl

/-! ### Waiting rows -/

/-- A row that waits was waiting in `s` already. -/
def TaskRow.WaitedIn (s : Store) (r : TaskRow) : Prop :=
  r.status = .waiting → ∃ r₀ ∈ s.tasks, r₀.status = .waiting ∧ r₀.id = r.id ∧ r₀.inst = r.inst

section Waiting

variable {s : Store} {r r' : TaskRow}

theorem TaskRow.WaitedIn.of_not (h : r.status ≠ .waiting) : r.WaitedIn s := fun hst => absurd hst h

theorem TaskRow.WaitedIn.of_same (h : r.WaitedIn s) (hst : r'.status = r.status) (hid : r'.id = r.id)
    (hinst : r'.inst = r.inst) : r'.WaitedIn s := by
  intro hw
  rw [hid, hinst]
  exact h (hst ▸ hw)

private theorem waitedIn_update {u : RowUpdate} (hu : (Action.update u).setsWaiting = false) (h : r.WaitedIn s) :
    (u.change r).WaitedIn s := by
  cases u with
  | setWaiting id memo => cases hu
  | setRunningForFinalize id now => exact .of_not nofun
  | clearBit sel reason => exact h.of_same rfl rfl rfl
  | addGroupBit group => exact h.of_same rfl rfl rfl
  | setRunAfter id runAfter => exact h.of_same rfl rfl rfl
  | incrementRetry id error => exact h.of_same rfl rfl rfl
  | setRecurringPaused id paused => exact h.of_same rfl rfl rfl
  | requeue id => exact .of_not nofun
  | requeueForRetry id error delay now => exact .of_not nofun
  | resume id now => exact .of_not nofun
  | resumeSole sel reason now => exact .of_not nofun
  | pause id reason now => exact .of_not nofun
  | pausePendingInGroup group now => exact .of_not nofun
  | pausePendingByTypePrefix like now => exact .of_not nofun

private theorem waitedIn_submission {sha256 : List UInt8 → String} {sub : TaskSubmission} {now : Int} {t : Store}
    (ht : t.Rows (TaskRow.WaitedIn s)) : sub.KeepsRows sha256 (TaskRow.WaitedIn s) now t where
  pending _ _ := .of_not nofun
  paused _ _ := .of_not nofun
  blocked := .of_not nofun
  upgraded r hr _ _ _ := (ht r hr).of_same rfl rfl rfl
  requeued r hr _ _ := (ht r hr).of_same rfl rfl rfl
  superseded _ _ _ _ _ := .of_not nofun
  replaced _ _ _ _ _ := .of_not nofun

private theorem waitedIn_completion (tasks : List TaskRecord) (now : Int) (t : Store) :
    CompletionKeepsRows (TaskRow.WaitedIn s) tasks now t where
  reset _ _ _ _ _ _ := .of_not nofun
  next _ _ _ _ _ _ _ := by
    split
    · exact .of_not nofun
    · exact .of_not nofun

private theorem waitedIn_freeing (now : Int) (t : Store) : FreeingKeepsRows (TaskRow.WaitedIn s) now t := by
  intro r _ _
  rw [Store.freeRow]
  split
  · exact .of_not (by rintro ⟨⟩)
  · exact .of_not (by rintro ⟨⟩)

/-- Only `set_waiting` makes a row wait. -/
theorem Action.waitedIn_exec (sha256 : List UInt8 → String) (hschema : s.Schema) (a : Action)
    (ha : a.setsWaiting = false) :
    (a.exec sha256 s).Rows (TaskRow.WaitedIn s) := by
  have hs : s.Rows (TaskRow.WaitedIn s) := fun r hr hst => ⟨r, hr, hst, rfl, rfl⟩
  refine a.rows_exec sha256 hschema hs ?_
  cases a with
  | update u => exact fun r hr _ => waitedIn_update ha (hs r hr)
  | submitDirect sub now => exact waitedIn_submission hs
  | processSubmitBatch skipRequeue batch =>
    exact Along.of_forall fun σ m hσ => ⟨waitedIn_submission hσ.rows, fun _ => .of_not nofun⟩
  | submitChunk skipRequeue last now chunk => exact Along.of_forall fun σ item hσ _ => waitedIn_submission hσ.rows
  | claimTask id now => exact fun r _ _ _ => .of_not nofun
  | popById id now => exact fun r _ _ _ => .of_not nofun
  | popNextBatch limit aging now => exact fun r _ _ => .of_not nofun
  | complete id metrics now => exact fun row _ => waitedIn_completion _ now s
  | completeWithRecord task metrics now => exact waitedIn_completion _ now s
  | completeBatch items now => exact ⟨waitedIn_completion _ now s, waitedIn_freeing now s⟩
  | resolveDependents id now => exact waitedIn_freeing now s
  | failDependents id now => exact waitedIn_freeing now s
  | fail id error retryable maxRetries metrics backoff now => exact fun r _ _ => .of_not nofun
  | failWithRecord task error retryable maxRetries metrics backoff now => exact fun _ r _ _ => .of_not nofun
  | recoverRunning now =>
    exact ⟨fun r _ _ => .of_not nofun, fun r hr _ _ => (hs r hr).of_same rfl rfl rfl, fun r _ _ _ _ => .of_not nofun⟩
  | _ => trivial

end Waiting

/-! ### A run -/

def parentsState (steps : List ParentStep) : Parents :=
  steps.foldl (fun σ a => a.exec sampleSha256 σ) ⟨openMemory, [], [], [], []⟩

theorem parentsState_fresh : Parents.Fresh ⟨openMemory, [], [], [], []⟩ := ⟨openMemory_fresh, rfl, rfl, rfl⟩

def childOfA : TaskSubmission := { TaskSubmission.new "b" with parentId := some 1 }

def dispatchedChild : TaskRecord :=
  rowToTaskRecord { childOfA.newRow (sampleSha256 [98, 58]) 0 with
    id := 2, inst := 1, status := .running, startedAt := some 0 }

/-- A task spawns a child and waits for it. -/
def waitingRun : List ParentStep :=
  [.store (.submitDirect (.new "a") 0), .store (.popNextBatch 1 none 0),
    .store (.submitDirect childOfA 0), .wait 1 none, .resolve 0]

end Taskmill
