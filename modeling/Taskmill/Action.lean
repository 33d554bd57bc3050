import Taskmill.CancelExpire
import Taskmill.Submit
import Taskmill.Transact.Run

/-!
# Runs of the store

The atomic steps of the store: each transaction and each single statement of its operations.  An operation that is
several of them is several steps, so that the runs contain every interleaving of concurrent callers; `recoverRunning`
is one step because nothing runs beside it.

The single `UPDATE`s of `tasks` form a family of their own, `RowUpdate`: a condition and a change of columns that
leaves the identity of the row alone.
-/

namespace Taskmill

open Transact

/-- The rows an `UPDATE` of the pause columns selects. -/
inductive Selection where
  | byId (id : Int)
  | all
  | group (g : String)
  | typePrefix (like : String → Bool)

def Selection.selects : Selection → TaskRow → Bool
  | .byId id, r => r.id == id
  | .all, _ => true
  | .group g, r => r.groupKey == some g
  | .typePrefix like, r => like r.taskType

/-- The operations that are one `UPDATE` of `tasks`. -/
inductive RowUpdate where
  | requeue (id : Int)
  | setRunAfter (id runAfter : Int)
  | incrementRetry (id : Int) (error : String)
  | requeueForRetry (id : Int) (error : String) (delay : Duration) (now : Int)
  | pause (id : Int) (reason : PauseReasons) (now : Int)
  | resume (id now : Int)
  | resumeSole (sel : Selection) (reason : PauseReasons) (now : Int)
  | clearBit (sel : Selection) (reason : PauseReasons)
  | addGroupBit (group : String)
  | pausePendingInGroup (group : String) (now : Int)
  | pausePendingByTypePrefix (like : String → Bool) (now : Int)
  | setWaiting (id : Int) (memo : Option (List UInt8))
  | setRunningForFinalize (id now : Int)
  | setRecurringPaused (id : Int) (paused : Bool)

def RowUpdate.exec (s : Store) : RowUpdate → Store
  | .requeue id => s.requeue id
  | .setRunAfter id runAfter => s.setRunAfter id runAfter
  | .incrementRetry id error => s.incrementRetry id error
  | .requeueForRetry id error delay now => s.requeueForRetry id error delay now
  | .pause id reason now => s.pause id reason now
  | .resume id now => s.resume id now
  | .resumeSole sel reason now => s.resumeSole sel.selects reason now
  | .clearBit sel reason => s.clearBit sel.selects reason
  | .addGroupBit group => s.addGroupBit group
  | .pausePendingInGroup group now => s.pausePendingInGroup group now
  | .pausePendingByTypePrefix like now => s.pausePendingByTypePrefix like now
  | .setWaiting id memo => s.setWaiting id memo
  | .setRunningForFinalize id now => s.setRunningForFinalize id now
  | .setRecurringPaused id paused => s.setRecurringPaused id paused

/-- The atomic steps of the store. -/
inductive Action where
  | update (u : RowUpdate)
  | submitDirect (sub : TaskSubmission) (now : Int)
  | processSubmitBatch (skipRequeue : Bool) (batch : List (TaskSubmission × Int))
  | submitChunk (skipRequeue : Bool) (last : Nat → String → Bool) (now : Int) (chunk : List (Nat × TaskSubmission))
  | claimTask (id now : Int)
  | popById (id now : Int)
  | popNextBatch (limit : Nat) (aging : Option AgingParams) (now : Int)
  | complete (id : Int) (metrics : IoBudget) (now : Int)
  | completeWithRecord (task : TaskRecord) (metrics : IoBudget) (now : Int)
  | completeBatch (items : List (TaskRecord × IoBudget)) (now : Int)
  | resolveDependents (id now : Int)
  | fail (id : Int) (error : String) (retryable : Bool) (maxRetries : Int) (metrics : IoBudget)
      (backoff : FailBackoff) (now : Int)
  | failWithRecord (task : TaskRecord) (error : String) (retryable : Bool) (maxRetries : Int) (metrics : IoBudget)
      (backoff : FailBackoff) (now : Int)
  | failBatch (items : List FailureItem) (now : Int)
  | failDependents (id now : Int)
  | cancelToHistory (id now : Int)
  | cancelToHistoryWithRecord (task : TaskRecord) (now : Int)
  | cancelChildren (parent : Int) (read : List TaskRow) (now : Int)
  | expireTasks (now : Int)
  | expireSingle (id now : Int)
  | pauseGroupState (group : String) (resumeAt : Option Int) (now : Int)
  | resumeGroupState (group : String)
  | delete (id : Int)
  | deleteHistory (historyId : Int)
  | pruneHistoryByAge (days now : Int)
  | pruneHistoryByCount (keep : Int)
  | maybePrune (now : Int)
  | recoverRunning (now : Int)

def Action.exec (sha256 : List UInt8 → String) (s : Store) : Action → Store
  | .update u => u.exec s
  | .submitDirect sub now => (Taskmill.submitDirect sha256 sub now s).2
  | .processSubmitBatch skipRequeue batch => (Taskmill.processSubmitBatch sha256 skipRequeue batch s).2
  | .submitChunk skipRequeue last now chunk => (Taskmill.submitChunk sha256 skipRequeue last now chunk s).2
  | .claimTask id now => (Taskmill.claimTask id now s).2
  | .popById id now => (Taskmill.popById id now s).2
  | .popNextBatch limit aging now => (Taskmill.popNextBatch limit aging now s).2
  | .complete id metrics now => (completeTx id metrics now s).2
  | .completeWithRecord task metrics now => (completeWithRecordTx task metrics now s).2
  | .completeBatch items now => (completeBatchTx items now s).2
  | .resolveDependents id now => (Taskmill.resolveDependents id now s).2
  | .fail id error retryable maxRetries metrics backoff now =>
    (failTx id error retryable maxRetries metrics backoff now s).2
  | .failWithRecord task error retryable maxRetries metrics backoff now =>
    (failWithRecordTx task error retryable maxRetries metrics backoff now s).2
  | .failBatch items now => (failBatchTx items now s).2
  | .failDependents id now => (Taskmill.failDependents id now s).2
  | .cancelToHistory id now => (cancelToHistoryTx id now s).2
  | .cancelToHistoryWithRecord task now => (cancelToHistoryWithRecordTx task now s).2
  | .cancelChildren parent read now => (cancelChildrenTx parent read now s).2
  | .expireTasks now => (expireTasksTx now s).2
  | .expireSingle id now => (Taskmill.expireSingle id now s).2
  | .pauseGroupState group resumeAt now => s.pauseGroupState group resumeAt now
  | .resumeGroupState group => s.resumeGroupState group
  | .delete id => s.delete id
  | .deleteHistory historyId => s.deleteHistory historyId
  | .pruneHistoryByAge days now => s.pruneHistoryByAge days now
  | .pruneHistoryByCount keep => s.pruneHistoryByCount keep
  | .maybePrune now => s.maybePrune now
  | .recoverRunning now => s.recoverRunning now

/-- A newly created database; the flags and the configuration depend on how it was opened. -/
structure Store.Fresh (s : Store) : Prop where
  tasks : s.tasks = []
  taskDeps : s.taskDeps = []
  taskTags : s.taskTags = []
  taskHistory : s.taskHistory = []
  taskHistoryTags : s.taskHistoryTags = []
  pausedGroups : s.pausedGroups = []
  nextInst : s.nextInst = 0

theorem openMemory_fresh : openMemory.Fresh := ⟨rfl, rfl, rfl, rfl, rfl, rfl, rfl⟩

/-- The states reached from a new database by steps that meet `guard`. -/
def ReachableVia (sha256 : List UInt8 → String) (guard : Store → Action → Prop) (s : Store) : Prop :=
  Runs Store.Fresh (fun s (a : Action) => a.exec sha256 s) guard s

/-- The states reached by any run. -/
def Reachable (sha256 : List UInt8 → String) (s : Store) : Prop := ReachableVia sha256 (fun _ _ => True) s

/-- A list of steps, one after the other. -/
def execAll (sha256 : List UInt8 → String) (s : Store) (actions : List Action) : Store :=
  actions.foldl (fun s a => a.exec sha256 s) s

/-- SHA-256 on the keys of tasks of type `a`, `b`, `c` or `d` without payload, for runs that can be evaluated. -/
def sampleSha256 : List UInt8 → String
  | [97, 58] => "bfc622d4a6d410f26be3d72dd4f04e47bf434f76c655134adb76fef3a083c3a8"
  | [98, 58] => "1f867faa1c89eacfcd0605b86d93b8861cd7471c68ae6a706bd035c538183c7d"
  | [99, 58] => "826c0d7d3c42f5c52210bfc49965904f2b74650b86e66ce4b14a619735bc8360"
  | [100, 58] => "394e0f7e2f800af2768228464ce30d58d764e4d1a516ce9b9c387af2f4f4984d"
  | bytes => String.ofList (bytes.map fun b => Char.ofNat b.toNat)

/-- The record of a task of type `a` after its dispatch, if it was the first one in a new store. -/
def dispatchedA : TaskRecord :=
  rowToTaskRecord { (TaskSubmission.new "a").newRow (sampleSha256 [97, 58]) 0 with
    id := 1, status := .running, startedAt := some 0 }

end Taskmill
