import Mathlib.Algebra.Group.Int.Defs
import Mathlib.Algebra.Group.Nat.Defs
import Mathlib.Data.List.Nodup

/-!
# Task data

The data that flows through the queue (`src/task`, `src/store/mod.rs`): submissions, the rows of the `tasks` and
`task_history` tables and the in-memory `TaskRecord`.  Times are epoch milliseconds, as in the `INTEGER` columns.

`inst` is the one column that is not in the schema.  It numbers the lives of rows: a row gets a new number when it is
inserted, when a completion resets it because of a requeue, and when it is superseded in place.  No operation reads
it; it lets the statements speak about one task although SQLite hands out the same `id` again.
-/

namespace Taskmill

/-- `Priority(u8)`: lower values are more urgent. -/
abbrev Priority := UInt8

/-- `std::time::Duration`, in nanoseconds. -/
structure Duration where
  nanos : Nat
deriving DecidableEq, Repr

def Duration.asSecs (d : Duration) : Nat := d.nanos / 1000000000

def Duration.asMillis (d : Duration) : Nat := d.nanos / 1000000

def Duration.isZero (d : Duration) : Bool := d.nanos == 0

/-- `as i64` of an unsigned number -/
def asI64 (n : Nat) : Int := Int.bmod n (2 ^ 64)

theorem asI64_bounds (n : Nat) : -2 ^ 63 ≤ asI64 n ∧ asI64 n < 2 ^ 63 := by
  have hle := Int.le_bmod (x := n) (m := 2 ^ 64) (by decide)
  have hlt := Int.bmod_lt (x := n) (m := 2 ^ 64) (by decide)
  unfold asI64
  omega

theorem asI64_of_lt {n : Nat} (h : n < 2 ^ 63) : asI64 n = n := Int.bmod_eq_of_le_mul_two (by omega) (by omega)

theorem asI64_le (n : Nat) : asI64 n ≤ n := by
  by_cases h : n < 2 ^ 63
  · exact Int.le_of_eq (asI64_of_lt h)
  · have hlt := (asI64_bounds n).2
    omega

/-- Only what fits is kept. -/
theorem le_asI64_iff {n : Nat} : (n : Int) ≤ asI64 n ↔ n < 2 ^ 63 := by
  constructor
  · intro hle
    have hlt := (asI64_bounds n).2
    omega
  · exact fun h => Int.le_of_eq (asI64_of_lt h).symm

structure IoBudget where
  diskRead : Int := 0
  diskWrite : Int := 0
  netRx : Int := 0
  netTx : Int := 0
deriving DecidableEq, Repr

inductive TtlFrom where
  | submission
  | firstAttempt
deriving DecidableEq, Repr

/-- Lifecycle state of a row of `tasks`. -/
inductive TaskStatus where
  | pending
  | running
  | paused
  | waiting
  | blocked
deriving DecidableEq, Repr

/-- Terminal state of a row of `task_history`. -/
inductive HistoryStatus where
  | completed
  | failed
  | deadLetter
  | cancelled
  | expired
  | superseded
  | dependencyFailed
deriving DecidableEq, Repr

def HistoryStatus.incrementsRetries : HistoryStatus → Bool
  | .failed | .deadLetter => true
  | _ => false

inductive DependencyFailurePolicy where
  | cancel
  | fail
  | ignore
deriving DecidableEq, Repr

inductive DuplicateStrategy where
  | skip
  | supersede
  | reject
deriving DecidableEq, Repr

structure RecurringSchedule where
  interval : Duration
  initialDelay : Option Duration
  maxExecutions : Option Nat
deriving DecidableEq, Repr

/-- The bitmask of the column `pause_reasons`. -/
abbrev PauseReasons := BitVec 64

namespace PauseReasons

def none : PauseReasons := 0
def preemption : PauseReasons := 1
def module : PauseReasons := 2
def global : PauseReasons := 4
def group : PauseReasons := 8

end PauseReasons

/-- A `HashMap<String, String>` of tags, listed in its iteration order. -/
structure Tags where
  entries : List (String × String)
  nodup : (entries.map Prod.fst).Nodup
deriving DecidableEq, Repr

def Tags.empty : Tags := ⟨[], by simp⟩

/-- Parameters for submitting a new task. -/
structure TaskSubmission where
  taskType : String
  dedupKey : Option String
  label : String
  priority : Priority
  payload : Option (List UInt8)
  expectedIo : IoBudget
  parentId : Option Int
  failFast : Bool
  groupKey : Option String
  onDuplicate : DuplicateStrategy
  ttl : Option Duration
  ttlFrom : TtlFrom
  payloadError : Option String
  runAfter : Option Int
  recurring : Option RecurringSchedule
  dependencies : List Int
  onDependencyFailure : DependencyFailurePolicy
  tags : Tags
  maxRetries : Option Int
deriving DecidableEq, Repr

/-- `TaskSubmission::new`: normal priority, no payload, no key, fail-fast. -/
def TaskSubmission.new (taskType : String) : TaskSubmission where
  taskType := taskType
  dedupKey := none
  label := taskType
  priority := 128
  payload := none
  expectedIo := {}
  parentId := none
  failFast := true
  groupKey := none
  onDuplicate := .skip
  ttl := none
  ttlFrom := .submission
  payloadError := none
  runAfter := none
  recurring := none
  dependencies := []
  onDependencyFailure := .cancel
  tags := .empty
  maxRetries := none

/-- The bytes hashed by `generate_dedup_key`: the type, a colon and the payload or explicit key. -/
def dedupKeyBytes (taskType : String) (payload : Option (List UInt8)) : List UInt8 :=
  taskType.toUTF8.data.toList ++ [58] ++ payload.getD []

/-- `TaskSubmission::effective_key`.  `sha256` is the hex digest of the `sha2` crate. -/
def TaskSubmission.effectiveKey (sha256 : List UInt8 → String) (sub : TaskSubmission) : String :=
  match sub.dedupKey with
  | some k => sha256 (dedupKeyBytes sub.taskType (some k.toUTF8.data.toList))
  | none => sha256 (dedupKeyBytes sub.taskType sub.payload)

/-- A row of `tasks`. -/
structure TaskRow where
  id : Int
  inst : Nat
  taskType : String
  key : String
  label : String
  priority : Priority
  status : TaskStatus
  payload : Option (List UInt8)
  memo : Option (List UInt8)
  expectedIo : IoBudget
  retryCount : Nat
  maxRetries : Option Int
  lastError : Option String
  createdAt : Int
  startedAt : Option Int
  runAfter : Option Int
  requeue : Bool
  requeuePriority : Option Priority
  parentId : Option Int
  failFast : Bool
  groupKey : Option String
  onDepFailure : DependencyFailurePolicy
  ttlSeconds : Option Int
  ttlFrom : TtlFrom
  expiresAt : Option Int
  recurringIntervalSecs : Option Int
  recurringMaxExecutions : Option Int
  recurringExecutionCount : Int
  recurringPaused : Bool
  pauseReasons : PauseReasons
  pauseDurationMs : Int
  pausedAtMs : Option Int
deriving DecidableEq, Repr

/-- The in-memory copy of a row.  Tags live in a table of their own and are filled in by `populate_tags`. -/
structure TaskRecord extends TaskRow where
  tags : List (String × String)
deriving DecidableEq, Repr

def rowToTaskRecord (row : TaskRow) : TaskRecord := { row with tags := [] }

/-- A row of `task_history`; `actualIo` is the metrics the executor reported. -/
structure TaskHistoryRow where
  id : Int
  inst : Nat
  taskType : String
  key : String
  label : String
  priority : Priority
  status : HistoryStatus
  payload : Option (List UInt8)
  memo : Option (List UInt8)
  expectedIo : IoBudget
  actualIo : IoBudget
  retryCount : Nat
  maxRetries : Option Int
  lastError : Option String
  createdAt : Int
  startedAt : Option Int
  completedAt : Int
  durationMs : Option Int
  runAfter : Option Int
  parentId : Option Int
  failFast : Bool
  groupKey : Option String
  ttlSeconds : Option Int
  ttlFrom : TtlFrom
  expiresAt : Option Int
deriving DecidableEq, Repr

/-- Result of a submission. -/
inductive SubmitOutcome where
  | inserted (id : Int) (groupPaused : Bool)
  | upgraded (id : Int)
  | requeued (id : Int)
  | duplicate
  | superseded (newTaskId replacedTaskId : Int)
  | rejected
deriving DecidableEq, Repr

def SubmitOutcome.id : SubmitOutcome → Option Int
  | .inserted id _ | .upgraded id | .requeued id => some id
  | .superseded newTaskId _ => some newTaskId
  | .duplicate | .rejected => Option.none

inductive StoreError where
  | payloadTooLarge
  | serialization (msg : String)
  | database (msg : String)
  | invalidDependency (id : Int)
  | dependencyFailed (id : Int)
  | cyclicDependency
  | invalidTag (msg : String)
  | notFound (msg : String)
  | invalidState (msg : String)
deriving DecidableEq, Repr

end Taskmill
