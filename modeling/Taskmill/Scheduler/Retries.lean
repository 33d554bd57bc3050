import Mathlib
import Taskmill.Logs
import Taskmill.Scheduler.Slots

/-!
# Retries

The backoff strategies (`src/task/retry.rs`), and what the steps of the store do to the columns that decide about
retries.  `retry_count` is written by `increment_retry`, `requeue_for_retry` and `fail_inner` only; a pause, a
resume or a recovery leaves it alone, and so does everything that happens to other tasks (`Action.quota_exec`).
-/

namespace Taskmill

open Transact

/-! ### Backoff -/

/-- `Duration::MAX`, in nanoseconds -/
def Duration.maxNanos : Nat := 2 ^ 64 * 1000000000 - 1

/-- The arithmetic of durations panics on overflow. -/
def Duration.checked (nanos : Nat) : Option Duration := if nanos ≤ maxNanos then some ⟨nanos⟩ else none

def Duration.min (a b : Duration) : Duration := if b.nanos < a.nanos then b else a

/-- `BackoffStrategy`.  Instead of `initial` and `multiplier` there is `scaled n`, which is
`initial.mul_f64(multiplier.powi(n))`, a computation with floating-point numbers that panics if the result is
negative, too big or not a number. -/
inductive BackoffStrategy where
  | constant (delay : Duration)
  | linear (initial increment max : Duration)
  | exponential (scaled : Nat → Option Duration) (max : Duration)
  | exponentialJitter (scaled : Nat → Option Duration) (max : Duration)

/-- `delay_for` -/
def BackoffStrategy.delayFor (strategy : BackoffStrategy) (retryCount random : Nat) : Option Duration :=
  match strategy with
  | .constant delay => some delay
  | .linear initial increment max => do
    let steps ← Duration.checked (increment.nanos * retryCount)
    let d ← Duration.checked (initial.nanos + steps.nanos)
    some (d.min max)
  | .exponential scaled max => (scaled retryCount).map (·.min max)
  | .exponentialJitter scaled max =>
    (scaled retryCount).map fun d =>
      let baseMs := (d.min max).asMillis % 2 ^ 64
      if baseMs = 0 then ⟨0⟩ else ⟨random % (baseMs + 1) * 1000000⟩

/-- `RetryPolicy { strategy, max_retries }` -/
def BackoffStrategy.policy (strategy : BackoffStrategy) (maxRetries : Int) : RetryPolicy :=
  ⟨maxRetries, strategy.delayFor⟩

/-! ### What decides about retries -/

/-- The columns that decide about the retries of a task, with its id. -/
structure Quota where
  id : Int
  retryCount : Nat
  maxRetries : Option Int
  taskType : String
deriving DecidableEq, Repr

def TaskRow.quota (r : TaskRow) : Quota := ⟨r.id, r.retryCount, r.maxRetries, r.taskType⟩

/-- `effective_max` -/
def SpawnConfig.limit (c : SpawnConfig) (q : Quota) : Int :=
  q.maxRetries.getD (((c.typeRetryPolicy q.taskType).map (·.maxRetries)).getD c.maxRetries)

theorem SpawnConfig.effectiveMax_eq (c : SpawnConfig) (task : TaskRecord) :
    c.effectiveMax task = c.limit task.toTaskRow.quota := rfl

/-- The tasks with whose outcome the step deals, by their ids. -/
def Action.outcomeIds : Action → List Int
  | .update (.incrementRetry id _) | .update (.requeueForRetry id _ _ _) | .complete id .. | .fail id .. => [id]
  | .completeWithRecord task .. | .failWithRecord task .. => [task.id]
  | .completeBatch items _ => items.map (·.1.id)
  | .failBatch items _ => items.map (·.task.id)
  | _ => []

/-- The records of the outcomes with which the step deals. -/
def Action.outcomeRecords : Action → List TaskRecord
  | .completeWithRecord task .. | .failWithRecord task .. => [task]
  | .completeBatch items _ => items.map (·.1)
  | .failBatch items _ => items.map (·.task)
  | _ => []

/-- The steps that change `retry_count`. -/
def Action.countsFor : Action → List Int
  | .update (.incrementRetry id _) | .update (.requeueForRetry id _ _ _) | .fail id .. => [id]
  | .failWithRecord task .. => [task.id]
  | _ => []

theorem Action.countsFor_subset (a : Action) : a.countsFor ⊆ a.outcomeIds := by
  unfold countsFor outcomeIds
  split <;> simp

/-- The pauses, the resumes and the recovery. -/
def Action.pauses : Action → Bool
  | .update (.pause ..) | .update (.resume ..) | .update (.resumeSole ..) | .update (.clearBit ..)
  | .update (.addGroupBit _) | .update (.pausePendingInGroup ..) | .update (.pausePendingByTypePrefix ..)
  | .pauseGroupState .. | .resumeGroupState _ | .recoverRunning _ => true
  | _ => false

/-- A pause, a resume and a recovery change no `retry_count`. -/
theorem Action.pauses_quota (sha256 : List UInt8 → String) (s : Store) {a : Action} (ha : a.pauses = true) :
    (a.exec sha256 s).tasks.map TaskRow.quota = s.tasks.map TaskRow.quota := by
  cases a with
  | update u =>
    rw [Action.exec, u.exec_update]
    cases u with
    | incrementRetry => cases ha
    | requeueForRetry => cases ha
    | _ => exact s.map_updateTasks _ _ fun r => rfl
  | pauseGroupState group resumeAt now =>
    rw [Action.exec, Store.pauseGroupState]
    split
    · rfl
    · rfl
  | resumeGroupState group => rfl
  | recoverRunning now =>
    have hreset : s.resetRunning.tasks.map TaskRow.quota = s.tasks.map TaskRow.quota :=
      s.map_updateTasks _ _ fun r => rfl
    have hsettle : (s.resetRunning.settlePauses now).tasks.map TaskRow.quota =
        s.resetRunning.tasks.map TaskRow.quota :=
      s.resetRunning.map_updateTasks _ _ fun r => rfl
    have hunblock : ∀ t : Store, t.unblockEdgeless.tasks.map TaskRow.quota = t.tasks.map TaskRow.quota := fun t =>
      t.map_updateTasks _ _ fun r => rfl
    rw [Action.exec, Store.recoverRunning]
    split
    · exact hsettle.trans hreset
    · exact (hunblock _).trans (hsettle.trans hreset)
  | _ => cases ha

section Quota

variable {sha256 : List UInt8 → String} {s : Store} {life : Nat} {S : Quota → Prop}

/-- The rows of one life, at most one at a time, have a quota in `S`. -/
def TaskRow.QuotaIn (life : Nat) (S : Quota → Prop) (r : TaskRow) : Prop := r.inst = life → S r.quota

private theorem quotaIn_same {r r' : TaskRow} (h : r.QuotaIn life S) (hinst : r'.inst = r.inst)
    (hq : r'.quota = r.quota) :
    r'.QuotaIn life S := by
  intro hr'
  rw [hq]
  exact h (hinst.symm.trans hr')

/-- New rows have not been retried. -/
private theorem quotaIn_new (hnew : s.nextInst ≤ life → ∀ q : Quota, q.retryCount = 0 → S q) {r : TaskRow}
    (hinst : s.nextInst ≤ r.inst) (hcount : r.retryCount = 0) : r.QuotaIn life S := by
  intro hr
  exact hnew (hr ▸ hinst) _ hcount

private theorem quotaIn_submission {sub : TaskSubmission} {now : Int} {σ : Store}
    (hnew : s.nextInst ≤ life → ∀ q : Quota, q.retryCount = 0 → S q) (hσ : s.Within (TaskRow.QuotaIn life S) σ) :
    sub.KeepsRows sha256 (TaskRow.QuotaIn life S) now σ where
  pending _ _ := quotaIn_new hnew hσ.next rfl
  paused _ _ := quotaIn_new hnew hσ.next rfl
  blocked := quotaIn_new hnew hσ.next rfl
  upgraded r hr _ _ _ := quotaIn_same (hσ.rows r hr) rfl rfl
  requeued r hr _ _ := quotaIn_same (hσ.rows r hr) rfl rfl
  superseded _ _ _ _ _ := quotaIn_new hnew hσ.next rfl
  replaced _ _ _ _ _ := quotaIn_new hnew hσ.next rfl

private theorem quotaIn_completion {tasks : List TaskRecord} {now : Int}
    (hnew : s.nextInst ≤ life → ∀ q : Quota, q.retryCount = 0 → S q) :
    CompletionKeepsRows (TaskRow.QuotaIn life S) tasks now s where
  reset r hr _ _ inst hinst := quotaIn_new hnew hinst rfl
  next task htask interval _ id inst hinst := by
    split
    · exact quotaIn_new hnew hinst rfl
    · exact quotaIn_new hnew hinst rfl

private theorem quotaIn_freeing (now : Int) : FreeingKeepsRows (TaskRow.QuotaIn life S) now s := by
  intro r hr _
  rw [Store.freeRow]
  split
  · exact quotaIn_same hr rfl rfl
  · exact quotaIn_same hr rfl rfl

/-- A step that does not count a retry of the task keeps its quota. -/
theorem Action.quota_exec (hschema : s.Schema) (hs : s.Rows (TaskRow.QuotaIn life S))
    (hnew : s.nextInst ≤ life → ∀ q : Quota, q.retryCount = 0 → S q) (a : Action)
    (ha : ∀ r ∈ s.tasks, r.inst = life → r.id ∉ a.countsFor) : (a.exec sha256 s).Rows (TaskRow.QuotaIn life S) := by
  refine a.rows_exec sha256 hschema hs ?_
  have hw : s.Within (TaskRow.QuotaIn life S) s := ⟨hs, hschema, rfl, Nat.le_refl _⟩
  cases a with
  | update u =>
    intro r hr hsel
    cases u with
    | incrementRetry id error =>
      intro hlife
      have hid : r.id = id := by simpa [RowUpdate.selects] using hsel
      exact absurd (List.mem_singleton.2 hid) (ha r hr hlife)
    | requeueForRetry id error delay now =>
      intro hlife
      have hid : r.id = id := by simpa [RowUpdate.selects] using hsel
      exact absurd (List.mem_singleton.2 hid) (ha r hr hlife)
    | _ => exact quotaIn_same (hs r hr) rfl rfl
  | submitDirect sub now => exact quotaIn_submission hnew hw
  | processSubmitBatch skipRequeue batch =>
    refine Along.of_forall fun σ m hσ => ⟨quotaIn_submission hnew hσ, fun _ => ?_⟩
    exact quotaIn_new hnew hσ.next rfl
  | submitChunk skipRequeue last now chunk => exact Along.of_forall fun σ item hσ _ => quotaIn_submission hnew hσ
  | claimTask id now => exact fun r hr _ _ => quotaIn_same (hs r hr) rfl rfl
  | popById id now => exact fun r hr _ _ => quotaIn_same (hs r hr) rfl rfl
  | popNextBatch limit aging now => exact fun r hr _ => quotaIn_same (hs r hr) rfl rfl
  | complete id metrics now => exact fun row _ => quotaIn_completion hnew
  | completeWithRecord task metrics now => exact quotaIn_completion hnew
  | completeBatch items now => exact ⟨quotaIn_completion hnew, quotaIn_freeing now⟩
  | resolveDependents id now => exact quotaIn_freeing now
  | failDependents id now => exact quotaIn_freeing now
  | fail id error retryable maxRetries metrics backoff now =>
    intro r hr _ hlife
    have hid : r.id = id := by simpa using List.find?_some hr
    exact absurd (List.mem_singleton.2 hid) (ha r (List.mem_of_find?_eq_some hr) hlife)
  | failWithRecord task error retryable maxRetries metrics backoff now =>
    intro _ r hr hid hlife
    exact absurd (List.mem_singleton.2 hid) (ha r hr hlife)
  | recoverRunning now =>
    exact ⟨fun r hr _ => quotaIn_same (hs r hr) rfl rfl, fun r hr _ _ => quotaIn_same (hs r hr) rfl rfl,
      fun r hr _ _ _ => quotaIn_same (hs r hr) rfl rfl⟩
  | _ => trivial

end Quota

end Taskmill
