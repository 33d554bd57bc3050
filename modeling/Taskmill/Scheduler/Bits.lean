import Taskmill.Scheduler.Memory

/-!
# Who carries a pause bit

The bits other than GROUP are set by two statements only, `pause` and `pause_pending_by_type_prefix`.  Every other
step of the store leaves a row that carries such a bit with its task type and gives the bit to no further row, so
that a property `Q` of the types of the rows that carry it is kept.
-/

namespace Taskmill

open Transact

/-- If the row carries one of `bits`, its type has `Q`. -/
def TaskRow.BitsOn (bits : PauseReasons) (Q : String → Prop) (r : TaskRow) : Prop :=
  r.pauseReasons &&& bits ≠ 0 → Q r.taskType

/-- The step gives none of `bits` to a row. -/
def Action.SetsNone (bits : PauseReasons) : Action → Prop
  | .update (.pause _ reason _) => reason &&& bits = 0
  | .update (.pausePendingByTypePrefix _ _) => PauseReasons.module &&& bits = 0
  | _ => True

section Bits

variable {bits : PauseReasons} {Q : String → Prop} {r r' : TaskRow}

theorem TaskRow.BitsOn.of_le (h : r.BitsOn bits Q) (ht : r'.taskType = r.taskType)
    (hb : r'.pauseReasons &&& bits ≠ 0 → r.pauseReasons &&& bits ≠ 0) : r'.BitsOn bits Q := by
  intro hbits
  rw [ht]
  exact h (hb hbits)

theorem TaskRow.BitsOn.of_same (h : r.BitsOn bits Q) (ht : r'.taskType = r.taskType)
    (hr : r'.pauseReasons = r.pauseReasons) : r'.BitsOn bits Q :=
  h.of_le ht (by rw [hr]; exact fun hb => hb)

theorem TaskRow.BitsOn.of_none (hr : r.pauseReasons = .none) : r.BitsOn bits Q := by
  intro hbits
  rw [hr] at hbits
  exact absurd (BitVec.zero_and) hbits

theorem or_and_of_and_eq_zero {x y : PauseReasons} (hy : y &&& bits = 0) : (x ||| y) &&& bits = x &&& bits := by
  rw [BitVec.and_or_distrib_right, hy]
  exact BitVec.or_zero

theorem TaskRow.BitsOn.or {reason : PauseReasons} (h : r.BitsOn bits Q) (hreason : reason &&& bits = 0)
    (ht : r'.taskType = r.taskType) (hr : r'.pauseReasons = r.pauseReasons ||| reason) : r'.BitsOn bits Q :=
  h.of_le ht (by rw [hr, or_and_of_and_eq_zero hreason]; exact fun hb => hb)

theorem and_not_and {x y : PauseReasons} (h : (x &&& ~~~y) &&& bits ≠ 0) : x &&& bits ≠ 0 := by
  intro hx
  apply h
  rw [BitVec.and_assoc, BitVec.and_comm (~~~y), ← BitVec.and_assoc, hx]
  exact BitVec.zero_and

private theorem bitsOn_update {u : RowUpdate} (hset : (Action.update u).SetsNone bits)
    (hgroup : PauseReasons.group &&& bits = 0) (h : r.BitsOn bits Q) : (u.change r).BitsOn bits Q := by
  cases u with
  | pause id reason now => exact h.or hset rfl rfl
  | pausePendingByTypePrefix like now => exact h.or hset rfl rfl
  | addGroupBit group => exact h.or hgroup rfl rfl
  | pausePendingInGroup group now => exact h.or hgroup rfl rfl
  | resume id now => exact .of_none rfl
  | resumeSole sel reason now => exact .of_none rfl
  | clearBit sel reason => exact h.of_le rfl and_not_and
  | requeue id => exact h.of_same rfl rfl
  | setRunAfter id runAfter => exact h.of_same rfl rfl
  | incrementRetry id error => exact h.of_same rfl rfl
  | requeueForRetry id error delay now => exact h.of_same rfl rfl
  | setWaiting id memo => exact h.of_same rfl rfl
  | setRunningForFinalize id now => exact h.of_same rfl rfl
  | setRecurringPaused id paused => exact h.of_same rfl rfl

private theorem bitsOn_fresh_paused {row : TaskRow} (hrow : row.pauseReasons = .none)
    (hgroup : PauseReasons.group &&& bits = 0) (now : Int) : (row.pauseFor .group now).BitsOn bits Q :=
  TaskRow.BitsOn.or (r := row) (.of_none hrow) hgroup rfl rfl

private theorem bitsOn_submission {sha256 : List UInt8 → String} {sub : TaskSubmission} {now : Int} {s : Store}
    (hgroup : PauseReasons.group &&& bits = 0) (hs : s.Rows (TaskRow.BitsOn bits Q)) :
    sub.KeepsRows sha256 (TaskRow.BitsOn bits Q) now s where
  pending _ _ := .of_none rfl
  paused _ _ := bitsOn_fresh_paused rfl hgroup now
  blocked := .of_none rfl
  upgraded r hr _ _ _ := (hs r hr).of_same rfl rfl
  requeued r hr _ _ := (hs r hr).of_same rfl rfl
  superseded _ r hr _ _ := (hs r hr).of_same rfl rfl
  replaced _ _ _ _ _ := .of_none rfl

private theorem bitsOn_completion (tasks : List TaskRecord) (now : Int) (s : Store)
    (hgroup : PauseReasons.group &&& bits = 0) : CompletionKeepsRows (TaskRow.BitsOn bits Q) tasks now s where
  reset _ hr _ _ _ _ := hr.of_same rfl rfl
  next task _ interval _ id inst _ := by
    split
    · exact bitsOn_fresh_paused rfl hgroup now
    · exact .of_none rfl

private theorem bitsOn_freeing (now : Int) (s : Store) (hgroup : PauseReasons.group &&& bits = 0) :
    FreeingKeepsRows (TaskRow.BitsOn bits Q) now s := by
  intro r hr _
  rw [Store.freeRow]
  split
  · exact hr.or hgroup rfl rfl
  · exact hr.of_same rfl rfl

/-- A step that gives no row one of `bits` leaves them on rows whose types have `Q`. -/
theorem Action.bitsOn_exec (sha256 : List UInt8 → String) {s : Store} (hschema : s.Schema)
    (hgroup : PauseReasons.group &&& bits = 0) (hs : s.Rows (TaskRow.BitsOn bits Q)) {a : Action}
    (ha : a.SetsNone bits) :
    (a.exec sha256 s).Rows (TaskRow.BitsOn bits Q) := by
  refine a.rows_exec sha256 hschema hs ?_
  cases a with
  | update u => exact fun r hr _ => bitsOn_update ha hgroup (hs r hr)
  | submitDirect sub now => exact bitsOn_submission hgroup hs
  | processSubmitBatch skipRequeue batch =>
    exact Along.of_forall fun σ m hσ => ⟨bitsOn_submission hgroup hσ.rows, fun _ => .of_none rfl⟩
  | submitChunk skipRequeue last now chunk =>
    exact Along.of_forall fun σ item hσ _ => bitsOn_submission hgroup hσ.rows
  | claimTask id now => exact fun r hr _ _ => (hs r hr).of_same rfl rfl
  | popById id now => exact fun r hr _ _ => (hs r hr).of_same rfl rfl
  | popNextBatch limit aging now => exact fun r hr _ => (hs r hr).of_same rfl rfl
  | complete id metrics now => exact fun row _ => bitsOn_completion _ now s hgroup
  | completeWithRecord task metrics now => exact bitsOn_completion _ now s hgroup
  | completeBatch items now => exact ⟨bitsOn_completion _ now s hgroup, bitsOn_freeing now s hgroup⟩
  | resolveDependents id now => exact bitsOn_freeing now s hgroup
  | failDependents id now => exact bitsOn_freeing now s hgroup
  | fail id error retryable maxRetries metrics backoff now =>
    intro r hrow _
    exact (hs r (List.mem_of_find?_eq_some hrow)).of_same rfl rfl
  | failWithRecord task error retryable maxRetries metrics backoff now =>
    exact fun _ r hr _ => (hs r hr).of_same rfl rfl
  | recoverRunning now =>
    exact ⟨fun r hr _ => (hs r hr).of_same rfl rfl, fun r hr _ _ => (hs r hr).of_same rfl rfl,
      fun r hr _ _ _ => (hs r hr).of_same rfl rfl⟩
  | failBatch items now => trivial
  | cancelToHistory id now => trivial
  | cancelToHistoryWithRecord task now => trivial
  | cancelChildren parent read now => trivial
  | expireTasks now => trivial
  | expireSingle id now => trivial
  | pauseGroupState group resumeAt now => trivial
  | resumeGroupState group => trivial
  | delete id => trivial
  | deleteHistory historyId => trivial
  | pruneHistoryByAge days now => trivial
  | pruneHistoryByCount keep => trivial
  | maybePrune now => trivial

end Bits

end Taskmill
