import Taskmill.Rows
import Taskmill.Stale

/-!
# Claims

The ways in which a dispatcher claims tasks, with the executions it then has in its hands: `pop_next` and
`pop_next_batch` on the fast path, `claim_task` for a candidate that was peeked earlier on the slow path, and
`pop_by_id`.  Every execution comes from a row that was pending.
-/

namespace Taskmill

open Transact

inductive Claim where
  | pop (limit : Nat) (aging : Option AgingParams) (now : Int)
  | popById (id now : Int)
  /-- the candidate is what a peek returned some time ago -/
  | candidate (task : TaskRecord) (now : Int) (readings : Readings)

def Claim.action : Claim → Action
  | .pop limit aging now => .popNextBatch limit aging now
  | .popById id now => .popById id now
  | .candidate task now _ => .claimTask task.id now

/-- The steps that belong to dispatchers and to a restart. -/
def Action.ofDispatch : Action → Bool
  | .claimTask .. | .popById .. | .popNextBatch .. | .recoverRunning .. => true
  | .update (.setRunningForFinalize ..) => true
  | _ => false

/-- The executions that the claim yields; the records of the candidates are patched, the others are read back. -/
def Claim.execs (s : Store) : Claim → List Execution
  | .pop limit aging now =>
    match popNextBatch limit aging now s with
    | (.ok tasks, s') => tasks.map fun task => .ofRecord (s'.populateTags task)
    | (.error _, _) => []
  | .popById id now =>
    match Taskmill.popById id now s with
    | (.ok task, _) => task.toList.map .ofRecord
    | (.error _, _) => []
  | .candidate task now readings =>
    match claimTask task.id now s with
    | (.ok true, _) => (s.taskById task.id).toList.map fun row => ⟨task.patched readings, row.inst⟩
    | _ => []

/-- The execution has been claimed from the row, with a record that agrees with it. -/
structure Execution.From (e : Execution) (r : TaskRow) : Prop where
  life : e.life = r.inst
  id : e.task.id = r.id
  taskType : e.task.taskType = r.taskType
  priority : e.task.priority = r.priority

/-- The candidate still is what its row is. -/
def Claim.Current (s : Store) : Claim → Prop
  | .candidate task _ _ =>
    ∀ r ∈ s.tasks, r.id = task.id → r.status = .pending → task.taskType = r.taskType ∧ task.priority = r.priority
  | _ => True

section Claims

variable {s : Store} {now : Int}

private theorem from_record (s' : Store) (r : TaskRow) :
    (Execution.ofRecord (s'.populateTags (rowToTaskRecord (r.claim now)))).From r := by
  unfold Store.populateTags Execution.ofRecord
  split
  · exact ⟨rfl, rfl, rfl, rfl⟩
  · exact ⟨rfl, rfl, rfl, rfl⟩

/-- The records that `pop_next_batch` returns are those of rows that were eligible. -/
theorem popNextBatch_eligible (hs : s.Schema) {limit : Nat} {aging : Option AgingParams} {tasks : List TaskRecord}
    {s' : Store} (h : popNextBatch limit aging now s = (.ok tasks, s')) :
    ∀ task ∈ tasks, ∃ r ∈ s.tasks, r.eligible now = true ∧ task = rowToTaskRecord (r.claim now) := by
  have hrows : ∀ limit, ∀ task ∈ ((s.tasks.filter fun r => (s.nextIds limit aging now).contains r.id).map
      (TaskRow.claim now)).map rowToTaskRecord,
      ∃ r ∈ s.tasks, r.eligible now = true ∧ task = rowToTaskRecord (r.claim now) := by
    intro limit task htask
    obtain ⟨r', hr', rfl⟩ := List.mem_map.1 htask
    obtain ⟨r, hr, rfl⟩ := List.mem_map.1 hr'
    obtain ⟨hr, hid⟩ := List.mem_filter.1 hr
    exact ⟨r, hr, hs.eligible_of_nextIds hr (List.contains_iff_mem.1 hid), rfl⟩
  match limit with
  | 0 =>
    cases h
    exact fun task htask => absurd htask List.not_mem_nil
  | 1 =>
    obtain ⟨hok, rfl⟩ := Prod.mk.inj h
    obtain rfl := Except.ok.inj hok
    intro task htask
    exact hrows 1 task (List.mem_of_mem_head? (by simpa using htask))
  | limit + 2 =>
    obtain ⟨hok, rfl⟩ := Prod.mk.inj h
    obtain rfl := Except.ok.inj hok
    exact hrows (limit + 2)

/-- Every claimed execution comes from a row that was pending. -/
theorem Claim.execs_from (hs : s.Schema) {c : Claim} (hc : c.Current s) {e : Execution} (he : e ∈ c.execs s) :
    ∃ r ∈ s.tasks, r.status = .pending ∧ e.From r := by
  cases c with
  | pop limit aging now =>
    rw [Claim.execs] at he
    split at he
    · rename_i tasks s' h
      obtain ⟨task, htask, rfl⟩ := List.mem_map.1 he
      obtain ⟨r, hr, hel, rfl⟩ := popNextBatch_eligible hs h task htask
      simp only [TaskRow.eligible, TaskRow.due, Bool.and_eq_true, beq_iff_eq] at hel
      exact ⟨r, hr, hel.1.1, from_record s' r⟩
    · cases he
  | popById id now =>
    rw [Claim.execs] at he
    split at he
    · rename_i task s' h
      obtain ⟨task', htask', rfl⟩ := List.mem_map.1 he
      obtain rfl := Option.mem_toList.1 htask'
      obtain ⟨hok, rfl⟩ := Prod.mk.inj h
      obtain ⟨r', hr', rfl⟩ := Option.map_eq_some_iff.1 (Except.ok.inj hok)
      obtain ⟨r, hr, rfl⟩ := List.mem_map.1 (List.mem_of_mem_head? hr')
      obtain ⟨hr, hsel⟩ := List.mem_filter.1 hr
      simp only [Bool.and_eq_true, beq_iff_eq] at hsel
      exact ⟨r, hr, hsel.2, from_record _ r⟩
    · cases he
  | candidate task now readings =>
    rw [Claim.execs] at he
    split at he
    · rename_i s' h
      obtain ⟨r, hr, rfl⟩ := List.mem_map.1 he
      have hrow : s.taskById task.id = some r := Option.mem_toList.1 hr
      have hmem := List.mem_of_find?_eq_some hrow
      have hid : r.id = task.id := by simpa using List.find?_some hrow
      -- the claim has found the row pending
      have hst : r.status = .pending := by
        have hsome : (!((s.tasks.filter fun r => r.id == task.id && r.status == .pending).map
          (TaskRow.claim now)).isEmpty) =
            true := Except.ok.inj (Prod.mk.inj h).1
        rw [Bool.not_eq_true', List.isEmpty_eq_false_iff_exists_mem] at hsome
        obtain ⟨_, hin⟩ := hsome
        obtain ⟨r', hr', rfl⟩ := List.mem_map.1 hin
        obtain ⟨hr', hsel⟩ := List.mem_filter.1 hr'
        simp only [Bool.and_eq_true, beq_iff_eq] at hsel
        rw [← hs.eq_of_id hr' hmem (hsel.1.trans hid.symm)]
        exact hsel.2
      obtain ⟨htype, hprio⟩ := hc r hmem hid hst
      exact ⟨r, hmem, hst, rfl, hid.symm, htype, hprio⟩
    · cases he

end Claims

end Taskmill
