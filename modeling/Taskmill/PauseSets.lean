import Taskmill.Schema
import Mathlib.Data.Fintype.Powerset

/-!
# Pause reasons as sets

The operations that pause and resume tasks, seen from one task: each sets a reason or clears one, and the mask in
the column `pause_reasons` is the set of the reasons that stand.  A clear is two `UPDATE`s, one for the rows that
have no other reason and one for the rest; to a single row it does one thing, `TaskRow.unpause`.
-/

namespace Taskmill

open Transact

inductive PauseReason where
  | preemption
  | module
  | global
  | group
deriving DecidableEq, Repr

instance : Fintype PauseReason := ⟨{.preemption, .module, .global, .group}, by
  intro reason
  cases reason
  · decide
  · decide
  · decide
  · decide⟩

def PauseReason.bits : PauseReason → PauseReasons
  | .preemption => .preemption
  | .module => .module
  | .global => .global
  | .group => .group

/-- The mask of a set of reasons. -/
def PauseReasons.ofSet (S : Finset PauseReason) : PauseReasons :=
  (if .preemption ∈ S then .preemption else 0) ||| (if .module ∈ S then .module else 0) |||
    (if .global ∈ S then .global else 0) ||| (if .group ∈ S then .group else 0)

/-! ### The operations -/

/-- The operations that clear a reason. -/
inductive PauseClear where
  | resumePreempted (id : Int)
  | clearPauseBit (reason : PauseReason)
  | resumePausedByGroup (group : String)
  | resumePausedByTypePrefix (like : String → Bool)

namespace PauseClear

def reason : PauseClear → PauseReason
  | .resumePreempted _ => .preemption
  | .clearPauseBit reason => reason
  | .resumePausedByGroup _ => .group
  | .resumePausedByTypePrefix _ => .module

def selects : PauseClear → TaskRow → Bool
  | .resumePreempted id, r => r.id == id
  | .clearPauseBit _, _ => true
  | .resumePausedByGroup group, r => r.groupKey == some group
  | .resumePausedByTypePrefix like, r => like r.taskType

def exec (s : Store) (now : Int) : PauseClear → Store
  | .resumePreempted id => s.resumePreempted id now
  | .clearPauseBit reason => s.clearPauseBit reason.bits now
  | .resumePausedByGroup group => s.resumePausedByGroup group now
  | .resumePausedByTypePrefix like => s.resumePausedByTypePrefix like now

/-- What the operation returns: `rows_affected` of its first statement.  `resume_preempted` returns nothing. -/
def returned (s : Store) (c : PauseClear) : Option Nat :=
  match c with
  | .resumePreempted _ => none
  | _ => some (s.tasks.countP fun r => c.selects r && r.status == .paused && r.pauseReasons == c.reason.bits)

end PauseClear

inductive PauseOp where
  | pause (id : Int) (reason : PauseReason) (now : Int)
  | pauseTasksInGroup (group : String) (now : Int)
  | pausePendingByTypePrefix (like : String → Bool) (now : Int)
  | clear (c : PauseClear) (now : Int)

namespace PauseOp

def selects : PauseOp → TaskRow → Bool
  | .pause id _ _, r => r.id == id
  | .pauseTasksInGroup group _, r => r.groupKey == some group
  | .pausePendingByTypePrefix like _, r => like r.taskType
  | .clear c _, r => c.selects r

def exec (s : Store) : PauseOp → Store
  | .pause id reason now => s.pause id reason.bits now
  | .pauseTasksInGroup group now => s.pauseTasksInGroup group now
  | .pausePendingByTypePrefix like now => s.pausePendingByTypePrefix like now
  | .clear c now => c.exec s now

/-- The operation sets the reason for the task. -/
def Sets (r : TaskRow) (reason : PauseReason) (op : PauseOp) : Prop :=
  op.selects r = true ∧
    match op with
    | .pause _ reason' _ => reason' = reason
    | .pauseTasksInGroup _ _ => reason = .group
    | .pausePendingByTypePrefix _ _ => reason = .module
    | .clear _ _ => False

/-- The operation clears the reason for the task. -/
def Clears (r : TaskRow) (reason : PauseReason) (op : PauseOp) : Prop :=
  op.selects r = true ∧
    match op with
    | .clear c _ => c.reason = reason
    | _ => False

end PauseOp

/-! ### Masks -/

namespace PauseReasons

theorem ofSet_empty : ofSet ∅ = .none := by decide

theorem ofSet_insert (S : Finset PauseReason) (reason : PauseReason) :
    ofSet (insert reason S) = ofSet S ||| reason.bits := by
  revert S reason
  decide

theorem ofSet_erase (S : Finset PauseReason) (reason : PauseReason) :
    ofSet (S.erase reason) = ofSet S &&& ~~~reason.bits := by
  revert S reason
  decide

theorem ofSet_and_ne_zero (S : Finset PauseReason) (reason : PauseReason) :
    ofSet S &&& reason.bits ≠ 0 ↔ reason ∈ S := by
  revert S reason
  decide

theorem ofSet_eq_bits (S : Finset PauseReason) (reason : PauseReason) : ofSet S = reason.bits ↔ S = {reason} := by
  revert S reason
  decide

end PauseReasons

/-! ### Single rows -/

/-- The row stands under the reasons `S`. -/
structure TaskRow.PausedFor (S : Finset PauseReason) (r : TaskRow) : Prop where
  reasons : r.pauseReasons = .ofSet S
  status : r.status = if S = ∅ then .pending else .paused
  since : r.pausedAtMs = none ↔ S = ∅

/-- What the two statements of a clear do to a row: the reason goes, and with the last one the pause. -/
def TaskRow.unpause (reason : PauseReason) (now : Int) (r : TaskRow) : TaskRow :=
  if r.status = .paused ∧ r.pauseReasons = reason.bits then r.resume now
  else if r.status = .paused ∧ r.pauseReasons &&& reason.bits ≠ 0 then
    { r with pauseReasons := r.pauseReasons &&& ~~~reason.bits }
  else r

/-- What the two statements of `pause_tasks_in_group` do to a row of the group. -/
def TaskRow.pauseInGroup (now : Int) (r : TaskRow) : TaskRow :=
  if r.status = .paused ∧ r.pauseReasons &&& .group = 0 then { r with pauseReasons := r.pauseReasons ||| .group }
  else if r.status = .pending then r.pauseFor .group now
  else r

/-- What an operation does to the rows it selects. -/
def PauseOp.row : PauseOp → TaskRow → TaskRow
  | .pause _ reason now, r => { r.pauseFor reason.bits now with startedAt := none }
  | .pauseTasksInGroup _ now, r => r.pauseInGroup now
  | .pausePendingByTypePrefix _ now, r =>
    if r.status = .pending ∨ r.status = .paused then r.pauseFor .module now else r
  | .clear c now, r => r.unpause c.reason now

/-- What an operation does to the reasons of the rows it selects. -/
def PauseOp.reasons (S : Finset PauseReason) : PauseOp → Finset PauseReason
  | .pause _ reason _ => insert reason S
  | .pauseTasksInGroup _ _ => insert .group S
  | .pausePendingByTypePrefix _ _ => insert .module S
  | .clear c _ => S.erase c.reason

section Rows

variable {r : TaskRow} {S : Finset PauseReason} {reason : PauseReason} {now : Int}

namespace TaskRow.PausedFor

theorem status_paused (h : r.PausedFor S) : r.status = .paused ↔ S ≠ ∅ := by
  rw [h.status]
  split
  · rename_i hS
    simp [hS]
  · rename_i hS
    simp [hS]

theorem status_pending (h : r.PausedFor S) : r.status = .pending ↔ S = ∅ := by
  rw [h.status]
  split
  · rename_i hS
    simp [hS]
  · rename_i hS
    simp [hS]

/-- A further reason. -/
theorem pauseFor (h : r.PausedFor S) (reason : PauseReason) (now : Int) :
    (r.pauseFor reason.bits now).PausedFor (insert reason S) where
  reasons := by
    rw [PauseReasons.ofSet_insert, ← h.reasons]
    rfl
  status := by
    rw [if_neg (Finset.insert_ne_empty reason S)]
    rfl
  since := iff_of_false nofun (Finset.insert_ne_empty reason S)

/-- The last reason goes. -/
theorem resume (r : TaskRow) (now : Int) : (r.resume now).PausedFor ∅ where
  reasons := PauseReasons.ofSet_empty.symm
  status := rfl
  since := iff_of_true rfl rfl

/-- The reasons determine what a clear does. -/
theorem unpause_eq (h : r.PausedFor S) (reason : PauseReason) (now : Int) :
    r.unpause reason now =
      if reason ∉ S then r
      else if S.erase reason = ∅ then r.resume now
      else { r with pauseReasons := .ofSet (S.erase reason) } := by
  have hsole : (r.status = .paused ∧ r.pauseReasons = reason.bits) ↔ S = {reason} := by
    rw [h.status_paused, h.reasons, PauseReasons.ofSet_eq_bits]
    constructor
    · exact fun hS => hS.2
    · intro hS
      rw [hS]
      exact ⟨Finset.singleton_ne_empty reason, rfl⟩
  have hset : (r.status = .paused ∧ r.pauseReasons &&& reason.bits ≠ 0) ↔ reason ∈ S := by
    rw [h.status_paused, h.reasons, PauseReasons.ofSet_and_ne_zero]
    exact ⟨fun hS => hS.2, fun hS => ⟨Finset.ne_empty_of_mem hS, hS⟩⟩
  rw [TaskRow.unpause]
  by_cases hmem : reason ∈ S
  · rw [if_neg (not_not.2 hmem), if_pos (hset.2 hmem)]
    by_cases hlast : S = {reason}
    · rw [if_pos (hsole.2 hlast), if_pos (by rw [hlast]; exact Finset.erase_singleton reason)]
    · have hmore : S.erase reason ≠ ∅ := by
        intro hempty
        rcases (Finset.erase_eq_empty_iff S reason).1 hempty with hS | hS
        · exact Finset.ne_empty_of_mem hmem hS
        · exact hlast hS
      rw [if_neg fun hs => hlast (hsole.1 hs), if_neg hmore, PauseReasons.ofSet_erase, ← h.reasons]
  · rw [if_pos hmem, if_neg fun hs => hmem (hset.1 hs), if_neg]
    intro hs
    exact hmem (by rw [hsole.1 hs]; exact Finset.mem_singleton_self reason)

theorem unpause (h : r.PausedFor S) (reason : PauseReason) (now : Int) :
    (r.unpause reason now).PausedFor (S.erase reason) := by
  rw [h.unpause_eq]
  split
  · rename_i hmem
    rw [Finset.erase_eq_of_notMem hmem]
    exact h
  · rename_i hmem
    rw [not_not] at hmem
    have hS : S ≠ ∅ := Finset.ne_empty_of_mem hmem
    split
    · rename_i hlast
      rw [hlast]
      exact resume r now
    · rename_i hmore
      refine ⟨rfl, ?_, ?_⟩
      · rw [if_neg hmore]
        exact h.status_paused.2 hS
      · exact iff_of_false (fun hnone => hS (h.since.1 hnone)) hmore

theorem unpause_of_notMem (h : r.PausedFor S) (hmem : reason ∉ S) : r.unpause reason now = r := by
  rw [h.unpause_eq, if_pos hmem]

/-- Two reasons that stand are cleared one after the other. -/
theorem unpause_unpause (h : r.PausedFor S) {reason reason' : PauseReason} (hne : reason ≠ reason')
    (hmem : reason ∈ S) (hmem' : reason' ∈ S) : (r.unpause reason now).unpause reason' now =
      if (S.erase reason).erase reason' = ∅ then r.resume now
      else { r with pauseReasons := .ofSet ((S.erase reason).erase reason') } := by
  have hleft : reason' ∈ S.erase reason := Finset.mem_erase.2 ⟨hne.symm, hmem'⟩
  have hfirst : r.unpause reason now = { r with pauseReasons := .ofSet (S.erase reason) } := by
    rw [h.unpause_eq, if_neg (not_not.2 hmem), if_neg (Finset.ne_empty_of_mem hleft)]
  rw [(h.unpause reason now).unpause_eq, if_neg (not_not.2 hleft), hfirst]
  rfl

/-- The order of two clears at the same time does not matter. -/
theorem unpause_comm (h : r.PausedFor S) {reason reason' : PauseReason} (hne : reason ≠ reason') (now : Int) :
    (r.unpause reason now).unpause reason' now = (r.unpause reason' now).unpause reason now := by
  by_cases hmem : reason ∈ S
  · by_cases hmem' : reason' ∈ S
    · rw [h.unpause_unpause hne hmem hmem', h.unpause_unpause hne.symm hmem' hmem, Finset.erase_right_comm]
    · rw [h.unpause_of_notMem hmem', (h.unpause reason now).unpause_of_notMem]
      exact fun hin => hmem' (Finset.mem_of_mem_erase hin)
  · rw [h.unpause_of_notMem hmem, (h.unpause reason' now).unpause_of_notMem]
    exact fun hin => hmem (Finset.mem_of_mem_erase hin)

/-- A row that is paused gets the bit unless it has it, and one that is pending is paused. -/
theorem pauseInGroup (h : r.PausedFor S) (now : Int) : (r.pauseInGroup now).PausedFor (insert .group S) := by
  have hset : r.pauseReasons &&& .group ≠ 0 ↔ .group ∈ S := by
    rw [h.reasons]
    exact PauseReasons.ofSet_and_ne_zero S .group
  rw [TaskRow.pauseInGroup]
  by_cases hS : S = ∅
  · have hst := h.status_pending.2 hS
    rw [if_neg (by rw [hst]; nofun), if_pos hst]
    exact h.pauseFor .group now
  · have hst := h.status_paused.2 hS
    by_cases hmem : .group ∈ S
    · rw [if_neg fun hs => hset.2 hmem hs.2, if_neg (by rw [hst]; nofun), Finset.insert_eq_of_mem hmem]
      exact h
    · have hzero : r.pauseReasons &&& .group = 0 := by
        by_contra hne
        exact hmem (hset.1 hne)
      have hp := h.pauseFor .group now
      rw [if_pos ⟨hst, hzero⟩]
      refine ⟨hp.reasons, ?_, ?_⟩
      · rw [if_neg (Finset.insert_ne_empty _ S)]
        exact hst
      · exact iff_of_false (fun hnone => hS (h.since.1 hnone)) (Finset.insert_ne_empty _ S)

/-- The step of one row. -/
theorem row (h : r.PausedFor S) (op : PauseOp) : (op.row r).PausedFor (op.reasons S) := by
  cases op with
  | pause id reason now =>
    have hp := h.pauseFor reason now
    exact ⟨hp.reasons, hp.status, hp.since⟩
  | pauseTasksInGroup group now => exact h.pauseInGroup now
  | pausePendingByTypePrefix like now =>
    have hp := h.pauseFor .module now
    have hst : r.status = .pending ∨ r.status = .paused := by
      rw [h.status_pending, h.status_paused]
      exact em _
    rw [PauseOp.row, if_pos hst]
    exact hp
  | clear c now => exact h.unpause c.reason now

end TaskRow.PausedFor

/-- The columns that the operations select by stay. -/
theorem PauseOp.row_same (op : PauseOp) (r : TaskRow) :
    (op.row r).id = r.id ∧ (op.row r).groupKey = r.groupKey ∧ (op.row r).taskType = r.taskType := by
  cases op with
  | pause id reason now => exact ⟨rfl, rfl, rfl⟩
  | pauseTasksInGroup group now =>
    simp only [PauseOp.row, TaskRow.pauseInGroup]
    split
    · exact ⟨rfl, rfl, rfl⟩
    · split
      · exact ⟨rfl, rfl, rfl⟩
      · exact ⟨rfl, rfl, rfl⟩
  | pausePendingByTypePrefix like now =>
    simp only [PauseOp.row]
    split
    · exact ⟨rfl, rfl, rfl⟩
    · exact ⟨rfl, rfl, rfl⟩
  | clear c now =>
    simp only [PauseOp.row, TaskRow.unpause]
    split
    · exact ⟨rfl, rfl, rfl⟩
    · split
      · exact ⟨rfl, rfl, rfl⟩
      · exact ⟨rfl, rfl, rfl⟩

theorem PauseOp.selects_congr (op : PauseOp) {r r' : TaskRow} (hid : r'.id = r.id) (hgroup : r'.groupKey = r.groupKey)
    (htype : r'.taskType = r.taskType) : op.selects r' = op.selects r := by
  cases op with
  | pause id reason now => simp only [PauseOp.selects, hid]
  | pauseTasksInGroup group now => simp only [PauseOp.selects, hgroup]
  | pausePendingByTypePrefix like now => simp only [PauseOp.selects, htype]
  | clear c now =>
    cases c with
    | resumePreempted id => simp only [PauseOp.selects, PauseClear.selects, hid]
    | clearPauseBit reason => rfl
    | resumePausedByGroup group => simp only [PauseOp.selects, PauseClear.selects, hgroup]
    | resumePausedByTypePrefix like => simp only [PauseOp.selects, PauseClear.selects, htype]

end Rows

/-! ### Whole operations -/

section Operations

variable {s : Store}

/-- An `UPDATE` is determined by what it does to the rows that are there. -/
private theorem updateTasks_eq {p q : TaskRow → Bool} {f g : TaskRow → TaskRow}
    (h : ∀ r ∈ s.tasks, (if p r then f r else r) = if q r then g r else r) :
    s.updateTasks p f = s.updateTasks q g := by
  rw [Store.updateTasks, Store.updateTasks, List.map_congr_left h]

private theorem resumeSole_row (p : TaskRow → Bool) (reason : PauseReason) (now : Int) (r : TaskRow)
    (hsole : r.status = .paused ∧ r.pauseReasons = reason.bits) :
    (if (p r && r.status == .paused && r.pauseReasons == reason.bits) = true then r.resume now else r) =
      if p r then r.unpause reason now else r := by
  rw [TaskRow.unpause, if_pos hsole]
  simp [hsole.1, hsole.2]

private theorem clearBit_row (p : TaskRow → Bool) (reason : PauseReason) (now : Int) (r : TaskRow)
    (hsole : ¬ (r.status = .paused ∧ r.pauseReasons = reason.bits)) :
    (if (p r && r.status == .paused && r.pauseReasons &&& reason.bits != 0) = true then
        { r with pauseReasons := r.pauseReasons &&& ~~~reason.bits } else r) =
      if p r then r.unpause reason now else r := by
  rw [TaskRow.unpause, if_neg hsole]
  by_cases hp : p r = true
  · simp [hp]
  · simp [hp]

/-- The two statements of a clear, row by row. -/
theorem resumeSole_clearBit (s : Store) (p : TaskRow → Bool) (reason : PauseReason) (now : Int) :
    (s.resumeSole p reason.bits now).clearBit p reason.bits = s.updateTasks p (TaskRow.unpause reason now) := by
  have hrow : ∀ r ∈ s.tasks,
      (fun r : TaskRow => if (p r && r.status == .paused && r.pauseReasons &&& reason.bits != 0) = true then
        { r with pauseReasons := r.pauseReasons &&& ~~~reason.bits } else r)
        (if (p r && r.status == .paused && r.pauseReasons == reason.bits) = true then r.resume now else r) =
      if p r then r.unpause reason now else r := by
    intro r _
    by_cases hsole : r.status = .paused ∧ r.pauseReasons = reason.bits
    · rw [resumeSole_row p reason now r hsole]
      by_cases hp : p r = true
      · -- a row that is resumed is not paused any more
        rw [if_pos hp, TaskRow.unpause, if_pos hsole]
        exact if_neg (by simp [TaskRow.resume])
      · rw [if_neg hp]
        exact if_neg (by simp [hp])
    · have hfirst : ¬ (p r && r.status == .paused && r.pauseReasons == reason.bits) = true := by
        simpa [and_assoc] using fun (_ : p r = true) hst => fun heq => hsole ⟨hst, heq⟩
      rw [if_neg hfirst]
      exact clearBit_row p reason now r hsole
  have htasks : ((s.resumeSole p reason.bits now).clearBit p reason.bits).tasks =
      (s.updateTasks p (TaskRow.unpause reason now)).tasks := by
    rw [Store.clearBit, Store.updateTasks_tasks, Store.resumeSole, Store.updateTasks_tasks, List.map_map,
      Store.updateTasks_tasks]
    exact List.map_congr_left hrow
  simpa [Store.clearBit, Store.resumeSole, Store.updateTasks] using htasks

/-- `resume_preempted` runs one statement or the other, which is the same because an id belongs to one row. -/
private theorem resumePreempted_eq (hids : s.ids.Nodup) (id now : Int) :
    s.resumePreempted id now = s.updateTasks (·.id == id) (TaskRow.unpause .preemption now) := by
  rw [Store.resumePreempted]
  split
  · rename_i hany
    obtain ⟨r₀, hr₀, hsole⟩ := List.any_eq_true.1 hany
    simp only [Bool.and_eq_true, beq_iff_eq] at hsole
    refine updateTasks_eq fun r hr => ?_
    by_cases hid : r.id = id
    · obtain rfl : r = r₀ := List.inj_on_of_nodup_map hids hr hr₀ (hid.trans hsole.1.1.symm)
      exact resumeSole_row (·.id == id) .preemption now r ⟨hsole.1.2, hsole.2⟩
    · simp [hid]
  · rename_i hnone
    refine updateTasks_eq fun r hr => ?_
    by_cases hid : r.id = id
    · refine clearBit_row (·.id == id) .preemption now r fun hsole => hnone ?_
      exact List.any_eq_true.2 ⟨r, hr, by simp [hid, hsole.1, hsole.2, PauseReason.bits]⟩
    · simp [hid]

/-- The two statements of `pause_tasks_in_group`: a row that gets the bit is not pending. -/
private theorem pauseTasksInGroup_eq (s : Store) (group : String) (now : Int) :
    s.pauseTasksInGroup group now = s.updateTasks (·.groupKey == some group) (TaskRow.pauseInGroup now) := by
  have htasks : (s.pauseTasksInGroup group now).tasks =
      (s.updateTasks (·.groupKey == some group) (TaskRow.pauseInGroup now)).tasks := by
    rw [Store.pauseTasksInGroup, Store.pausePendingInGroup, Store.updateTasks_tasks, Store.addGroupBit,
      Store.updateTasks_tasks, List.map_map, Store.updateTasks_tasks]
    refine List.map_congr_left fun r _ => ?_
    simp only [Function.comp_apply, TaskRow.pauseInGroup]
    by_cases hg : r.groupKey = some group
    · by_cases hadd : r.status = .paused ∧ r.pauseReasons &&& .group = 0
      · simp [hg, hadd.1, hadd.2]
      · have hfirst : ¬ (r.groupKey == some group && r.status == .paused && r.pauseReasons &&& .group == 0) =
            true := by
          simpa [hg] using hadd
        rw [if_neg hfirst, if_neg hadd]
        simp [hg]
    · simp [hg]
  simpa [Store.pauseTasksInGroup, Store.pausePendingInGroup, Store.addGroupBit, Store.updateTasks] using htasks

theorem PauseClear.exec_eq (hids : s.ids.Nodup) (c : PauseClear) (now : Int) :
    c.exec s now = s.updateTasks c.selects (TaskRow.unpause c.reason now) := by
  cases c with
  | resumePreempted id => exact resumePreempted_eq hids id now
  | clearPauseBit reason => exact resumeSole_clearBit s _ reason now
  | resumePausedByGroup group => exact resumeSole_clearBit s _ .group now
  | resumePausedByTypePrefix like => exact resumeSole_clearBit s _ .module now

/-- Every operation acts row by row. -/
theorem PauseOp.exec_eq (hids : s.ids.Nodup) (op : PauseOp) : op.exec s = s.updateTasks op.selects op.row := by
  cases op with
  | pause id reason now => rfl
  | pauseTasksInGroup group now => exact pauseTasksInGroup_eq s group now
  | pausePendingByTypePrefix like now =>
    refine updateTasks_eq fun r _ => ?_
    by_cases hlike : like r.taskType = true
    · simp [hlike, PauseOp.selects, PauseOp.row]
    · simp [hlike, PauseOp.selects]
  | clear c now => exact c.exec_eq hids now

theorem PauseOp.ids_exec (hids : s.ids.Nodup) (op : PauseOp) : (op.exec s).ids = s.ids := by
  rw [op.exec_eq hids]
  exact s.ids_updateTasks _ fun r => (op.row_same r).1

/-- Clears of different reasons at the same time commute. -/
private theorem clear_comm (hids : s.ids.Nodup) (hs : ∀ r ∈ s.tasks, ∃ S, r.PausedFor S)
    {c c' : PauseClear} (now : Int) (hne : c.reason ≠ c'.reason) :
    c'.exec (c.exec s now) now = c.exec (c'.exec s now) now := by
  have hids_exec (c : PauseClear) : (c.exec s now).ids.Nodup := by
    rw [show (c.exec s now).ids = s.ids from (PauseOp.clear c now).ids_exec hids]
    exact hids
  have hsel (c c' : PauseClear) (r : TaskRow) : c.selects (r.unpause c'.reason now) = c.selects r := by
    obtain ⟨hid, hgroup, htype⟩ := (PauseOp.clear c' now).row_same r
    exact (PauseOp.clear c now).selects_congr hid hgroup htype
  rw [c'.exec_eq (hids_exec c), c.exec_eq hids, c.exec_eq (hids_exec c'), c'.exec_eq hids]
  have htasks : ∀ r ∈ s.tasks,
      (fun r : TaskRow => if c'.selects r then r.unpause c'.reason now else r)
        (if c.selects r then r.unpause c.reason now else r) =
      (fun r : TaskRow => if c.selects r then r.unpause c.reason now else r)
        (if c'.selects r then r.unpause c'.reason now else r) := by
    intro r hr
    obtain ⟨S, hS⟩ := hs r hr
    by_cases hc : c.selects r = true
    · by_cases hc' : c'.selects r = true
      · simp only [hc, hc', hsel, if_true]
        exact hS.unpause_comm hne now
      · simp [hc, hc', hsel]
    · by_cases hc' : c'.selects r = true
      · simp [hc, hc', hsel]
      · simp [hc, hc']
  simp only [Store.updateTasks, List.map_map, Store.mk.injEq, and_true]
  exact List.map_congr_left htasks

/-- A clear counts the rows that it makes pending. -/
private theorem returned_eq (hids : s.ids.Nodup) (hs : ∀ r ∈ s.tasks, ∃ S, r.PausedFor S) (c : PauseClear)
    (now : Int) {n : Nat} (hn : c.returned s = some n) :
    n = (s.tasks.zip (c.exec s now).tasks).countP fun x => x.1.status == .paused && x.2.status == .pending := by
  have hcount : n = s.tasks.countP fun r =>
      c.selects r && r.status == .paused && r.pauseReasons == c.reason.bits := by
    cases c with
    | resumePreempted id => cases hn
    | _ => exact (Option.some.inj hn).symm
  rw [hcount, c.exec_eq hids, Store.updateTasks_tasks, ← List.map_prod_left_eq_zip, List.countP_map]
  refine List.countP_congr fun r hr => ?_
  obtain ⟨S, hS⟩ := hs r hr
  simp only [Function.comp_apply, Bool.and_eq_true, beq_iff_eq]
  by_cases hc : c.selects r = true
  · rw [if_pos hc, hS.status_paused, (hS.unpause c.reason now).status_pending, hS.reasons, PauseReasons.ofSet_eq_bits,
      Finset.erase_eq_empty_iff]
    constructor
    · rintro ⟨⟨_, hne⟩, hsole⟩
      exact ⟨hne, .inr hsole⟩
    · rintro ⟨hne, hempty | hsole⟩
      · exact absurd hempty hne
      · exact ⟨⟨hc, hne⟩, hsole⟩
  · rw [if_neg hc]
    constructor
    · exact fun h => absurd h.1.1 hc
    · rintro ⟨hp, hq⟩
      rw [hp] at hq
      cases hq

end Operations

/-! ### Runs -/

section Runs

variable {s : Store}

/-- The reasons of a row that is selected, after the operation. -/
private theorem mem_reasons_iff {op : PauseOp} {r : TaskRow} {S : Finset PauseReason} {reason : PauseReason}
    (hsel : op.selects r = true) : reason ∈ op.reasons S ↔
      op.Sets r reason ∨ (reason ∈ S ∧ ¬ op.Clears r reason) := by
  cases op with
  | pause id reason' now => simp [PauseOp.reasons, PauseOp.Sets, PauseOp.Clears, hsel, eq_comm]
  | pauseTasksInGroup group now => simp [PauseOp.reasons, PauseOp.Sets, PauseOp.Clears, hsel]
  | pausePendingByTypePrefix like now => simp [PauseOp.reasons, PauseOp.Sets, PauseOp.Clears, hsel]
  | clear c now => simp [PauseOp.reasons, PauseOp.Sets, PauseOp.Clears, hsel, and_comm, eq_comm]

/-- The row is the one of `r₀` and stands under the reasons that the operations have left. -/
private def Stands (ops : List PauseOp) (r₀ r : TaskRow) : Prop :=
  (r.id = r₀.id ∧ r.groupKey = r₀.groupKey ∧ r.taskType = r₀.taskType) ∧ ∃ S : Finset PauseReason,
    (∀ reason, reason ∈ S ↔ Standing (PauseOp.Sets r₀ reason) (PauseOp.Clears r₀ reason) ops) ∧ r.PausedFor S

private theorem Stands.step {ops : List PauseOp} {op : PauseOp} {r₀ r : TaskRow} (h : Stands ops r₀ r) :
    Stands (ops ++ [op]) r₀ (if op.selects r then op.row r else r) := by
  obtain ⟨⟨hid, hgroup, htype⟩, S, hmem, hS⟩ := h
  have hsel : op.selects r = op.selects r₀ := op.selects_congr hid hgroup htype
  by_cases hop : op.selects r = true
  · rw [if_pos hop]
    obtain ⟨hid', hgroup', htype'⟩ := op.row_same r
    refine ⟨⟨hid'.trans hid, hgroup'.trans hgroup, htype'.trans htype⟩, op.reasons S, fun reason => ?_, hS.row op⟩
    rw [Standing.concat_iff, ← hmem]
    exact mem_reasons_iff (hsel.symm.trans hop)
  · rw [if_neg hop]
    rw [hsel] at hop
    refine ⟨⟨hid, hgroup, htype⟩, S, fun reason => ?_, hS⟩
    rw [Standing.concat_iff, ← hmem]
    constructor
    · exact fun hr => .inr ⟨hr, fun hclear => hop hclear.1⟩
    · rintro (hset | hr)
      · exact absurd hset.1 hop
      · exact hr.1

/-- The whole run, by its last operation. -/
private theorem stands_run (hids : s.ids.Nodup)
    (hpending : ∀ r ∈ s.tasks, r.status = .pending ∧ r.pauseReasons = .none ∧ r.pausedAtMs = none)
    (ops : List PauseOp) :
    (ops.foldl PauseOp.exec s).ids = s.ids ∧
      List.Forall₂ (Stands ops) s.tasks (ops.foldl PauseOp.exec s).tasks := by
  induction ops using List.reverseRecOn with
  | nil =>
    refine ⟨rfl, List.forall₂_same.2 fun r hr => ⟨⟨rfl, rfl, rfl⟩, ∅, fun reason => ?_, ?_⟩⟩
    · exact iff_of_false (Finset.notMem_empty reason) Standing.nil
    · obtain ⟨hst, hreasons, hsince⟩ := hpending r hr
      exact ⟨hreasons.trans PauseReasons.ofSet_empty.symm, hst, iff_of_true hsince rfl⟩
  | append_singleton ops op ih =>
    obtain ⟨hsame, hstands⟩ := ih
    have hnodup : (ops.foldl PauseOp.exec s).ids.Nodup := by
      rw [hsame]
      exact hids
    rw [List.foldl_append, List.foldl_cons, List.foldl_nil]
    refine ⟨(op.ids_exec hnodup).trans hsame, ?_⟩
    rw [op.exec_eq hnodup, Store.updateTasks_tasks, List.forall₂_map_right_iff]
    exact hstands.imp fun r₀ r h => h.step

/-- Every row of the run stands under some reasons. -/
private theorem stands_right {ops : List PauseOp} {rows rows' : List TaskRow}
    (h : List.Forall₂ (Stands ops) rows rows') :
    ∀ r ∈ rows', ∃ S, r.PausedFor S := by
  induction h with
  | nil => exact fun r hr => absurd hr List.not_mem_nil
  | cons hrow hrest ih =>
    intro r hr
    rcases List.mem_cons.1 hr with rfl | hr
    · obtain ⟨_, S, _, hS⟩ := hrow
      exact ⟨S, hS⟩
    · exact ih r hr

end Runs

/-- From tasks that are pending without a reason, any sequence of operations leaves every task with the reasons that
were set for it and not cleared since; it is pending and has no open pause if and only if there is none.  In such a
state clears of different reasons commute, a clear returns the number of tasks it makes pending, and no operation
changes a task that it does not select, or another table. -/
theorem pauseReasons_eq_standing (s : Store) (hids : s.ids.Nodup)
    (hpending : ∀ r ∈ s.tasks, r.status = .pending ∧ r.pauseReasons = .none ∧ r.pausedAtMs = none)
    (ops : List PauseOp) :
    List.Forall₂ (fun r₀ r : TaskRow => r.id = r₀.id ∧ ∃ S : Finset PauseReason,
        (∀ reason, reason ∈ S ↔ Standing (PauseOp.Sets r₀ reason) (PauseOp.Clears r₀ reason) ops) ∧
        r.pauseReasons = .ofSet S ∧ (r.status = .pending ↔ S = ∅) ∧ (r.status = .paused ↔ S ≠ ∅) ∧
        (r.pausedAtMs = none ↔ r.status = .pending))
      s.tasks (ops.foldl PauseOp.exec s).tasks ∧
    (∀ (c c' : PauseClear) (now : Int), c.reason ≠ c'.reason →
      c'.exec (c.exec (ops.foldl PauseOp.exec s) now) now = c.exec (c'.exec (ops.foldl PauseOp.exec s) now) now) ∧
    (∀ (c : PauseClear) (now : Int) (n : Nat), c.returned (ops.foldl PauseOp.exec s) = some n →
      n = ((ops.foldl PauseOp.exec s).tasks.zip (c.exec (ops.foldl PauseOp.exec s) now).tasks).countP
        fun x => x.1.status == .paused && x.2.status == .pending) ∧
    ∀ op : PauseOp, ∃ change, op.exec (ops.foldl PauseOp.exec s) =
      (ops.foldl PauseOp.exec s).updateTasks op.selects change := by
  obtain ⟨hsame, hstands⟩ := stands_run hids hpending ops
  have hnodup : (ops.foldl PauseOp.exec s).ids.Nodup := by
    rw [hsame]
    exact hids
  have hpaused := stands_right hstands
  refine ⟨hstands.imp ?_, fun c c' now => clear_comm hnodup hpaused now, fun c now n =>
    returned_eq hnodup hpaused c now, fun op => ⟨op.row, op.exec_eq hnodup⟩⟩
  rintro r₀ r ⟨hkeep, S, hmem, hS⟩
  refine ⟨hkeep.1, S, hmem, hS.reasons, hS.status_pending, hS.status_paused, ?_⟩
  rw [hS.since, hS.status_pending]

/-- Two pending tasks, one of them in a group. -/
private def twoPending : Store :=
  execAll sampleSha256 openMemory
    [.submitDirect (.new "a") 0, .submitDirect { TaskSubmission.new "b" with groupKey := some "g" } 0]

/-- The second is paused for its group and for everybody, and everybody is resumed. -/
private def groupAndGlobal : List PauseOp :=
  [.pause 1 .preemption 1, .pauseTasksInGroup "g" 2, .pause 2 .global 3, .clear (.clearPauseBit .global) 4]

theorem groupAndGlobal_standing :
    (groupAndGlobal.foldl PauseOp.exec twoPending).tasks.map (fun r => (r.status, r.pauseReasons)) =
      [(.paused, .preemption), (.paused, .group)] ∧
    List.Forall₂ (fun r₀ r : TaskRow => r.id = r₀.id ∧ ∃ S : Finset PauseReason,
        (∀ reason, reason ∈ S ↔ Standing (PauseOp.Sets r₀ reason) (PauseOp.Clears r₀ reason) groupAndGlobal) ∧
        r.pauseReasons = .ofSet S ∧ (r.status = .pending ↔ S = ∅) ∧ (r.status = .paused ↔ S ≠ ∅) ∧
        (r.pausedAtMs = none ↔ r.status = .pending))
      twoPending.tasks (groupAndGlobal.foldl PauseOp.exec twoPending).tasks :=
  ⟨by decide +kernel, (pauseReasons_eq_standing twoPending (by decide +kernel) (by decide +kernel) groupAndGlobal).1⟩

end Taskmill
