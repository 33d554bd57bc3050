import Taskmill.Scheduler.Memory

/-!
# Pausing and resuming groups

`pause_group` and `resume_group` (`src/scheduler/control.rs`) statement by statement, with any other steps of the
store and of the scheduler in between.  That a group is paused is recorded three times: in the table
`paused_groups`, in the set of the same name in memory, and as the GROUP bit of the rows of the group.
-/

namespace Taskmill

/-- The calls under way, with what they have done so far. -/
inductive GroupCall where
  /-- `pause_group`: the group is in the table -/
  | persisted (g : String)
  /-- and in memory -/
  | recorded (g : String)
  /-- the paused rows of the group have the GROUP bit -/
  | marked (g : String)
  /-- and the pending ones are paused -/
  | swept (g : String)
  /-- the executions of the group are cancelled; the rows of these are not paused yet -/
  | draining (g : String) (left : List Int)
  /-- `resume_group`: the group was found in memory -/
  | resuming (g : String)
  /-- the rows that were paused with their group only are pending -/
  | resumed (g : String)
  /-- and the other rows have lost the GROUP bit -/
  | cleared (g : String)
  /-- the group is no longer in the table -/
  | deleted (g : String)

/-- The group that the call is about. -/
def GroupCall.group : GroupCall → String
  | .persisted g | .recorded g | .marked g | .swept g | .draining g _ => g
  | .resuming g | .resumed g | .cleared g | .deleted g => g

def GroupCall.isPause : GroupCall → Bool
  | .persisted _ | .recorded _ | .marked _ | .swept _ | .draining _ _ => true
  | _ => false

structure Groups where
  store : Store
  active : ActiveTaskMap
  pausedGroups : List String
  calls : List GroupCall
  /-- the groups for which a `pause_group` has returned and no `resume_group` has started since -/
  held : List String

/-- The steps; those of a call under way name its place. -/
inductive GroupStep where
  /-- a step of the store besides those of the calls -/
  | store (a : Action)
  | spawn (task : TaskRecord)
  | remove (id : Int)
  | pauseGroup (g : String) (resumeAt : Option Int) (now : Int)
  | record (i : Nat)
  | mark (i : Nat)
  | sweep (i : Nat) (now : Int)
  | drain (i : Nat)
  /-- one round of `cancel_pause_emit`; the map has no order -/
  | pauseRow (i : Nat) (id now : Int)
  | returnPaused (i : Nat)
  | resumeGroup (g : String)
  | resumeRows (i : Nat) (now : Int)
  | clearRows (i : Nat)
  | deleteState (i : Nat)
  | forget (i : Nat)
  /-- a crash and a new scheduler on the same database -/
  | restart (now : Int)

/-- The call at place `i` goes on. -/
def Groups.set (σ : Groups) (i : Nat) (call : GroupCall) : Groups := { σ with calls := σ.calls.set i call }

/-- It returns. -/
def Groups.drop (σ : Groups) (i : Nat) : Groups := { σ with calls := σ.calls.eraseIdx i }

def Groups.push (σ : Groups) (call : GroupCall) : Groups := { σ with calls := σ.calls ++ [call] }

def GroupStep.exec (sha256 : List UInt8 → String) (σ : Groups) : GroupStep → Groups
  | .store a => { σ with store := a.exec sha256 σ.store }
  | .spawn task => { σ with active := σ.active.insert task }
  | .remove id => { σ with active := σ.active.remove id }
  | .pauseGroup g resumeAt now =>
    -- a group that is in the table is left alone
    if σ.store.groupPaused (some g) then { σ with held := g :: σ.held }
    else { σ.push (.persisted g) with store := σ.store.pauseGroupState g resumeAt now }
  | .record i =>
    match σ.calls[i]? with
    | some (.persisted g) => { σ.set i (.recorded g) with pausedGroups := g :: σ.pausedGroups }
    | _ => σ
  | .mark i =>
    match σ.calls[i]? with
    | some (.recorded g) => { σ.set i (.marked g) with store := σ.store.addGroupBit g }
    | _ => σ
  | .sweep i now =>
    match σ.calls[i]? with
    | some (.marked g) => { σ.set i (.swept g) with store := σ.store.pausePendingInGroup g now }
    | _ => σ
  | .drain i =>
    match σ.calls[i]? with
    | some (.swept g) =>
      let (drained, active) := σ.active.drainWhere fun task => task.groupKey == some g
      { σ.set i (.draining g (drained.map (·.id))) with active := active }
    | _ => σ
  | .pauseRow i id now =>
    match σ.calls[i]? with
    | some (.draining g left) =>
      if left.contains id then { σ.set i (.draining g (left.erase id)) with store := σ.store.pause id .group now }
      else σ
    | _ => σ
  | .returnPaused i =>
    match σ.calls[i]? with
    | some (.draining g []) => { σ.drop i with held := g :: σ.held }
    | _ => σ
  | .resumeGroup g =>
    let σ' := { σ with held := σ.held.filter (· != g) }
    if σ.pausedGroups.contains g then σ'.push (.resuming g) else σ'
  | .resumeRows i now =>
    match σ.calls[i]? with
    | some (.resuming g) =>
      { σ.set i (.resumed g) with store := σ.store.resumeSole (fun r => r.groupKey == some g) .group now }
    | _ => σ
  | .clearRows i =>
    match σ.calls[i]? with
    | some (.resumed g) =>
      { σ.set i (.cleared g) with store := σ.store.clearBit (fun r => r.groupKey == some g) .group }
    | _ => σ
  | .deleteState i =>
    match σ.calls[i]? with
    | some (.cleared g) => { σ.set i (.deleted g) with store := σ.store.resumeGroupState g }
    | _ => σ
  | .forget i =>
    match σ.calls[i]? with
    | some (.deleted g) => { σ.drop i with pausedGroups := σ.pausedGroups.filter (· != g) }
    | _ => σ
  | .restart now =>
    { σ with
      store := σ.store.recoverRunning now
      active := []
      pausedGroups := σ.store.pausedGroups.map (·.1)
      calls := [] }

structure Groups.Fresh (σ : Groups) : Prop where
  store : σ.store.Fresh
  active : σ.active = []
  pausedGroups : σ.pausedGroups = []
  calls : σ.calls = []
  held : σ.held = []

/-- The state after some steps from a new database. -/
def groupsState (steps : List GroupStep) : Groups :=
  steps.foldl (fun σ a => a.exec sampleSha256 σ) ⟨openMemory, [], [], [], []⟩

theorem groupsState_fresh : Groups.Fresh ⟨openMemory, [], [], [], []⟩ := ⟨openMemory_fresh, rfl, rfl, rfl, rfl⟩

/-- The statements that only the calls and the recovery make. -/
def Action.ofGroups : Action → Bool
  | .pauseGroupState .. | .resumeGroupState .. | .recoverRunning .. => true
  | .update (.addGroupBit _) | .update (.pausePendingInGroup ..) => true
  | .update (.resumeSole (.group _) ..) | .update (.clearBit (.group _) _) => true
  | .update (.pause _ reason _) => reason &&& .group != 0
  | _ => false

/-- Other steps leave these statements to the calls. -/
def GroupStep.Foreign : GroupStep → Prop
  | .store a => a.ofGroups = false
  | _ => True

/-! ### The groups in the table -/

theorem Store.groupPaused_iff {s : Store} {g : String} : s.groupPaused (some g) = true ↔
    ∃ e ∈ s.pausedGroups, e.1 = g := by
  simp [Store.groupPaused]

theorem Store.groupPaused_congr {s s' : Store} (h : s'.pausedGroups = s.pausedGroups) (group : Option String) :
    s'.groupPaused group = s.groupPaused group := by
  unfold Store.groupPaused
  rw [h]

theorem Store.groupPaused_pauseGroupState (s : Store) (g g' : String) (resumeAt : Option Int) (now : Int) :
    (s.pauseGroupState g resumeAt now).groupPaused (some g') = (s.groupPaused (some g') || g == g') := by
  rw [Store.pauseGroupState]
  split
  · rename_i hin
    by_cases hg : g = g'
    · have hpaused : s.groupPaused (some g') = true := by
        rw [← hg]
        exact hin
      simp [hpaused]
    · simp [hg]
  · simp [Store.groupPaused]

theorem Store.groupPaused_resumeGroupState (s : Store) (g g' : String) :
    (s.resumeGroupState g).groupPaused (some g') = (s.groupPaused (some g') && !(g == g')) := by
  rw [Bool.eq_iff_iff]
  simp only [Store.resumeGroupState, Store.groupPaused, List.any_eq_true, List.mem_filter, beq_iff_eq,
    Bool.and_eq_true, Bool.not_eq_true', beq_eq_false_iff_ne, ne_eq]
  constructor
  · rintro ⟨e, ⟨he, hne⟩, rfl⟩
    exact ⟨⟨e, he, rfl⟩, fun h => hne h.symm⟩
  · rintro ⟨⟨e, he, rfl⟩, hne⟩
    exact ⟨e, ⟨he, fun h => hne h.symm⟩, rfl⟩

/-- A group leaves the table by `resume_group_state` only. -/
theorem Action.groupPaused_exec (sha256 : List UInt8 → String) {s : Store} {a : Action} {g : String}
    (h : s.groupPaused (some g) = true) (ha : a ≠ .resumeGroupState g) :
    (a.exec sha256 s).groupPaused (some g) = true := by
  by_cases hset : a.setsGroups = true
  · cases a with
    | pauseGroupState group resumeAt now =>
      rw [Action.exec, Store.groupPaused_pauseGroupState, h]
      rfl
    | resumeGroupState group =>
      have hne : group ≠ g := fun heq => ha (by rw [heq])
      rw [Action.exec, Store.groupPaused_resumeGroupState, h]
      simp [hne]
    | _ => cases hset
  · rw [Store.groupPaused_congr (a.pausedGroups_exec sha256 s (Bool.not_eq_true _ ▸ hset))]
    exact h

end Taskmill
