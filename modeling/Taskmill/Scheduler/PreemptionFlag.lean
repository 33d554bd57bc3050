import Taskmill.Scheduler.Bits
import Taskmill.Transact.Calls

/-!
# The hint that a task is preempted

A preempting `submit` drains the active map, pauses the drained tasks one by one and then sets `has_paused_tasks`
(`src/scheduler/submit.rs`, `src/scheduler/dispatch.rs`).  `poll_and_dispatch` reads the flag, queries the preempted
tasks, clears the flag if there are none and otherwise resumes those without an active preemptor
(`src/scheduler/run_loop.rs`).  Any number of both run at once, each statement a step of its own.

The flag is lost if a submit pauses its tasks and sets the flag after the query found none and before the poll
clears it.
-/

namespace Taskmill

open Transact

/-- `preemption_paused_tasks` -/
def Store.preemptionPausedTasks (s : Store) : List TaskRecord :=
  (s.ordered none fun r => r.status == .paused && r.pauseReasons &&& .preemption != 0).map fun r =>
    s.populateTags (rowToTaskRecord r)

/-- The calls under way. -/
inductive PreemptionCall where
  /-- a submit that has drained tasks, and those it has not paused yet -/
  | preempting (left : List Int)
  /-- a poll that has found the flag set -/
  | polling
  /-- a poll whose query was empty -/
  | clearing
  /-- a poll with the tasks it has not looked at yet -/
  | resuming (tasks : List TaskRecord)
  /-- the first of its tasks has no preemptors -/
  | checked (task : TaskRecord) (tasks : List TaskRecord)
  /-- within `resume_preempted`: the first statement hit no row -/
  | clearingBit (id : Int) (tasks : List TaskRecord)

def PreemptionCall.isPreempting : PreemptionCall → Bool
  | .preempting _ => true
  | _ => false

structure Polling where
  store : Store
  active : ActiveTaskMap
  preemptPriority : Priority
  hasPausedTasks : Bool
  calls : List PreemptionCall

/-- The steps; those of a call under way name its place. -/
inductive PollingStep where
  /-- a step of the store besides the pauses for preemption -/
  | store (a : Action)
  | spawn (task : TaskRecord)
  | remove (id : Int)
  /-- `preempt_below` up to the drain, for a submission of this priority that changed something -/
  | preempt (priority : Priority)
  /-- one round of `cancel_pause_emit`; the map has no order -/
  | pause (i : Nat) (id now : Int)
  /-- all drained tasks are paused: the flag is set -/
  | announce (i : Nat)
  | poll
  | query (i : Nat)
  | clear (i : Nat)
  /-- `has_preemptors_for` for the next task -/
  | check (i : Nat)
  /-- the first statement of `resume_preempted` -/
  | resume (i : Nat) (now : Int)
  /-- the second statement -/
  | clearBit (i : Nat)
  | finish (i : Nat)
  /-- a crash and a new scheduler on the same database -/
  | restart (now : Int)

/-- The call at place `i` goes on. -/
def Polling.set (σ : Polling) (i : Nat) (call : PreemptionCall) : Polling := { σ with calls := σ.calls.set i call }

/-- It returns. -/
def Polling.drop (σ : Polling) (i : Nat) : Polling := { σ with calls := σ.calls.eraseIdx i }

def PollingStep.exec (sha256 : List UInt8 → String) (σ : Polling) : PollingStep → Polling
  | .store a => { σ with store := a.exec sha256 σ.store }
  | .spawn task => { σ with active := σ.active.insert task }
  | .remove id => { σ with active := σ.active.remove id }
  | .preempt priority =>
    if priority ≤ σ.preemptPriority then
      let (drained, active) := σ.active.drainWhere fun task => priority < task.priority
      if drained.isEmpty then σ
      else { σ with active := active, calls := σ.calls ++ [.preempting (drained.map (·.id))] }
    else σ
  | .pause i id now =>
    match σ.calls[i]? with
    | some (.preempting left) =>
      if left.contains id then
        { σ.set i (.preempting (left.erase id)) with store := σ.store.pause id .preemption now }
      else σ
    | _ => σ
  | .announce i =>
    match σ.calls[i]? with
    | some (.preempting []) => { σ.drop i with hasPausedTasks := true }
    | _ => σ
  | .poll => if σ.hasPausedTasks then { σ with calls := σ.calls ++ [.polling] } else σ
  | .query i =>
    match σ.calls[i]? with
    | some .polling =>
      match σ.store.preemptionPausedTasks with
      | [] => σ.set i .clearing
      | tasks => σ.set i (.resuming tasks)
    | _ => σ
  | .clear i =>
    match σ.calls[i]? with
    | some .clearing => { σ.drop i with hasPausedTasks := false }
    | _ => σ
  | .check i =>
    match σ.calls[i]? with
    | some (.resuming (task :: tasks)) =>
      if σ.active.hasPreemptorsFor task.priority σ.preemptPriority then σ.set i (.resuming tasks)
      else σ.set i (.checked task tasks)
    | _ => σ
  | .resume i now =>
    match σ.calls[i]? with
    | some (.checked task tasks) =>
      if σ.store.tasks.any fun r => r.id == task.id && r.status == .paused && r.pauseReasons == .preemption then
        { σ.set i (.resuming tasks) with store := σ.store.resumeSole (·.id == task.id) .preemption now }
      else σ.set i (.clearingBit task.id tasks)
    | _ => σ
  | .clearBit i =>
    match σ.calls[i]? with
    | some (.clearingBit id tasks) =>
      { σ.set i (.resuming tasks) with store := σ.store.clearBit (·.id == id) .preemption }
    | _ => σ
  | .finish i =>
    match σ.calls[i]? with
    | some (.resuming []) => σ.drop i
    | _ => σ
  | .restart now =>
    { σ with
      store := σ.store.recoverRunning now
      active := []
      hasPausedTasks := (σ.store.recoverRunning now).tasks.any (·.status == .paused)
      calls := [] }

structure Polling.Fresh (σ : Polling) : Prop where
  store : σ.store.Fresh
  active : σ.active = []
  hasPausedTasks : σ.hasPausedTasks = false
  calls : σ.calls = []

/-- Other steps do not pause for preemption. -/
def PollingStep.Foreign : PollingStep → Prop
  | .store a => a.SetsNone .preemption
  | _ => True

/-- Moreover, where a poll clears the flag no row has the PREEMPTION bit, unless a submit is about to set the flag;
and where the scheduler starts again, the rows with the bit are paused. -/
def PollingStep.Clean (σ : Polling) : PollingStep → Prop
  | .store a => (PollingStep.store a).Foreign
  | .clear _ =>
    (∀ r ∈ σ.store.tasks, r.pauseReasons &&& .preemption = 0) ∨ ∃ call ∈ σ.calls, call.isPreempting = true
  | .restart _ => ∀ r ∈ σ.store.tasks, r.pauseReasons &&& .preemption ≠ 0 → r.status = .paused
  | _ => True

/-- The flag is set whenever a row is paused for preemption and no call is under way. -/
def Polling.Hinted (σ : Polling) : Prop :=
  σ.calls = [] → ∀ r ∈ σ.store.tasks, r.status = .paused → r.pauseReasons &&& .preemption ≠ 0 →
    σ.hasPausedTasks = true

/-! ### Runs -/

/-- The flag is set or a submit is about to set it. -/
private def Polling.Warned (σ : Polling) : Prop :=
  σ.hasPausedTasks = true ∨ ∃ call ∈ σ.calls, call.isPreempting = true

/-- Every row with the bit has been or will be announced. -/
private structure Polling.Ok (σ : Polling) : Prop where
  schema : σ.store.Schema
  bits : σ.store.Rows (TaskRow.BitsOn .preemption fun _ => σ.Warned)

section Steps

variable {σ : Polling} {i : Nat} {old call : PreemptionCall}

private theorem ne_of_isPreempting {c : PreemptionCall} (hold : old.isPreempting = false)
    (hc : c.isPreempting = true) : c ≠ old := by
  rintro rfl
  rw [hold] at hc
  cases hc

private theorem Polling.Warned.set (h : σ.Warned) (hi : σ.calls[i]? = some old) (hold : old.isPreempting = false) :
    (σ.set i call).Warned := by
  rcases h with h | ⟨c, hc, hp⟩
  · exact .inl h
  · exact .inr ⟨c, mem_set_of_ne call hi hc (ne_of_isPreempting hold hp), hp⟩

private theorem Polling.Warned.drop (h : σ.Warned) (hi : σ.calls[i]? = some old) (hold : old.isPreempting = false) :
    (σ.drop i).Warned := by
  rcases h with h | ⟨c, hc, hp⟩
  · exact .inl h
  · exact .inr ⟨c, mem_eraseIdx_of_ne hi hc (ne_of_isPreempting hold hp), hp⟩

/-- A step that changes no row and does not lose the announcement. -/
private theorem Polling.Ok.of_warned {σ' : Polling} (h : σ.Ok) (hs : σ'.store = σ.store)
    (hw : σ.Warned → σ'.Warned) : σ'.Ok := by
  refine ⟨hs ▸ h.schema, ?_⟩
  intro r hr hbit
  rw [hs] at hr
  exact hw (h.bits r hr hbit)

private theorem ok_clear (h : σ.Ok) (hc : (PollingStep.clear i).Clean σ) (hi : σ.calls[i]? = some .clearing) :
    Polling.Ok { σ.drop i with hasPausedTasks := false } := by
  refine ⟨h.schema, fun r hr hbit => ?_⟩
  rcases hc with hnone | ⟨c, hc, hp⟩
  · exact absurd (hnone r hr) hbit
  · exact .inr ⟨c, mem_eraseIdx_of_ne hi hc (ne_of_isPreempting rfl hp), hp⟩

private theorem polling_restart (h : σ.Ok) {now : Int} (hc : (PollingStep.restart now).Clean σ)
    (sha256 : List UInt8 → String) :
    ((PollingStep.restart now).exec sha256 σ).Ok := by
  refine ⟨h.schema.steps ((Action.recoverRunning now).steps sha256 σ.store), ?_⟩
  -- a recovery leaves the paused rows paused
  have hpaused : σ.store.Rows fun r => r.pauseReasons &&& .preemption ≠ 0 → r.status = .paused := hc
  have hrows : (σ.store.recoverRunning now).Rows fun r =>
      r.pauseReasons &&& .preemption ≠ 0 → r.status = .paused := by
    refine (Action.recoverRunning now).rows_exec sha256 h.schema hpaused ⟨?_, ?_, ?_⟩
    · intro r hr hst hbit
      have hpst := hc r hr hbit
      rw [hst] at hpst
      cases hpst
    · exact fun r hr hst _ _ => hst
    · intro r hr hst _ _ hbit
      have hpst := hc r hr hbit
      rw [hst] at hpst
      cases hpst
  intro r hr hbit
  exact .inl (List.any_eq_true.2 ⟨r, hr, by rw [hrows r hr hbit]; rfl⟩)

/-- The statements of `resume_preempted` set no bit. -/
private theorem ok_resumed (h : σ.Ok) {u : RowUpdate} (hu : (Action.update u).SetsNone .preemption)
    (hi : σ.calls[i]? = some old) (hold : old.isPreempting = false) :
    Polling.Ok { σ.set i call with store := u.exec σ.store } := by
  refine ⟨h.schema.steps ((Action.update u).steps (fun _ => "") σ.store), fun r hr hbit => ?_⟩
  have hw := (Action.update u).bitsOn_exec (fun _ => "") h.schema (by decide) h.bits hu r hr hbit
  exact Polling.Warned.set hw hi hold

end Steps

private theorem polling_exec (sha256 : List UInt8 → String) {σ : Polling} (h : σ.Ok) (st : PollingStep)
    (hc : st.Clean σ) :
    (st.exec sha256 σ).Ok := by
  cases st with
  | store a =>
    exact ⟨h.schema.steps (a.steps sha256 σ.store), a.bitsOn_exec sha256 h.schema (by decide) h.bits hc⟩
  | spawn task => exact ⟨h.schema, h.bits⟩
  | remove id => exact ⟨h.schema, h.bits⟩
  | preempt priority =>
    rw [PollingStep.exec]
    split
    · dsimp only
      split
      · exact h
      · refine h.of_warned rfl fun hw => ?_
        rcases hw with hw | ⟨c, hmem, hp⟩
        · exact .inl hw
        · exact .inr ⟨c, List.mem_append_left _ hmem, hp⟩
    · exact h
  | pause i id now =>
    rw [PollingStep.exec]
    split
    · rename_i left hi
      split
      · refine ⟨h.schema.steps ((Action.update (.pause id .preemption now)).steps sha256 σ.store), fun r _ _ => ?_⟩
        exact .inr ⟨_, mem_set_self _ hi, rfl⟩
      · exact h
    · exact h
  | announce i =>
    rw [PollingStep.exec]
    split
    · exact h.of_warned rfl fun _ => .inl rfl
    · exact h
  | poll =>
    rw [PollingStep.exec]
    split
    · rename_i hflag
      exact h.of_warned rfl fun _ => .inl hflag
    · exact h
  | query i =>
    rw [PollingStep.exec]
    split
    · rename_i hi
      split
      · exact h.of_warned rfl fun hw => hw.set hi rfl
      · exact h.of_warned rfl fun hw => hw.set hi rfl
    · exact h
  | clear i =>
    rw [PollingStep.exec]
    split
    · rename_i hi
      exact ok_clear h hc hi
    · exact h
  | check i =>
    rw [PollingStep.exec]
    split
    · rename_i task tasks hi
      split
      · exact h.of_warned rfl fun hw => hw.set hi rfl
      · exact h.of_warned rfl fun hw => hw.set hi rfl
    · exact h
  | resume i now =>
    rw [PollingStep.exec]
    split
    · rename_i task tasks hi
      split
      · exact ok_resumed h (u := .resumeSole (.byId task.id) .preemption now) trivial hi rfl
      · exact h.of_warned rfl fun hw => hw.set hi rfl
    · exact h
  | clearBit i =>
    rw [PollingStep.exec]
    split
    · rename_i id tasks hi
      exact ok_resumed h (u := .clearBit (.byId id) .preemption) trivial hi rfl
    · exact h
  | finish i =>
    rw [PollingStep.exec]
    split
    · rename_i hi
      exact h.of_warned rfl fun hw => hw.drop hi rfl
    · exact h
  | restart now => exact polling_restart h hc sha256

/-- In every state of a run of clean steps the hint is there whenever it is needed. -/
theorem hint_kept (sha256 : List UInt8 → String) (σ : Polling)
    (h : Runs Polling.Fresh (fun σ (a : PollingStep) => a.exec sha256 σ) (fun σ a => a.Clean σ) σ) : σ.Hinted := by
  have hok : σ.Ok := by
    refine Runs.invariant (I := Polling.Ok) h (fun σ hfresh => ⟨hfresh.store.schema, fun r hr => ?_⟩)
        fun σ st hσ hc =>
      polling_exec sha256 hσ st hc
    rw [hfresh.store.tasks] at hr
    cases hr
  intro hidle r hr _ hbit
  rcases hok.bits r hr hbit with hflag | ⟨c, hc, _⟩
  · exact hflag
  · rw [hidle] at hc
    cases hc

/-- A running task is preempted, and the preempting submit sets the flag. -/
private def preemptedRun : List PollingStep :=
  [.store (.submitDirect (.new "a") 0), .store (.popNextBatch 1 none 0), .spawn dispatchedA, .preempt 0, .pause 0 1 0,
    .announce 0]

private def pollingState (steps : List PollingStep) : Polling :=
  steps.foldl (fun σ a => a.exec sampleSha256 σ) ⟨openMemory, [], 0, false, []⟩

private theorem pollingState_fresh : Polling.Fresh ⟨openMemory, [], 0, false, []⟩ := ⟨openMemory_fresh, rfl, rfl, rfl⟩

theorem preempted_hinted :
    (pollingState preemptedRun).store.tasks.map (·.pauseReasons) = [.preemption] ∧
      (pollingState preemptedRun).Hinted := by
  refine ⟨by decide +kernel, hint_kept sampleSha256 _ ?_⟩
  exact Runs.list (.start pollingState_fresh) preemptedRun
    ⟨trivial, trivial, trivial, trivial, trivial, trivial, trivial⟩

/-- The task is resumed and dispatched again, and a second preempting submit comes between the query of a poll and the
clearing of the flag. -/
private def lostRun : List PollingStep :=
  preemptedRun ++ ([.poll, .query 0, .check 0, .resume 0 0, .finish 0, .poll,
    .store (.popNextBatch 1 none 0), .query 0, .spawn dispatchedA, .preempt 0, .pause 1 1 0, .announce 1,
    .clear 0] : List PollingStep)

theorem lost_hint :
    ¬ ∀ σ, Runs Polling.Fresh (fun σ (a : PollingStep) => a.exec sampleSha256 σ)
    (fun _ a => a.Foreign) σ → σ.Hinted := by
  intro h
  have hrun : Runs Polling.Fresh (fun σ (a : PollingStep) => a.exec sampleSha256 σ) (fun _ a => a.Foreign)
      (pollingState lostRun) := by
    refine Runs.list (.start pollingState_fresh) lostRun ?_
    repeat' constructor
  obtain ⟨r, hr, hst, hbit⟩ : ∃ r ∈ (pollingState lostRun).store.tasks,
      r.status = .paused ∧ r.pauseReasons &&& .preemption ≠ 0 := by decide +kernel
  have hquiet : (pollingState lostRun).calls.length = 0 := by decide +kernel
  have hflag : (pollingState lostRun).hasPausedTasks = false := by decide +kernel
  have hhint := h _ hrun (List.length_eq_zero_iff.1 hquiet) r hr hst hbit
  rw [hflag] at hhint
  cases hhint

end Taskmill
