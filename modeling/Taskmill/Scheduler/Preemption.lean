import Taskmill.Scheduler.Claims
import Taskmill.Scheduler.PreemptionFlag

/-!
# Preempted tasks and their preemptors

A task that a submit has preempted is not to be started again while a preemptor of it is in the active map.  A poll
makes the task pending when the map has no preemptor (`src/scheduler/run_loop.rs`), but the preemptor is in the map
only from its own dispatch on: a poll that runs before that, or other steps that make the task pending, let both be
dispatched together.
-/

namespace Taskmill

open Transact

structure Preemption where
  polling : Polling
  /-- the claimed tasks that are not started yet -/
  claimed : List Execution
  /-- the parents that are about to be finalized -/
  finalizing : List Int
  /-- the lives that a submit has preempted and that were not started since -/
  preempted : List Nat

inductive PreemptionStep where
  /-- a step of a submit or of a poll, or of another caller -/
  | other (st : PollingStep)
  | claim (c : Claim)
  /-- `set_running_for_finalize` for a parent that was popped -/
  | finalize (id now : Int)
  /-- the record of the parent is read -/
  | fetch (i : Nat)
  /-- `spawn_task` for an execution that was claimed or fetched -/
  | spawn (i : Nat)
  /-- there is no executor for it, or a database error ends the call -/
  | discard (i : Nat)
  /-- a crash and a new scheduler on the same database -/
  | restart (now : Int)

/-- The lives of the rows that the step pauses for preemption. -/
def PollingStep.preempts (σ : Polling) : PollingStep → List Nat
  | .pause i id _ =>
    match σ.calls[i]? with
    | some (.preempting left) => if left.contains id then (σ.store.tasks.filter (·.id == id)).map (·.inst) else []
    | _ => []
  | _ => []

def PreemptionStep.exec (sha256 : List UInt8 → String) (σ : Preemption) : PreemptionStep → Preemption
  | .other st =>
    { σ with polling := st.exec sha256 σ.polling, preempted := σ.preempted ++ st.preempts σ.polling }
  | .claim c =>
    { σ with
      polling := { σ.polling with store := c.action.exec sha256 σ.polling.store }
      claimed := σ.claimed ++ c.execs σ.polling.store }
  | .finalize id now =>
    { σ with
      polling := { σ.polling with store := σ.polling.store.setRunningForFinalize id now }
      finalizing := σ.finalizing ++ [id] }
  | .fetch i =>
    match σ.finalizing[i]? with
    | some id =>
      { σ with
        finalizing := σ.finalizing.eraseIdx i
        claimed := σ.claimed ++ (σ.polling.store.taskById id).toList.map fun r => .ofRecord (rowToTaskRecord r) }
    | none => σ
  | .spawn i =>
    match σ.claimed[i]? with
    | some e =>
      { σ with
        polling := (PollingStep.spawn e.task).exec sha256 σ.polling
        claimed := σ.claimed.eraseIdx i
        preempted := σ.preempted.filter (· != e.life) }
    | none => σ
  | .discard i => { σ with claimed := σ.claimed.eraseIdx i }
  | .restart now =>
    { σ with polling := (PollingStep.restart now).exec sha256 σ.polling, claimed := [], finalizing := [] }

structure Preemption.Fresh (σ : Preemption) : Prop where
  polling : σ.polling.Fresh
  claimed : σ.claimed = []
  preempted : σ.preempted = []

/-- No active task would preempt work of this priority. -/
def Preemption.Free (σ : Preemption) (priority : Priority) : Prop :=
  σ.polling.active.hasPreemptorsFor priority σ.polling.preemptPriority = false

/-- What a dispatcher may start is not a preempted task with an active preemptor. -/
def Preemption.Settled (σ : Preemption) : Prop :=
  ∀ e ∈ σ.claimed, e.life ∈ σ.preempted → σ.Free e.task.priority

/-! ### The steps that bring no preempted task back too early -/

/-- The step makes no row with a life in `lives` pending, unless the priority of the row is free. -/
def Action.RevivesNone (lives : List Nat) (Free : Priority → Prop) (s : Store) : Action → Prop
  | .update u => u.wakes = true → ∀ r ∈ s.tasks, u.selects r = true → r.inst ∈ lives → Free r.priority
  | .fail id _ retryable maxRetries _ _ _ =>
    ∀ r, s.taskById id = some r → (rowToTaskRecord r).willRetry retryable maxRetries = true → r.inst ∈ lives →
      Free r.priority
  | .failWithRecord task _ retryable maxRetries _ _ _ =>
    task.willRetry retryable maxRetries = true → ∀ r ∈ s.tasks, r.id = task.id → r.inst ∈ lives → Free r.priority
  | _ => True

/-- The other callers do not dispatch. -/
def PreemptionStep.Foreign : PreemptionStep → Prop
  | .other (.store a) => a.ofDispatch = false
  | .other (.spawn _) => False
  | .other (.restart _) => False
  | _ => True

/-- A preempted task becomes pending only when no preemptor of it is active: other callers do not make it pending
before, and a poll finds its check still true when it resumes the task.  A task at or above the threshold is started
only when no preempted task of lower priority is pending or claimed.  A row that a submit pauses is in no
dispatcher's hands, a candidate is still what its row is when it is claimed, and no preempted parent is finalized
beside a preemptor. -/
def PreemptionStep.Clean (σ : Preemption) : PreemptionStep → Prop
  | .other (.store a) =>
    (PreemptionStep.other (.store a)).Foreign ∧ a.RevivesNone σ.preempted σ.Free σ.polling.store
  | .other (.spawn task) => (PreemptionStep.other (.spawn task)).Foreign
  | .other (.restart now) => (PreemptionStep.other (.restart now)).Foreign
  | .other (.pause _ id _) => ∀ e ∈ σ.claimed, ∀ r ∈ σ.polling.store.tasks, r.id = id → e.life ≠ r.inst
  | .other (.resume i _) =>
    ∀ task tasks, σ.polling.calls[i]? = some (.checked task tasks) → ∀ r ∈ σ.polling.store.tasks, r.id = task.id →
      r.inst ∈ σ.preempted → σ.Free r.priority
  | .claim c => c.Current σ.polling.store
  | .fetch i =>
    ∀ id, σ.finalizing[i]? = some id → ∀ r, σ.polling.store.taskById id = some r → r.inst ∈ σ.preempted →
      σ.Free r.priority
  | .spawn i =>
    ∀ e, σ.claimed[i]? = some e → e.task.priority ≤ σ.polling.preemptPriority →
      (∀ r ∈ σ.polling.store.tasks, r.inst ∈ σ.preempted → r.inst ≠ e.life → r.status = .pending →
        r.priority ≤ e.task.priority) ∧
      ∀ e' ∈ σ.claimed, e'.life ∈ σ.preempted → e'.life ≠ e.life → e'.task.priority ≤ e.task.priority
  | _ => True

/-! ### What a step of the store does to a preempted row -/

/-- A row with a life in `lives` is not blocked, and if it is pending its priority is free. -/
structure TaskRow.RestsIn (Free : Priority → Prop) (r : TaskRow) : Prop where
  blocked : r.status ≠ .blocked
  pending : r.status = .pending → Free r.priority

def TaskRow.Rests (lives : List Nat) (Free : Priority → Prop) (r : TaskRow) : Prop := r.inst ∈ lives → r.RestsIn Free

section Rows

variable {lives : List Nat} {Free : Priority → Prop} {r r' : TaskRow} {s : Store}

theorem TaskRow.Rests.of_idle (hb : r.status ≠ .blocked) (hp : r.status ≠ .pending) : r.Rests lives Free :=
  fun _ => ⟨hb, fun h => absurd h hp⟩

theorem TaskRow.Rests.of_pending (hst : r.status = .pending) (hfree : r.inst ∈ lives → Free r.priority) :
    r.Rests lives Free := by
  refine fun hin => ⟨?_, fun _ => hfree hin⟩
  rw [hst]
  nofun

/-- A new life is not among those given out before. -/
theorem TaskRow.Rests.of_new (hlives : ∀ x ∈ lives, x < s.nextInst) (hinst : s.nextInst ≤ r.inst) :
    r.Rests lives Free :=
  fun hin => absurd (hlives _ hin) (by omega)

theorem TaskRow.Rests.of_same (h : r.Rests lives Free) (hinst : r'.inst = r.inst) (hst : r'.status = r.status)
    (hprio : r'.priority = r.priority) : r'.Rests lives Free := by
  intro hin
  rw [hinst] at hin
  refine ⟨?_, ?_⟩
  · rw [hst]
    exact (h hin).blocked
  · rw [hst, hprio]
    exact (h hin).pending

private theorem rests_update {u : RowUpdate} (hc : u.wakes = true → r.inst ∈ lives → Free r.priority)
    (h : r.Rests lives Free) : (u.change r).Rests lives Free := by
  cases u with
  | requeue id => exact .of_pending rfl (hc rfl)
  | requeueForRetry id error delay now => exact .of_pending rfl (hc rfl)
  | resume id now => exact .of_pending rfl (hc rfl)
  | resumeSole sel reason now => exact .of_pending rfl (hc rfl)
  | pause id reason now => exact .of_idle nofun nofun
  | pausePendingInGroup group now => exact .of_idle nofun nofun
  | pausePendingByTypePrefix like now => exact .of_idle nofun nofun
  | setWaiting id memo => exact .of_idle nofun nofun
  | setRunningForFinalize id now => exact .of_idle nofun nofun
  | clearBit sel reason => exact h.of_same rfl rfl rfl
  | addGroupBit group => exact h.of_same rfl rfl rfl
  | setRunAfter id runAfter => exact h.of_same rfl rfl rfl
  | incrementRetry id error => exact h.of_same rfl rfl rfl
  | setRecurringPaused id paused => exact h.of_same rfl rfl rfl

private theorem rests_submission {sha256 : List UInt8 → String} {sub : TaskSubmission} {now : Int}
    (hlives : ∀ x ∈ lives, x < s.nextInst) (hmono : ∀ p q : Priority, p < q → Free q → Free p)
    (hs : s.Rows (TaskRow.Rests lives Free)) : sub.KeepsRows sha256 (TaskRow.Rests lives Free) now s where
  pending _ _ := .of_new hlives (Nat.le_refl _)
  paused _ _ := .of_new hlives (Nat.le_refl _)
  blocked := .of_new hlives (Nat.le_refl _)
  upgraded r hr _ _ hlt := by
    -- the priority only gets higher
    refine fun hin => ⟨(hs r hr hin).blocked, fun hst => ?_⟩
    exact hmono _ _ hlt ((hs r hr hin).pending hst)
  requeued r hr _ _ := (hs r hr).of_same rfl rfl rfl
  superseded _ _ _ _ _ := .of_new hlives (Nat.le_refl _)
  replaced _ _ _ _ _ := .of_new hlives (Nat.le_refl _)

private theorem rests_completion (hlives : ∀ x ∈ lives, x < s.nextInst) (tasks : List TaskRecord) (now : Int) :
    CompletionKeepsRows (TaskRow.Rests lives Free) tasks now s where
  reset _ _ _ _ inst hinst := .of_new hlives hinst
  next _ _ _ _ id inst hinst := by
    split
    · exact .of_new hlives hinst
    · exact .of_new hlives hinst

private theorem rests_freeing (now : Int) (s : Store) : FreeingKeepsRows (TaskRow.Rests lives Free) now s := by
  intro r hr hst
  have hinst : (s.freeRow now r).inst = r.inst := by
    rw [Store.freeRow]
    split
    · rfl
    · rfl
  intro hin
  rw [hinst] at hin
  exact absurd hst (hr hin).blocked

/-- A clean step of another caller leaves the preempted rows at rest. -/
theorem Action.rests_exec (sha256 : List UInt8 → String) (hschema : s.Schema) (hlives : ∀ x ∈ lives, x < s.nextInst)
    (hmono : ∀ p q : Priority, p < q → Free q → Free p) (hs : s.Rows (TaskRow.Rests lives Free)) (a : Action)
    (hforeign : a.ofDispatch = false) (hc : a.RevivesNone lives Free s) :
    (a.exec sha256 s).Rows (TaskRow.Rests lives Free) := by
  have hwithin : ∀ σ, s.Within (TaskRow.Rests lives Free) σ → ∀ x ∈ lives, x < σ.nextInst := fun σ hσ x hx =>
    lt_of_lt_of_le (hlives x hx) hσ.next
  refine a.rows_exec sha256 hschema hs ?_
  cases a with
  | update u => exact fun r hr hsel => rests_update (fun hwakes => hc hwakes r hr hsel) (hs r hr)
  | submitDirect sub now => exact rests_submission hlives hmono hs
  | processSubmitBatch skipRequeue batch =>
    refine Along.of_forall fun σ m hσ => ⟨rests_submission (hwithin σ hσ) hmono hσ.rows, fun _ => ?_⟩
    exact .of_new (hwithin σ hσ) (Nat.le_refl _)
  | submitChunk skipRequeue last now chunk =>
    exact Along.of_forall fun σ item hσ _ => rests_submission (hwithin σ hσ) hmono hσ.rows
  | complete id metrics now => exact fun row _ => rests_completion hlives _ now
  | completeWithRecord task metrics now => exact rests_completion hlives _ now
  | completeBatch items now => exact ⟨rests_completion hlives _ now, rests_freeing now s⟩
  | resolveDependents id now => exact rests_freeing now s
  | failDependents id now => exact rests_freeing now s
  | fail id error retryable maxRetries metrics backoff now =>
    exact fun r hrow hretry => .of_pending rfl (hc r hrow hretry)
  | failWithRecord task error retryable maxRetries metrics backoff now =>
    exact fun hretry r hr hid => .of_pending rfl (hc hretry r hr hid)
  | claimTask id now => cases hforeign
  | popById id now => cases hforeign
  | popNextBatch limit aging now => cases hforeign
  | recoverRunning now => cases hforeign
  | failBatch items now => trivial
  | cancelToHistory id now => trivial
  | cancelToHistoryWithRecord task now => trivial
  | cancelChildren parent read now => trivial
  | expireTasks now => trivial
  | expireSingle id now => trivial
  | pauseGroupState group resumeAt now => trivial
  | resumeGroupState group => trivial
  | delete id => trivial
  | deleteHistory historyId => trivial
  | pruneHistoryByAge days now => trivial
  | pruneHistoryByCount keep => trivial
  | maybePrune now => trivial

theorem Claim.rests_exec (sha256 : List UInt8 → String) (hschema : s.Schema) (hs : s.Rows (TaskRow.Rests lives Free))
    (c : Claim) : (c.action.exec sha256 s).Rows (TaskRow.Rests lives Free) := by
  refine c.action.rows_exec sha256 hschema hs ?_
  cases c with
  | pop limit aging now => exact fun r hr _ => .of_idle nofun nofun
  | popById id now => exact fun r hr _ _ => .of_idle nofun nofun
  | candidate task now readings => exact fun r hr _ _ => .of_idle nofun nofun

end Rows

/-! ### Runs -/

private structure Preemption.Ok (σ : Preemption) : Prop where
  schema : σ.polling.store.Schema
  lives : ∀ x ∈ σ.preempted, x < σ.polling.store.nextInst
  rows : σ.polling.store.Rows (TaskRow.Rests σ.preempted σ.Free)
  hands : σ.Settled

section Steps

variable {σ σ' : Preemption} {sha256 : List UInt8 → String}

theorem TaskRow.Rests.mono {lives lives' : List Nat} {Free Free' : Priority → Prop} {r : TaskRow}
    (h : r.Rests lives Free) (hlives : ∀ x ∈ lives', x ∈ lives) (hfree : ∀ p, Free p → Free' p) :
    r.Rests lives' Free' :=
  fun hin => ⟨(h (hlives _ hin)).blocked, fun hst => hfree _ ((h (hlives _ hin)).pending hst)⟩

/-- A step that preempts and claims nothing, and after which what was free is free. -/
private theorem Preemption.Ok.of_rows (h : σ.Ok) (hsteps : ∃ b, Steps b σ.polling.store σ'.polling.store)
    (hlives : ∀ x ∈ σ'.preempted, x ∈ σ.preempted) (hclaimed : ∀ e ∈ σ'.claimed, e ∈ σ.claimed)
    (hfree : ∀ p, σ.Free p → σ'.Free p)
    (hrows : σ'.polling.store.Rows (TaskRow.Rests σ.preempted σ.Free)) : σ'.Ok := by
  obtain ⟨b, hsteps⟩ := hsteps
  refine ⟨h.schema.steps hsteps, fun x hx => ?_, fun r hr => (hrows r hr).mono hlives hfree, fun e he hlife => ?_⟩
  · exact lt_of_lt_of_le (h.lives x (hlives x hx)) hsteps.nextInst_le
  · exact hfree _ (h.hands e (hclaimed e he) (hlives _ hlife))

/-- A step of a submit or a poll that changes no row and starts nothing. -/
private theorem Preemption.Ok.of_memory (h : σ.Ok) (hstore : σ'.polling.store = σ.polling.store)
    (hactive : ∀ task ∈ σ'.polling.active, task ∈ σ.polling.active)
    (hthreshold : σ'.polling.preemptPriority = σ.polling.preemptPriority)
    (hlives : ∀ x ∈ σ'.preempted, x ∈ σ.preempted) (hclaimed : ∀ e ∈ σ'.claimed, e ∈ σ.claimed) : σ'.Ok := by
  refine h.of_rows ⟨true, hstore ▸ .refl⟩ hlives hclaimed (fun p hp => ?_) (hstore ▸ h.rows)
  rw [Preemption.Free, hthreshold]
  exact ActiveTaskMap.hasPreemptorsFor_of_subset hactive hp

/-- An `UPDATE` that brings back no preempted row too early. -/
private theorem Preemption.Ok.of_update (h : σ.Ok) {u : RowUpdate}
    (hstore : σ'.polling.store = u.exec σ.polling.store) (hactive : σ'.polling.active = σ.polling.active)
    (hthreshold : σ'.polling.preemptPriority = σ.polling.preemptPriority)
    (hlives : ∀ x ∈ σ'.preempted, x ∈ σ.preempted) (hclaimed : ∀ e ∈ σ'.claimed, e ∈ σ.claimed)
    (hu : u.wakes = true → ∀ r ∈ σ.polling.store.tasks, u.selects r = true → r.inst ∈ σ.preempted →
      σ.Free r.priority) :
    σ'.Ok := by
  have hsteps := (Action.update u).steps (fun _ => "") σ.polling.store
  rw [Action.exec, ← hstore] at hsteps
  refine h.of_rows ⟨_, hsteps⟩ hlives hclaimed (fun p hp => ?_) ?_
  · rw [Preemption.Free, hactive, hthreshold]
    exact hp
  · rw [hstore]
    refine (Action.update u).rows_exec (fun _ => "") h.schema h.rows fun r hr hsel => ?_
    exact rests_update (fun hwakes => hu hwakes r hr hsel) (h.rows r hr)

/-- A round of `cancel_pause_emit` pauses the row of a drained task, or there is none left. -/
private theorem pause_cases (sha256 : List UInt8 → String) (σ : Polling) (i : Nat) (id now : Int) :
    ((PollingStep.pause i id now).exec sha256 σ = σ ∧ (PollingStep.pause i id now).preempts σ = []) ∨
      ∃ call, (PollingStep.pause i id now).exec sha256 σ =
        { σ.set i call with store := σ.store.pause id .preemption now } ∧
        (PollingStep.pause i id now).preempts σ = (σ.store.tasks.filter (·.id == id)).map (·.inst) := by
  rw [PollingStep.exec, PollingStep.preempts]
  rcases hi : σ.calls[i]? with _ | call
  · exact .inl ⟨rfl, rfl⟩
  · cases call with
    | preempting left =>
      dsimp only
      by_cases hin : left.contains id = true
      · rw [if_pos hin, if_pos hin]
        exact .inr ⟨_, rfl, rfl⟩
      · rw [if_neg hin, if_neg hin]
        exact .inl ⟨rfl, rfl⟩
    | _ => exact .inl ⟨rfl, rfl⟩

/-- A submit pauses the row of a task that it has drained. -/
private theorem ok_pause {i : Nat} {id now : Int} (h : σ.Ok) (hc : (PreemptionStep.other (.pause i id now)).Clean σ) :
    ((PreemptionStep.other (.pause i id now)).exec sha256 σ).Ok := by
  rw [PreemptionStep.exec]
  rcases pause_cases sha256 σ.polling i id now with ⟨hexec, hnone⟩ | ⟨call, hexec, hlives⟩
  · rw [hexec, hnone, List.append_nil]
    exact h
  · rw [hexec, hlives]
    let u : RowUpdate := .pause id .preemption now
    -- the row is paused now, and no other row has its life
    have hnew : ∀ r' ∈ (u.exec σ.polling.store).tasks,
        r'.inst ∈ (σ.polling.store.tasks.filter (·.id == id)).map (·.inst) → r'.status = .paused := by
      intro r' hr' hin
      obtain ⟨r, hr, rfl⟩ := List.mem_map.1 hr'
      split
      · rfl
      · rename_i hid
        rw [if_neg hid] at hin
        obtain ⟨r₂, hr₂, hinst⟩ := List.mem_map.1 hin
        obtain ⟨hr₂, hid₂⟩ := List.mem_filter.1 hr₂
        rw [List.inj_on_of_nodup_map h.schema.insts hr₂ hr hinst] at hid₂
        exact absurd hid₂ hid
    have hrows : (u.exec σ.polling.store).Rows (TaskRow.Rests σ.preempted σ.Free) :=
      (Action.update u).rows_exec (fun _ => "") h.schema h.rows fun r hr _ => rests_update nofun (h.rows r hr)
    have hsteps := (Action.update u).steps (fun _ => "") σ.polling.store
    refine ⟨h.schema.steps hsteps, fun x hx => ?_, fun r hr hin => ?_, fun e he hlife => ?_⟩
    · rcases List.mem_append.1 hx with hx | hx
      · exact lt_of_lt_of_le (h.lives x hx) hsteps.nextInst_le
      · obtain ⟨r, hr, rfl⟩ := List.mem_map.1 hx
        exact lt_of_lt_of_le (h.schema.inst_lt r (List.mem_of_mem_filter hr)) hsteps.nextInst_le
    · rcases List.mem_append.1 hin with hin | hin
      · exact hrows r hr hin
      · have hst := hnew r hr hin
        exact ⟨by rw [hst]; nofun, fun hp => by rw [hst] at hp; cases hp⟩
    · rcases List.mem_append.1 hlife with hlife | hlife
      · exact h.hands e he hlife
      · obtain ⟨r, hr, hinst⟩ := List.mem_map.1 hlife
        obtain ⟨hr, hid⟩ := List.mem_filter.1 hr
        exact absurd hinst.symm (hc e he r hr (beq_iff_eq.1 hid))

/-- A step of a submit or a poll that preempts nothing. -/
private theorem ok_other {st : PollingStep} (hnone : st.preempts σ.polling = [])
    (h : Preemption.Ok { σ with polling := st.exec sha256 σ.polling }) :
    ((PreemptionStep.other st).exec sha256 σ).Ok := by
  rw [PreemptionStep.exec, hnone, List.append_nil]
  exact h

private theorem preemption_store {a : Action} (h : σ.Ok) (hforeign : a.ofDispatch = false)
    (hc : a.RevivesNone σ.preempted σ.Free σ.polling.store) :
    ((PreemptionStep.other (.store a)).exec sha256 σ).Ok := by
  refine ok_other rfl (h.of_rows ⟨_, a.steps sha256 σ.polling.store⟩ (fun _ hx => hx) (fun _ he => he)
    (fun _ hp => hp) ?_)
  exact a.rests_exec sha256 h.schema h.lives (fun _ _ hlt => ActiveTaskMap.hasPreemptorsFor_of_lt hlt)
    h.rows hforeign hc

private theorem ok_preempt {priority : Priority} (h : σ.Ok) :
    ((PreemptionStep.other (.preempt priority)).exec sha256 σ).Ok := by
  refine ok_other rfl ?_
  rw [PollingStep.exec]
  split
  · dsimp only
    split
    · exact h
    · exact h.of_memory rfl (fun _ htask => List.mem_of_mem_filter htask) rfl (fun _ hx => hx) fun _ he => he
  · exact h

private theorem ok_resume {i : Nat} {now : Int} (h : σ.Ok) (hc : (PreemptionStep.other (.resume i now)).Clean σ) :
    ((PreemptionStep.other (.resume i now)).exec sha256 σ).Ok := by
  refine ok_other rfl ?_
  rw [PollingStep.exec]
  split
  · rename_i task tasks hi
    split
    · refine h.of_update (u := .resumeSole (.byId task.id) .preemption now) rfl rfl rfl (fun _ hx => hx)
        (fun _ he => he) ?_
      intro _ r hr hsel
      simp only [RowUpdate.selects, Selection.selects, Bool.and_eq_true, beq_iff_eq] at hsel
      exact hc task tasks hi r hr hsel.1.1
    · exact h.of_memory rfl (fun _ htask => htask) rfl (fun _ hx => hx) fun _ he => he
  · exact h

private theorem preemption_claim {c : Claim} (h : σ.Ok) (hc : c.Current σ.polling.store) :
    ((PreemptionStep.claim c).exec sha256 σ).Ok := by
  have hsteps := c.action.steps sha256 σ.polling.store
  refine ⟨h.schema.steps hsteps, fun x hx => lt_of_lt_of_le (h.lives x hx) hsteps.nextInst_le,
    c.rests_exec sha256 h.schema h.rows, fun e he hlife => ?_⟩
  rcases List.mem_append.1 he with he | he
  · exact h.hands e he hlife
  · -- the row was pending
    obtain ⟨r, hr, hst, hfrom⟩ := c.execs_from h.schema hc he
    rw [hfrom.life] at hlife
    rw [hfrom.priority]
    exact (h.rows r hr hlife).pending hst

private theorem ok_fetch {i : Nat} (h : σ.Ok) (hc : (PreemptionStep.fetch i).Clean σ) :
    ((PreemptionStep.fetch i).exec sha256 σ).Ok := by
  rw [PreemptionStep.exec]
  split
  · rename_i id hi
    refine ⟨h.schema, h.lives, h.rows, fun e he hlife => ?_⟩
    rcases List.mem_append.1 he with he | he
    · exact h.hands e he hlife
    · obtain ⟨r, hr, rfl⟩ := List.mem_map.1 he
      exact hc id hi r (Option.mem_toList.1 hr) hlife
  · exact h

private theorem preemption_spawn {i : Nat} (h : σ.Ok) (hc : (PreemptionStep.spawn i).Clean σ) :
    ((PreemptionStep.spawn i).exec sha256 σ).Ok := by
  rw [PreemptionStep.exec]
  split
  · rename_i e hi
    -- what is started is no preemptor of another preempted task
    have hfree : ∀ p, σ.Free p → (e.task.priority ≤ σ.polling.preemptPriority → p ≤ e.task.priority) →
        (σ.polling.active.insert e.task).hasPreemptorsFor p σ.polling.preemptPriority = false := fun p hp hle =>
      ActiveTaskMap.hasPreemptorsFor_insert hp hle
    have hlives : ∀ x ∈ σ.preempted.filter (· != e.life), x ∈ σ.preempted ∧ x ≠ e.life := by
      intro x hx
      obtain ⟨hx, hne⟩ := List.mem_filter.1 hx
      exact ⟨hx, bne_iff_ne.1 hne⟩
    refine ⟨h.schema, fun x hx => h.lives x (hlives x hx).1, fun r hr hin => ?_, fun e' he' hlife => ?_⟩
    · obtain ⟨hin, hne⟩ := hlives _ hin
      refine ⟨(h.rows r hr hin).blocked, fun hst => hfree _ ((h.rows r hr hin).pending hst) fun hle => ?_⟩
      exact (hc e hi hle).1 r hr hin hne hst
    · obtain ⟨hlife, hne⟩ := hlives _ hlife
      have he' := List.mem_of_mem_eraseIdx he'
      exact hfree _ (h.hands e' he' hlife) fun hle => (hc e hi hle).2 e' he' hlife hne
  · exact h

/-- After a restart nothing is active. -/
private theorem preemption_restart {now : Int} (h : σ.Ok) : ((PreemptionStep.restart now).exec sha256 σ).Ok := by
  have hsteps := (Action.recoverRunning now).steps sha256 σ.polling.store
  have hrows : (σ.polling.store.recoverRunning now).Rows (TaskRow.Rests σ.preempted fun _ => True) := by
    have hs : σ.polling.store.Rows (TaskRow.Rests σ.preempted fun _ => True) := fun r hr =>
      (h.rows r hr).mono (fun _ hx => hx) fun _ _ => trivial
    refine (Action.recoverRunning now).rows_exec sha256 h.schema hs ⟨?_, ?_, ?_⟩
    · exact fun r _ _ => .of_pending rfl fun _ => trivial
    · exact fun r hr _ _ => (hs r hr).of_same rfl rfl rfl
    · exact fun r _ _ _ _ => .of_pending rfl fun _ => trivial
  refine ⟨h.schema.steps hsteps, fun x hx => lt_of_lt_of_le (h.lives x hx) hsteps.nextInst_le,
    fun r hr => (hrows r hr).mono (fun _ hx => hx) fun _ _ => rfl, fun e he => absurd he List.not_mem_nil⟩

end Steps

private theorem preemption_exec (sha256 : List UInt8 → String) {σ : Preemption} (h : σ.Ok) (st : PreemptionStep)
    (hc : st.Clean σ) : (st.exec sha256 σ).Ok := by
  have hmemory : ∀ polling : Polling, polling.store = σ.polling.store → polling.active = σ.polling.active →
      polling.preemptPriority = σ.polling.preemptPriority → Preemption.Ok { σ with polling := polling } := by
    intro polling hstore hactive hthreshold
    exact h.of_memory hstore (fun _ htask => hactive ▸ htask) hthreshold (fun _ hx => hx) fun _ he => he
  cases st with
  | other st =>
    cases st with
    | store a => exact preemption_store h hc.1 hc.2
    | spawn task => exact hc.elim
    | restart now => exact hc.elim
    | remove id =>
      refine ok_other rfl (h.of_memory rfl (fun _ htask => ?_) rfl (fun _ hx => hx) fun _ he => he)
      exact ActiveTaskMap.mem_of_mem_remove htask
    | preempt priority => exact ok_preempt h
    | pause i id now => exact ok_pause h hc
    | announce i =>
      refine ok_other rfl ?_
      rw [PollingStep.exec]
      split
      · exact hmemory _ rfl rfl rfl
      · exact h
    | poll =>
      refine ok_other rfl ?_
      rw [PollingStep.exec]
      split
      · exact hmemory _ rfl rfl rfl
      · exact h
    | query i =>
      refine ok_other rfl ?_
      rw [PollingStep.exec]
      split
      · split
        · exact hmemory _ rfl rfl rfl
        · exact hmemory _ rfl rfl rfl
      · exact h
    | clear i =>
      refine ok_other rfl ?_
      rw [PollingStep.exec]
      split
      · exact hmemory _ rfl rfl rfl
      · exact h
    | check i =>
      refine ok_other rfl ?_
      rw [PollingStep.exec]
      split
      · split
        · exact hmemory _ rfl rfl rfl
        · exact hmemory _ rfl rfl rfl
      · exact h
    | resume i now => exact ok_resume h hc
    | clearBit i =>
      refine ok_other rfl ?_
      rw [PollingStep.exec]
      split
      · rename_i id tasks hi
        exact h.of_update (u := .clearBit (.byId id) .preemption) rfl rfl rfl (fun _ hx => hx)
          (fun _ he => he) (by rintro ⟨⟩)
      · exact h
    | finish i =>
      refine ok_other rfl ?_
      rw [PollingStep.exec]
      split
      · exact hmemory _ rfl rfl rfl
      · exact h
  | claim c => exact preemption_claim h hc
  | finalize id now =>
    exact h.of_update (u := .setRunningForFinalize id now) rfl rfl rfl (fun _ hx => hx)
      (fun _ he => he) (by rintro ⟨⟩)
  | fetch i => exact ok_fetch h hc
  | spawn i => exact preemption_spawn h hc
  | discard i =>
    exact h.of_memory rfl (fun _ htask => htask) rfl (fun _ hx => hx) fun _ he => List.mem_of_mem_eraseIdx he
  | restart now => exact preemption_restart h

/-- In every state of a run of clean steps, a preempted task that is about to be started has no active preemptor. -/
theorem preempted_settled (sha256 : List UInt8 → String) (σ : Preemption)
    (h : Runs Preemption.Fresh (fun σ (a : PreemptionStep) => a.exec sha256 σ) (fun σ a => a.Clean σ) σ) :
    σ.Settled := by
  have hok : σ.Ok := by
    refine Runs.invariant (I := Preemption.Ok) h (fun σ hfresh => ⟨hfresh.polling.store.schema, fun x hx => ?_,
      fun r hr => ?_, fun e he => ?_⟩) fun σ st hσ hc => preemption_exec sha256 hσ st hc
    · rw [hfresh.preempted] at hx
      cases hx
    · rw [hfresh.polling.store.tasks] at hr
      cases hr
    · rw [hfresh.claimed] at he
      cases he
  exact hok.hands

private def preemptionState (steps : List PreemptionStep) : Preemption :=
  steps.foldl (fun σ a => a.exec sampleSha256 σ) ⟨⟨openMemory, [], 64, false, []⟩, [], [], []⟩

private theorem preemptionState_fresh : Preemption.Fresh ⟨⟨openMemory, [], 64, false, []⟩, [], [], []⟩ :=
  ⟨⟨openMemory_fresh, rfl, rfl, rfl⟩, rfl, rfl⟩

/-- A task runs and is preempted by the submission of an urgent one. -/
private def preemptingRun : List PreemptionStep :=
  [.other (.store (.submitDirect (.new "a") 0)), .claim (.pop 1 none 0), .spawn 0,
    .other (.store (.submitDirect { TaskSubmission.new "b" with priority := 0 } 0)), .other (.preempt 0),
    .other (.pause 0 1 0), .other (.announce 0)]

/-- The urgent task runs and ends before a poll brings the preempted one back. -/
private def settledRun : List PreemptionStep :=
  preemptingRun ++ ([.claim (.pop 1 none 0), .spawn 0, .other (.poll), .other (.query 0), .other (.check 0),
    .other (.finish 0), .other (.remove 2), .other (.poll), .other (.query 0), .other (.check 0),
      .other (.resume 0 0),
    .claim (.pop 1 none 0)] : List PreemptionStep)

theorem settledRun_settled :
    (preemptionState settledRun).claimed.map (·.life) = [0] ∧ (preemptionState settledRun).preempted = [0] ∧
      (preemptionState settledRun).Settled := by
  refine ⟨by decide +kernel, by decide +kernel, preempted_settled sampleSha256 _ ?_⟩
  refine Runs.list (.start preemptionState_fresh) settledRun
    ⟨⟨rfl, trivial⟩, trivial, ?_, ⟨rfl, trivial⟩, trivial, ?_,
    trivial, trivial, ?_, trivial, trivial, trivial, trivial, trivial, trivial, trivial, trivial, ?_,
      trivial, trivial⟩
  · have hlow : ∀ e ∈ (preemptionState (settledRun.take 2)).claimed, ¬ e.task.priority ≤ 64 := by decide +kernel
    exact fun e hi hle => absurd hle (hlow e (List.mem_of_getElem? hi))
  · have hnone : ∀ e ∈ (preemptionState (settledRun.take 5)).claimed, False := by decide +kernel
    exact fun e he => (hnone e he).elim
  · -- the preempted task is paused while the urgent one is started
    have hpaused : ∀ r ∈ (preemptionState (settledRun.take 8)).polling.store.tasks,
        r.inst ∈ (preemptionState (settledRun.take 8)).preempted → r.status ≠ .pending := by decide +kernel
    have hhands : ∀ e ∈ (preemptionState (settledRun.take 8)).claimed,
        e.life ∉ (preemptionState (settledRun.take 8)).preempted := by decide +kernel
    exact fun e hi _ => ⟨fun r hr hin _ hst => absurd hst (hpaused r hr hin), fun e' he' hin _ =>
      absurd hin (hhands e' he')⟩
  · have hnone : (preemptionState (settledRun.take 17)).polling.active.length = 0 := by decide +kernel
    intro task tasks _ r _ _ _
    refine ActiveTaskMap.hasPreemptorsFor_of_subset (fun task htask => ?_)
      (rfl : ActiveTaskMap.hasPreemptorsFor [] _ _ = false)
    rw [← List.length_eq_zero_iff.1 hnone]
    exact htask

/-- The poll comes before the urgent task is dispatched, and then both are. -/
private def thrashingRun : List PreemptionStep :=
  preemptingRun ++ ([.other (.poll), .other (.query 0), .other (.check 0), .other (.resume 0 0),
    .claim (.pop 1 none 0), .spawn 0, .claim (.pop 1 none 0)] : List PreemptionStep)

theorem thrashing_not_settled :
    ¬ ∀ σ, Runs Preemption.Fresh (fun σ (a : PreemptionStep) => a.exec sampleSha256 σ) (fun _ a => a.Foreign) σ →
      σ.Settled := by
  intro h
  have hrun : Runs Preemption.Fresh (fun σ (a : PreemptionStep) => a.exec sampleSha256 σ) (fun _ a => a.Foreign)
      (preemptionState thrashingRun) := by
    refine Runs.list (.start preemptionState_fresh) thrashingRun ?_
    repeat' constructor
  obtain ⟨e, he, hlife, hbusy⟩ : ∃ e ∈ (preemptionState thrashingRun).claimed,
      e.life ∈ (preemptionState thrashingRun).preempted ∧
        (preemptionState thrashingRun).polling.active.hasPreemptorsFor e.task.priority 64 = true := by decide +kernel
  have hfree : (preemptionState thrashingRun).polling.active.hasPreemptorsFor e.task.priority 64 = false :=
    h _ hrun e he hlife
  rw [hbusy] at hfree
  cases hfree

end Taskmill
