import Taskmill.Scheduler.Claims
import Taskmill.Scheduler.Memory
import Taskmill.Transact.Calls
import Taskmill.Transact.Log

/-!
# Paused modules and dispatch

From the return of `pause` to the next `resume` of a module no task of it is to be claimed or started.  The pause
drains the active map and sweeps the rows once; neither the gate nor the three ways to dispatch look at the flag it
sets (`src/module.rs`, `src/scheduler/run_loop.rs`).  So the module stays quiet as long as no step makes a task of
it pending, no finalizer of it is dispatched, and no dispatcher has a claimed task of it in its hands when the pause
returns.
-/

namespace Taskmill

open Transact

/-- The calls under way, with what they have done so far. -/
inductive ModuleCall where
  /-- `pause`: the flag is set -/
  | flagged (name : String)
  /-- the executions of the module are cancelled; the rows of these are not paused yet -/
  | draining (name : String) (left : List Int)
  /-- the pending rows of the module are paused -/
  | swept (name : String)
  /-- `resume`: the flag is cleared -/
  | unflagged (name : String)
  /-- the rows that were paused with their module only are pending -/
  | resumed (name : String)

inductive ModuleEvent where
  | claim (taskType : String)
  | start (taskType : String)
  /-- a `pause` returns -/
  | paused (name : String)
  /-- a `resume` is called -/
  | resuming (name : String)
deriving DecidableEq, Repr

structure Modules where
  store : Store
  active : ActiveTaskMap
  /-- whether the scheduler is paused -/
  paused : Bool
  /-- the claimed tasks that are not started yet -/
  claimed : List Execution
  /-- the parents that are about to be finalized -/
  finalizing : List Int
  calls : List ModuleCall
  log : List ModuleEvent

/-- The steps; those of a call under way name its place. -/
inductive ModuleStep where
  /-- a step of another caller -/
  | store (a : Action)
  | claim (c : Claim)
  /-- `spawn_dispatched_task` and `spawn_task` for an execution that was claimed or fetched -/
  | spawn (i : Nat)
  /-- there is no executor for it, or a database error ends the call -/
  | discard (i : Nat)
  | remove (id : Int)
  /-- `set_running_for_finalize` for a parent that was popped -/
  | finalize (id now : Int)
  /-- the record of the parent is read -/
  | fetch (i : Nat)
  /-- `pause_all` and `resume_all` up to their first statement -/
  | setPaused (paused : Bool)
  | pause (name : String)
  | drain (i : Nat)
  /-- one round of `cancel_pause_emit`; the map has no order -/
  | pauseRow (i : Nat) (id now : Int)
  | sweep (i : Nat) (now : Int)
  | returnPaused (i : Nat)
  | resume (name : String)
  | resumeRows (i : Nat) (now : Int)
  | clearRows (i : Nat)

/-- The call at place `i` goes on. -/
def Modules.set (σ : Modules) (i : Nat) (call : ModuleCall) : Modules := { σ with calls := σ.calls.set i call }

/-- It returns. -/
def Modules.drop (σ : Modules) (i : Nat) : Modules := { σ with calls := σ.calls.eraseIdx i }

/-- The rows that a step from `s` to `s'` has claimed. -/
def Store.claimedRows (s s' : Store) : List TaskRow :=
  s.tasks.filter fun r => r.status == .pending && s'.tasks.any fun r' => r'.id == r.id && r'.status == .running

def ModuleStep.exec (sha256 : List UInt8 → String) (σ : Modules) : ModuleStep → Modules
  | .store a => { σ with store := a.exec sha256 σ.store }
  | .claim c =>
    { σ with
      store := c.action.exec sha256 σ.store
      claimed := σ.claimed ++ c.execs σ.store
      log := (σ.store.claimedRows (c.action.exec sha256 σ.store)).map (fun r => .claim r.taskType) ++ σ.log }
  | .spawn i =>
    match σ.claimed[i]? with
    | some e =>
      { σ with
        claimed := σ.claimed.eraseIdx i
        active := σ.active.insert e.task
        log := .start e.task.taskType :: σ.log }
    | none => σ
  | .discard i => { σ with claimed := σ.claimed.eraseIdx i }
  | .remove id => { σ with active := σ.active.remove id }
  | .finalize id now =>
    { σ with
      store := σ.store.setRunningForFinalize id now
      finalizing := σ.finalizing ++ [id]
      log := ((σ.store.tasks.filter fun r => r.id == id && r.status == .waiting).map fun r => .claim r.taskType) ++
        σ.log }
  | .fetch i =>
    match σ.finalizing[i]? with
    | some id =>
      { σ with
        finalizing := σ.finalizing.eraseIdx i
        claimed := σ.claimed ++ (σ.store.taskById id).toList.map fun r => .ofRecord (rowToTaskRecord r) }
    | none => σ
  | .setPaused paused => { σ with paused := paused }
  | .pause name => { σ with calls := σ.calls ++ [.flagged name] }
  | .drain i =>
    match σ.calls[i]? with
    | some (.flagged name) =>
      let (drained, active) := σ.active.drainWhere fun task => hasModulePrefix name task.taskType
      { σ.set i (.draining name (drained.map (·.id))) with active := active }
    | _ => σ
  | .pauseRow i id now =>
    match σ.calls[i]? with
    | some (.draining name left) =>
      if left.contains id then { σ.set i (.draining name (left.erase id)) with store := σ.store.pause id .module now }
      else σ
    | _ => σ
  | .sweep i now =>
    match σ.calls[i]? with
    | some (.draining name []) =>
      { σ.set i (.swept name) with store := σ.store.pausePendingByTypePrefix (likeModule name) now }
    | _ => σ
  | .returnPaused i =>
    match σ.calls[i]? with
    | some (.swept name) => { σ.drop i with log := .paused name :: σ.log }
    | _ => σ
  | .resume name => { σ with calls := σ.calls ++ [.unflagged name], log := .resuming name :: σ.log }
  | .resumeRows i now =>
    match σ.calls[i]? with
    | some (.unflagged name) =>
      -- under a global pause the rows are left alone
      if σ.paused then σ.drop i
      else
        { σ.set i (.resumed name) with
          store := σ.store.resumeSole (fun r => likeModule name r.taskType) .module now }
    | _ => σ
  | .clearRows i =>
    match σ.calls[i]? with
    | some (.resumed name) =>
      { σ.drop i with store := σ.store.clearBit (fun r => likeModule name r.taskType) .module }
    | _ => σ

structure Modules.Fresh (σ : Modules) : Prop where
  store : σ.store.Fresh
  claimed : σ.claimed = []
  calls : σ.calls = []
  log : σ.log = []

/-- A `pause` of the module has returned and no `resume` has been called since. -/
def ModuleEvent.held (name : String) (log : List ModuleEvent) : Bool :=
  Transact.held (fun e => match e with | .paused n => n == name | _ => false)
    (fun e => match e with | .resuming n => n == name | _ => false) log

/-- The type of the task that is claimed or started. -/
def ModuleEvent.dispatched : ModuleEvent → Option String
  | .claim taskType | .start taskType => some taskType
  | _ => none

/-- No task is claimed or started while its module is paused. -/
def Modules.Respected (σ : Modules) : Prop :=
  ∀ later e earlier, σ.log = later ++ e :: earlier → ∀ taskType, e.dispatched = some taskType →
    ∀ name, hasModulePrefix name taskType = true → ModuleEvent.held name earlier = false

/-! ### The steps that wake no task of a paused module -/

/-- No submission lands as a pending row of a type with `Q`, and none supersedes a task of such a type. -/
structure TaskSubmission.WakesNone (sha256 : List UInt8 → String) (Q : String → Prop)
    (sub : TaskSubmission) (now : Int) (s : Store) : Prop where
  fresh : sub.Lands sha256 now s → Q sub.taskType → s.groupPaused sub.groupKey = true
  superseded : sub.onDuplicate = .supersede → ∀ r ∈ s.tasks, r.key = sub.effectiveKey sha256 →
    ¬ Q r.taskType ∧ ¬ Q sub.taskType

/-- The completion of `tasks` resets no row of a type with `Q`, and the next instances of such types are in paused
groups. -/
structure Store.CompletionWakesNone (s : Store) (Q : String → Prop) (tasks : List TaskRecord) : Prop where
  reset : ∀ r ∈ s.tasks, r.id ∈ tasks.map (·.id) → r.requeue = true → ¬ Q r.taskType
  next : ∀ task ∈ tasks, task.recurs.isSome = true → Q task.taskType → s.groupPaused task.groupKey = true

/-- The rows of types with `Q` that wait for a dependency are in paused groups. -/
def Store.FreeingWakesNone (s : Store) (Q : String → Prop) : Prop :=
  ∀ r ∈ s.tasks, r.status = .blocked → Q r.taskType → s.groupPaused r.groupKey = true

/-- The step makes no row of a type with `Q` pending. -/
def Action.WakesNone (sha256 : List UInt8 → String) (Q : String → Prop) (s : Store) : Action → Prop
  | .update u => u.wakes = true → ∀ r ∈ s.tasks, u.selects r = true → ¬ Q r.taskType
  | .submitDirect sub now => sub.WakesNone sha256 Q now s
  | .processSubmitBatch skipRequeue batch =>
    Along (fun σ m => (submitOne sha256 m.1 skipRequeue m.2 σ).2)
      (fun σ m => m.1.WakesNone sha256 Q m.2 σ ∧
        -- a member that fails late leaves its row behind
        (Q m.1.taskType → (submitOne sha256 m.1 skipRequeue m.2 σ).1.toBool = true)) s batch
  | .submitChunk skipRequeue last now chunk =>
    Along (fun s item => (submitItem sha256 skipRequeue last now item s).2)
      (fun s item => last item.1 (item.2.effectiveKey sha256) = true → item.2.WakesNone sha256 Q now s) s chunk
  | .complete id _ _ => ∀ r, s.taskById id = some r → s.CompletionWakesNone Q [rowToTaskRecord r]
  | .completeWithRecord task _ _ => s.CompletionWakesNone Q [task]
  | .completeBatch items _ => s.CompletionWakesNone Q (items.map (·.1)) ∧ s.FreeingWakesNone Q
  | .resolveDependents _ _ | .failDependents _ _ => s.FreeingWakesNone Q
  | .fail id _ retryable maxRetries _ _ _ =>
    ∀ r, s.taskById id = some r → (rowToTaskRecord r).willRetry retryable maxRetries = true → ¬ Q r.taskType
  | .failWithRecord task _ retryable maxRetries _ _ _ =>
    task.willRetry retryable maxRetries = true → ∀ r ∈ s.tasks, r.id = task.id → ¬ Q r.taskType
  | _ => True

/-- The other callers do not dispatch. -/
def ModuleStep.Foreign : ModuleStep → Prop
  | .store a => a.ofDispatch = false
  | _ => True

/-- The rows of the module have been swept, and it has not been resumed since. -/
def Modules.Off (σ : Modules) (name : String) : Prop := ModuleEvent.held name σ.log = true ∨ .swept name ∈ σ.calls

/-- The steps of other callers, and the resume of another module, make no task of a paused module pending; no
finalizer of such a module is dispatched; a candidate is still what its row is when it is claimed; and where a
`pause` returns no dispatcher has a claimed task of the module in its hands. -/
def ModuleStep.Clean (sha256 : List UInt8 → String) (σ : Modules) : ModuleStep → Prop
  | .store a =>
    (ModuleStep.store a).Foreign ∧
      ∀ name, σ.Off name → a.WakesNone sha256 (fun t => hasModulePrefix name t = true) σ.store
  | .claim c => c.Current σ.store
  | .finalize id _ =>
    ∀ name, σ.Off name → ∀ r ∈ σ.store.tasks, r.id = id → r.status = .waiting →
      hasModulePrefix name r.taskType = false
  | .fetch i =>
    ∀ name, σ.Off name → ∀ id, σ.finalizing[i]? = some id → ∀ r, σ.store.taskById id = some r →
      hasModulePrefix name r.taskType = false
  | .returnPaused i =>
    ∀ name, σ.calls[i]? = some (.swept name) → ∀ e ∈ σ.claimed, hasModulePrefix name e.task.taskType = false
  | .resumeRows i _ =>
    σ.paused = false → ∀ other, σ.calls[i]? = some (.unflagged other) → ∀ name, σ.Off name →
      ∀ r ∈ σ.store.tasks, likeModule other r.taskType = true → r.status = .paused → r.pauseReasons = .module →
        hasModulePrefix name r.taskType = false
  | _ => True

/-! ### What a step does to the rows of a paused module -/

/-- If the type of the row has `Q`, the row is not pending. -/
def TaskRow.Asleep (Q : String → Prop) (r : TaskRow) : Prop := Q r.taskType → r.status ≠ .pending

section Rows

variable {Q : String → Prop} {r r' : TaskRow} {s : Store}

theorem TaskRow.Asleep.of_not_pending (h : r.status ≠ .pending) : r.Asleep Q := fun _ => h

theorem TaskRow.Asleep.of_not (h : ¬ Q r.taskType) : r.Asleep Q := fun hq => absurd hq h

theorem TaskRow.Asleep.of_same (h : r.Asleep Q) (ht : r'.taskType = r.taskType) (hst : r'.status = r.status) :
    r'.Asleep Q := by
  intro hq
  rw [hst]
  rw [ht] at hq
  exact h hq

private theorem asleep_update {u : RowUpdate} (hc : u.wakes = true → ¬ Q r.taskType) (h : r.Asleep Q) :
    (u.change r).Asleep Q := by
  cases u with
  | requeue id => exact .of_not (hc rfl)
  | requeueForRetry id error delay now => exact .of_not (hc rfl)
  | resume id now => exact .of_not (hc rfl)
  | resumeSole sel reason now => exact .of_not (hc rfl)
  | pause id reason now => exact .of_not_pending nofun
  | pausePendingInGroup group now => exact .of_not_pending nofun
  | pausePendingByTypePrefix like now => exact .of_not_pending nofun
  | setWaiting id memo => exact .of_not_pending nofun
  | setRunningForFinalize id now => exact .of_not_pending nofun
  | clearBit sel reason => exact h.of_same rfl rfl
  | addGroupBit group => exact h.of_same rfl rfl
  | setRunAfter id runAfter => exact h.of_same rfl rfl
  | incrementRetry id error => exact h.of_same rfl rfl
  | setRecurringPaused id paused => exact h.of_same rfl rfl

private theorem asleep_submission {sha256 : List UInt8 → String} {sub : TaskSubmission} {now : Int}
    (hs : s.Rows (TaskRow.Asleep Q)) (hc : sub.WakesNone sha256 Q now s) :
    sub.KeepsRows sha256 (TaskRow.Asleep Q) now s where
  pending hlands hfree := by
    refine .of_not fun hq => ?_
    rw [hc.fresh hlands hq] at hfree
    cases hfree
  paused _ _ := .of_not_pending nofun
  blocked := .of_not_pending nofun
  upgraded r hr _ _ _ := (hs r hr).of_same rfl rfl
  requeued r hr _ _ := (hs r hr).of_same rfl rfl
  superseded hdup r hr hkey _ := .of_not (hc.superseded hdup r hr hkey).1
  replaced hdup r hr hkey _ := .of_not (hc.superseded hdup r hr hkey).2

/-- While the tasks `ids` complete, the rows that may be reset have other types; while dependents are released
(`freeing`), those that wait are in paused groups. -/
private structure AsleepWithin (Q : String → Prop) (s : Store) (ids : List Int) (freeing : Bool)
    (r : TaskRow) : Prop where
  row : r.Asleep Q
  reset : r.id ∈ ids → r.requeue = true → ¬ Q r.taskType
  blocked : freeing = true → r.status = .blocked → Q r.taskType → s.groupPaused r.groupKey = true

private theorem asleep_completion {tasks : List TaskRecord} {freeing : Bool}
    (hnext : ∀ task ∈ tasks, task.recurs.isSome = true → Q task.taskType → s.groupPaused task.groupKey = true)
    (now : Int) :
    CompletionKeepsRows (AsleepWithin Q s (tasks.map (·.id)) freeing) tasks now s where
  reset r hr hid hreq inst _ := ⟨.of_not (hr.reset hid hreq), nofun, nofun⟩
  next task htask interval hrec id inst _ := by
    split
    · exact ⟨.of_not_pending nofun, nofun, nofun⟩
    · rename_i hfree
      refine ⟨.of_not fun hq => hfree ?_, nofun, nofun⟩
      exact hnext task htask (by rw [hrec]; rfl) hq

private theorem asleep_freeing (ids : List Int) (now : Int) : FreeingKeepsRows (AsleepWithin Q s ids true) now s := by
  intro r hr hst
  rw [Store.freeRow]
  split
  · exact ⟨.of_not_pending (by rintro ⟨⟩), hr.reset, by rintro _ ⟨⟩⟩
  · rename_i hfree
    exact ⟨.of_not fun hq => hfree (hr.blocked rfl hst hq), hr.reset, by rintro _ ⟨⟩⟩

/-- A clean step leaves the rows of types with `Q` asleep. -/
theorem Action.asleep_exec (sha256 : List UInt8 → String) (hschema : s.Schema)
    (hs : s.Rows (TaskRow.Asleep Q)) (a : Action) (hforeign : a.ofDispatch = false) (hc : a.WakesNone sha256 Q s) :
    (a.exec sha256 s).Rows (TaskRow.Asleep Q) := by
  have hkeeps : ∀ a : Action, a.KeepsRows sha256 (TaskRow.Asleep Q) s → (a.exec sha256 s).Rows (TaskRow.Asleep Q) :=
    fun a hk => a.rows_exec sha256 hschema hs hk
  have hwithin : ∀ (a : Action) (ids : List Int) (freeing : Bool),
      (∀ r ∈ s.tasks, r.id ∈ ids → r.requeue = true → ¬ Q r.taskType) → (freeing = true → s.FreeingWakesNone Q) →
      a.KeepsRows sha256 (AsleepWithin Q s ids freeing) s → (a.exec sha256 s).Rows (TaskRow.Asleep Q) := by
    intro a ids freeing hreset hfree hk r hr
    have hrows : s.Rows (AsleepWithin Q s ids freeing) := fun r hr => ⟨hs r hr, hreset r hr, fun hf => hfree hf r hr⟩
    exact (a.rows_exec sha256 hschema hrows hk r hr).row
  cases a with
  | update u => exact hkeeps _ fun r hr hsel => asleep_update (fun hwakes => hc hwakes r hr hsel) (hs r hr)
  | submitDirect sub now => exact hkeeps _ (asleep_submission hs hc)
  | processSubmitBatch skipRequeue batch =>
    refine hkeeps _ (Along.mono (fun σ m hclean hσ =>
      ⟨asleep_submission hσ.rows hclean.1, fun hfail => .of_not fun hq => ?_⟩) hc)
    rw [hclean.2 hq] at hfail
    cases hfail
  | submitChunk skipRequeue last now chunk =>
    exact hkeeps _ (Along.mono (fun σ item hclean hσ hlast => asleep_submission hσ.rows (hclean hlast)) hc)
  | complete id metrics now =>
    cases hrow : s.taskById id with
    | none =>
      refine hkeeps _ fun row hsome => ?_
      rw [hrow] at hsome
      cases hsome
    | some row =>
      have hclean := hc row hrow
      refine hwithin _ _ false hclean.reset nofun fun row' hrow' => ?_
      obtain rfl : row = row' := Option.some.inj (hrow.symm.trans hrow')
      exact asleep_completion hclean.next now
  | completeWithRecord task metrics now => exact hwithin _ _ false hc.reset nofun (asleep_completion hc.next now)
  | completeBatch items now =>
    exact hwithin _ _ true hc.1.reset (fun _ => hc.2) ⟨asleep_completion hc.1.next now, asleep_freeing _ now⟩
  | resolveDependents id now =>
    exact hwithin _ [] true (fun _ _ hid => absurd hid List.not_mem_nil) (fun _ => hc) (asleep_freeing [] now)
  | failDependents id now =>
    exact hwithin _ [] true (fun _ _ hid => absurd hid List.not_mem_nil) (fun _ => hc) (asleep_freeing [] now)
  | fail id error retryable maxRetries metrics backoff now =>
    exact hkeeps _ fun r hrow hretry => .of_not (hc r hrow hretry)
  | failWithRecord task error retryable maxRetries metrics backoff now =>
    exact hkeeps _ fun hretry r hr hid => .of_not (hc hretry r hr hid)
  | claimTask id now => cases hforeign
  | popById id now => cases hforeign
  | popNextBatch limit aging now => cases hforeign
  | recoverRunning now => cases hforeign
  | failBatch items now => exact hkeeps _ trivial
  | cancelToHistory id now => exact hkeeps _ trivial
  | cancelToHistoryWithRecord task now => exact hkeeps _ trivial
  | cancelChildren parent read now => exact hkeeps _ trivial
  | expireTasks now => exact hkeeps _ trivial
  | expireSingle id now => exact hkeeps _ trivial
  | pauseGroupState group resumeAt now => exact hkeeps _ trivial
  | resumeGroupState group => exact hkeeps _ trivial
  | delete id => exact hkeeps _ trivial
  | deleteHistory historyId => exact hkeeps _ trivial
  | pruneHistoryByAge days now => exact hkeeps _ trivial
  | pruneHistoryByCount keep => exact hkeeps _ trivial
  | maybePrune now => exact hkeeps _ trivial

/-- A claim makes no row pending. -/
theorem Claim.asleep_exec (sha256 : List UInt8 → String) (hschema : s.Schema)
    (hs : s.Rows (TaskRow.Asleep Q)) (c : Claim) :
    (c.action.exec sha256 s).Rows (TaskRow.Asleep Q) := by
  refine c.action.rows_exec sha256 hschema hs ?_
  cases c with
  | pop limit aging now => exact fun r hr _ => .of_not_pending nofun
  | popById id now => exact fun r hr _ _ => .of_not_pending nofun
  | candidate task now readings => exact fun r hr _ _ => .of_not_pending nofun

end Rows

/-! ### The log -/

section Log

variable {log new : List ModuleEvent} {name : String}

theorem ModuleEvent.held_paused (other : String) :
    held name (.paused other :: log) = (other == name || held name log) := rfl

theorem ModuleEvent.held_resuming (other : String) :
    held name (.resuming other :: log) = (!(other == name) && held name log) := rfl

/-- Claims and starts neither pause nor resume. -/
theorem ModuleEvent.held_append (hnew : ∀ e ∈ new, e.dispatched.isSome = true) :
    held name (new ++ log) = held name log := by
  refine held_append_of_neutral (fun e he => ?_) fun e he => ?_
  · have hsome := hnew e he
    cases e with
    | paused other => cases hsome
    | _ => rfl
  · have hsome := hnew e he
    cases e with
    | resuming other => cases hsome
    | _ => rfl

/-- Every claim and every start was of a module that was not held. -/
private def Respects : List ModuleEvent → Prop
  | [] => True
  | e :: log =>
    (∀ taskType, e.dispatched = some taskType → ∀ name, hasModulePrefix name taskType = true →
      ModuleEvent.held name log = false) ∧ Respects log

private theorem Respects.split {later earlier : List ModuleEvent} {e : ModuleEvent}
    (h : Respects (later ++ e :: earlier)) :
    Respects (e :: earlier) := by
  induction later with
  | nil => exact h
  | cons x later ih => exact ih h.2

private theorem Respects.append (h : Respects log)
    (hnew : ∀ e ∈ new, ∃ taskType, e.dispatched = some taskType ∧
      ∀ name, hasModulePrefix name taskType = true → ModuleEvent.held name log = false) : Respects (new ++ log) := by
  induction new with
  | nil => exact h
  | cons e new ih =>
    have hrest : ∀ x ∈ new, x.dispatched.isSome = true := by
      intro x hx
      obtain ⟨taskType, htype, _⟩ := hnew x (List.mem_cons_of_mem _ hx)
      rw [htype]
      rfl
    refine ⟨fun taskType htype name hprefix => ?_, ih fun x hx => hnew x (List.mem_cons_of_mem _ hx)⟩
    obtain ⟨taskType', htype', hfree⟩ := hnew e (List.mem_cons_self ..)
    obtain rfl := Option.some.inj (htype.symm.trans htype')
    exact (ModuleEvent.held_append hrest).trans (hfree name hprefix)

end Log

/-! ### Runs -/

private abbrev OfModule (name : String) (taskType : String) : Prop := hasModulePrefix name taskType = true

private structure Modules.Ok (σ : Modules) : Prop where
  schema : σ.store.Schema
  rows : ∀ name, σ.Off name → σ.store.Rows (TaskRow.Asleep (OfModule name))
  hands : ∀ name, ModuleEvent.held name σ.log = true → ∀ e ∈ σ.claimed, hasModulePrefix name e.task.taskType = false
  log : Respects σ.log

section Steps

variable {σ σ' : Modules} {i : Nat} {call old : ModuleCall}

/-- The paused modules after a call went on that is not a sweep. -/
private theorem Modules.Off.of_set {name : String} (h : σ'.Off name) (hcalls : σ'.calls = σ.calls.set i call)
    (hlog : σ'.log = σ.log) (hcall : ∀ name, call ≠ .swept name) : σ.Off name := by
  unfold Modules.Off at h
  rw [hcalls, hlog] at h
  rcases h with h | h
  · exact .inl h
  · rcases List.mem_or_eq_of_mem_set h with h | h
    · exact .inr h
    · exact absurd h.symm (hcall name)

private theorem Modules.Off.of_drop {name : String} (h : σ'.Off name) (hcalls : σ'.calls = σ.calls.eraseIdx i)
    (hlog : σ'.log = σ.log) : σ.Off name := by
  unfold Modules.Off at h
  rw [hcalls, hlog] at h
  exact h.imp_right List.mem_of_mem_eraseIdx

/-- A step that leaves the log and the hands alone and makes no row of a paused module pending. -/
private theorem Modules.Ok.of_rows (h : σ.Ok) (hclaimed : σ'.claimed = σ.claimed) (hlog : σ'.log = σ.log)
    (hschema : σ'.store.Schema)
    (hrows : ∀ name, σ'.Off name → σ'.store.Rows (TaskRow.Asleep (OfModule name))) : σ'.Ok := by
  refine ⟨hschema, hrows, fun name hheld => ?_, ?_⟩
  · rw [hlog] at hheld
    rw [hclaimed]
    exact h.hands name hheld
  · rw [hlog]
    exact h.log

/-- An `UPDATE` that wakes no row of a paused module. -/
private theorem Modules.Ok.update_rows (h : σ.Ok) {u : RowUpdate} (hforeign : (Action.update u).ofDispatch = false)
    {name : String} (hoff : σ.Off name)
    (hu : u.wakes = true → ∀ r ∈ σ.store.tasks, u.selects r = true → hasModulePrefix name r.taskType = false) :
    (u.exec σ.store).Rows (TaskRow.Asleep (OfModule name)) := by
  refine (Action.update u).asleep_exec (fun _ => "") h.schema (h.rows name hoff) hforeign fun hwakes r hr hsel hq =>
    ?_
  exact absurd hq (by rw [OfModule, hu hwakes r hr hsel]; nofun)

private theorem Store.Schema.rowUpdate (h : σ.store.Schema) (u : RowUpdate) : (u.exec σ.store).Schema :=
  h.steps ((Action.update u).steps (fun _ => "") σ.store)

private theorem modules_claim (sha256 : List UInt8 → String) (h : σ.Ok) {c : Claim} (hc : c.Current σ.store) :
    ((ModuleStep.claim c).exec sha256 σ).Ok := by
  -- a pending row is of no paused module
  have hfree : ∀ r ∈ σ.store.tasks, r.status = .pending → ∀ name, hasModulePrefix name r.taskType = true →
      ModuleEvent.held name σ.log = false := by
    intro r hr hst name hprefix
    rw [← Bool.not_eq_true]
    exact fun hheld => h.rows name (.inl hheld) r hr hprefix hst
  have hnew : ∀ e ∈ (σ.store.claimedRows (c.action.exec sha256 σ.store)).map fun r => ModuleEvent.claim r.taskType,
      ∃ taskType, e.dispatched = some taskType ∧
        ∀ name, hasModulePrefix name taskType = true → ModuleEvent.held name σ.log = false := by
    intro e he
    obtain ⟨r, hr, rfl⟩ := List.mem_map.1 he
    obtain ⟨hr, hsel⟩ := List.mem_filter.1 hr
    rw [Bool.and_eq_true, beq_iff_eq] at hsel
    exact ⟨r.taskType, rfl, hfree r hr hsel.1⟩
  have hheld : ∀ name, ModuleEvent.held name ((ModuleStep.claim c).exec sha256 σ).log =
      ModuleEvent.held name σ.log := by
    intro name
    refine ModuleEvent.held_append fun e he => ?_
    obtain ⟨taskType, htype, _⟩ := hnew e he
    rw [htype]
    rfl
  refine ⟨h.schema.steps (c.action.steps sha256 σ.store), fun name hoff => ?_, fun name hpaused e he => ?_,
    h.log.append hnew⟩
  · have hold : σ.Off name := hoff.imp_left fun hpaused => (hheld name).symm.trans hpaused
    exact c.asleep_exec sha256 h.schema (h.rows name hold)
  · rw [hheld] at hpaused
    rcases List.mem_append.1 he with he | he
    · exact h.hands name hpaused e he
    · obtain ⟨r, hr, hst, hfrom⟩ := c.execs_from h.schema hc he
      rw [hfrom.taskType, ← Bool.not_eq_true]
      intro hprefix
      have hnot := hfree r hr hst name hprefix
      rw [hpaused] at hnot
      cases hnot

private theorem modules_spawn (sha256 : List UInt8 → String) (h : σ.Ok) :
    ((ModuleStep.spawn i).exec sha256 σ).Ok := by
  rw [ModuleStep.exec]
  split
  · rename_i e hi
    have hfree : ∀ name, hasModulePrefix name e.task.taskType = true → ModuleEvent.held name σ.log = false := by
      intro name hprefix
      rw [← Bool.not_eq_true]
      intro hheld
      rw [h.hands name hheld e (List.mem_of_getElem? hi)] at hprefix
      cases hprefix
    refine ⟨h.schema, h.rows, fun name hheld x hx => h.hands name hheld x (List.mem_of_mem_eraseIdx hx), ?_, h.log⟩
    intro taskType htype name hprefix
    cases htype
    exact hfree name hprefix
  · exact h

private theorem ok_finalize {sha256 : List UInt8 → String} {id now : Int} (h : σ.Ok)
    (hc : (ModuleStep.finalize id now).Clean sha256 σ) : ((ModuleStep.finalize id now).exec sha256 σ).Ok := by
  have hnew : ∀ e ∈ (σ.store.tasks.filter fun r =>
    r.id == id && r.status == .waiting).map fun r => ModuleEvent.claim r.taskType,
      ∃ taskType, e.dispatched = some taskType ∧
        ∀ name, hasModulePrefix name taskType = true → ModuleEvent.held name σ.log = false := by
    intro e he
    obtain ⟨r, hr, rfl⟩ := List.mem_map.1 he
    obtain ⟨hr, hsel⟩ := List.mem_filter.1 hr
    rw [Bool.and_eq_true, beq_iff_eq, beq_iff_eq] at hsel
    refine ⟨r.taskType, rfl, fun name hprefix => ?_⟩
    rw [← Bool.not_eq_true]
    intro hheld
    rw [hc name (.inl hheld) r hr hsel.1 hsel.2] at hprefix
    cases hprefix
  have hheld : ∀ name, ModuleEvent.held name ((ModuleStep.finalize id now).exec sha256 σ).log =
      ModuleEvent.held name σ.log := by
    intro name
    refine ModuleEvent.held_append fun e he => ?_
    obtain ⟨taskType, htype, _⟩ := hnew e he
    rw [htype]
    rfl
  refine ⟨h.schema.rowUpdate (.setRunningForFinalize id now), fun name hoff => ?_, fun name hpaused => ?_,
    h.log.append hnew⟩
  · have hold : σ.Off name := hoff.imp_left fun hpaused => (hheld name).symm.trans hpaused
    refine (h.rows name hold).update fun r _ _ => ?_
    exact .of_not_pending nofun
  · rw [hheld] at hpaused
    exact h.hands name hpaused

private theorem ok_returnPaused {sha256 : List UInt8 → String} {name : String} (h : σ.Ok)
    (hi : σ.calls[i]? = some (.swept name)) (hc : (ModuleStep.returnPaused i).Clean sha256 σ) :
    Modules.Ok { σ.drop i with log := .paused name :: σ.log } := by
  have hswept : σ.Off name := .inr (List.mem_of_getElem? hi)
  have hold : ∀ other, ModuleEvent.held other (.paused name :: σ.log) = true → other = name ∨
      ModuleEvent.held other σ.log = true := by
    intro other hheld
    rw [ModuleEvent.held_paused, Bool.or_eq_true, beq_iff_eq] at hheld
    exact hheld.imp_left Eq.symm
  refine ⟨h.schema, fun other hoff => ?_, fun other hheld e he => ?_, ?_, h.log⟩
  · rcases hoff with hheld | hin
    · rcases hold other hheld with rfl | hheld
      · exact h.rows other hswept
      · exact h.rows other (.inl hheld)
    · exact h.rows other (.inr (List.mem_of_mem_eraseIdx hin))
  · rcases hold other hheld with rfl | hheld
    · exact hc other hi e he
    · exact h.hands other hheld e he
  · exact nofun

end Steps

private theorem modules_exec (sha256 : List UInt8 → String) {σ : Modules} (h : σ.Ok) (st : ModuleStep)
    (hc : st.Clean sha256 σ) : (st.exec sha256 σ).Ok := by
  cases st with
  | store a =>
    refine h.of_rows rfl rfl (h.schema.steps (a.steps sha256 σ.store)) fun name hoff => ?_
    exact a.asleep_exec sha256 h.schema (h.rows name hoff) hc.1 (hc.2 name hoff)
  | claim c => exact modules_claim sha256 h hc
  | spawn i => exact modules_spawn sha256 h
  | discard i =>
    exact ⟨h.schema, h.rows, fun name hheld e he => h.hands name hheld e (List.mem_of_mem_eraseIdx he), h.log⟩
  | remove id => exact ⟨h.schema, h.rows, h.hands, h.log⟩
  | finalize id now => exact ok_finalize h hc
  | fetch i =>
    rw [ModuleStep.exec]
    split
    · rename_i id hi
      refine ⟨h.schema, h.rows, fun name hheld e he => ?_, h.log⟩
      rcases List.mem_append.1 he with he | he
      · exact h.hands name hheld e he
      · obtain ⟨r, hr, rfl⟩ := List.mem_map.1 he
        exact hc name (.inl hheld) id hi r (Option.mem_toList.1 hr)
    · exact h
  | setPaused paused => exact ⟨h.schema, h.rows, h.hands, h.log⟩
  | pause name =>
    refine h.of_rows rfl rfl h.schema fun other hoff => h.rows other (hoff.imp_right fun hin => ?_)
    rcases List.mem_append.1 hin with hin | hin
    · exact hin
    · cases List.mem_singleton.1 hin
  | drain i =>
    rw [ModuleStep.exec]
    split
    · refine h.of_rows rfl rfl h.schema fun name hoff => h.rows name ?_
      exact Modules.Off.of_set hoff rfl rfl nofun
    · exact h
  | pauseRow i id now =>
    rw [ModuleStep.exec]
    split
    · split
      · refine h.of_rows rfl rfl (h.schema.rowUpdate (.pause id .module now)) fun name hoff => ?_
        exact h.update_rows (u := .pause id .module now) rfl (Modules.Off.of_set hoff rfl rfl nofun) nofun
      · exact h
    · exact h
  | sweep i now =>
    rw [ModuleStep.exec]
    split
    · rename_i name hi
      refine h.of_rows rfl rfl (h.schema.rowUpdate (.pausePendingByTypePrefix (likeModule name) now))
        fun other hoff => ?_
      by_cases hother : other = name
      · -- the sweep has reached every pending row of the module
        subst hother
        intro r' hr' hprefix
        obtain ⟨r, hr, rfl⟩ := List.mem_map.1 hr'
        split
        · exact nofun
        · rename_i hsel
          rw [if_neg hsel] at hprefix
          intro hst
          apply hsel
          simp [likeModule_of_hasModulePrefix hprefix, hst]
      · refine h.update_rows (u := .pausePendingByTypePrefix (likeModule name) now) rfl ?_ nofun
        refine hoff.imp_right fun hin => ?_
        rcases List.mem_or_eq_of_mem_set hin with hin | hin
        · exact hin
        · exact absurd (ModuleCall.swept.inj hin) hother
    · exact h
  | returnPaused i =>
    rw [ModuleStep.exec]
    split
    · rename_i name hi
      exact ok_returnPaused h hi hc
    · exact h
  | resume name =>
    have hold : ∀ other, ModuleEvent.held other (.resuming name :: σ.log) = true →
        ModuleEvent.held other σ.log = true := by
      intro other hheld
      rw [ModuleEvent.held_resuming, Bool.and_eq_true] at hheld
      exact hheld.2
    refine ⟨h.schema, fun other hoff => ?_, fun other hheld => h.hands other (hold other hheld), nofun, h.log⟩
    refine h.rows other (hoff.imp (hold other) fun hin => ?_)
    rcases List.mem_append.1 hin with hin | hin
    · exact hin
    · cases List.mem_singleton.1 hin
  | resumeRows i now =>
    rw [ModuleStep.exec]
    split
    · rename_i other hi
      split
      · exact h.of_rows rfl rfl h.schema fun name hoff => h.rows name (Modules.Off.of_drop hoff rfl rfl)
      · rename_i hpaused
        refine h.of_rows rfl rfl (h.schema.rowUpdate (.resumeSole (.typePrefix (likeModule other)) .module now))
          fun name hoff => ?_
        have hold : σ.Off name := Modules.Off.of_set hoff rfl rfl nofun
        refine h.update_rows (u := .resumeSole (.typePrefix (likeModule other)) .module now) rfl hold
          fun _ r hr hsel => ?_
        simp only [RowUpdate.selects, Selection.selects, Bool.and_eq_true, beq_iff_eq] at hsel
        exact hc (Bool.not_eq_true _ ▸ hpaused) other hi name hold r hr hsel.1.1 hsel.1.2 hsel.2
    · exact h
  | clearRows i =>
    rw [ModuleStep.exec]
    split
    · rename_i other hi
      refine h.of_rows rfl rfl (h.schema.rowUpdate (.clearBit (.typePrefix (likeModule other)) .module))
        fun name hoff => ?_
      refine h.update_rows (u := .clearBit (.typePrefix (likeModule other)) .module) rfl ?_ nofun
      exact Modules.Off.of_drop hoff rfl rfl
    · exact h

/-- In every run of clean steps no task is claimed or started between the return of a `pause` of its module and the
next `resume`. -/
theorem paused_modules_respected (sha256 : List UInt8 → String) (σ : Modules)
    (h : Runs Modules.Fresh (fun σ (a : ModuleStep) => a.exec sha256 σ) (fun σ a => a.Clean sha256 σ) σ) :
    σ.Respected := by
  have hok : σ.Ok := by
    refine Runs.invariant (I := Modules.Ok) h (fun σ hfresh => ⟨hfresh.store.schema, fun name _ r hr => ?_,
      fun name _ e he => ?_, ?_⟩) fun σ st hσ hc => modules_exec sha256 hσ st hc
    · rw [hfresh.store.tasks] at hr
      cases hr
    · rw [hfresh.claimed] at he
      cases he
    · rw [hfresh.log]
      trivial
  intro later e earlier hlog taskType htype name hprefix
  have hlog' := hok.log
  rw [hlog] at hlog'
  exact hlog'.split.1 taskType htype name hprefix

private def modulesState (steps : List ModuleStep) : Modules :=
  steps.foldl (fun σ a => a.exec sampleSha256 σ) ⟨openMemory, [], false, [], [], [], []⟩

private theorem modulesState_fresh : Modules.Fresh ⟨openMemory, [], false, [], [], [], []⟩ :=
  ⟨openMemory_fresh, rfl, rfl, rfl⟩

/-- A running task and a pending one are paused with their module, and a task of another module is dispatched. -/
private def respectedRun : List ModuleStep :=
  [.store (.submitDirect (.new "m::a") 0), .store (.submitDirect (.new "m::b") 0),
    .store (.submitDirect (.new "n::c") 0),
    .claim (.pop 1 none 0), .spawn 0, .pause "m", .drain 0, .pauseRow 0 1 0, .sweep 0 0, .returnPaused 0,
    .claim (.pop 5 none 0), .spawn 0]

/-- Before the first pause every step is clean. -/
private theorem clean_unpaused {σ : Modules} (hlog : σ.log = []) (hcalls : σ.calls = []) {a : Action}
    (ha : a.ofDispatch = false) : (ModuleStep.store a).Clean sampleSha256 σ := by
  refine ⟨ha, fun name hoff => ?_⟩
  rw [Modules.Off, hlog, hcalls] at hoff
  rcases hoff with hheld | hin
  · cases hheld
  · cases hin

theorem respectedRun_respected :
    (modulesState respectedRun).log =
        [.start "n::c", .claim "n::c", .paused "m", .start "m::a", .claim "m::a"] ∧
      (modulesState respectedRun).Respected := by
  refine ⟨by decide +kernel, paused_modules_respected sampleSha256 _ ?_⟩
  refine Runs.list (.start modulesState_fresh) respectedRun ⟨clean_unpaused rfl rfl rfl, clean_unpaused rfl rfl rfl,
    clean_unpaused rfl rfl rfl, trivial, trivial, trivial, trivial, trivial, trivial, ?_, trivial, trivial, trivial⟩
  -- nothing is claimed when the pause returns
  have hnone : ∀ e ∈ (modulesState (respectedRun.take 9)).claimed, False := by decide +kernel
  exact fun name _ e he => (hnone e he).elim

/-- A task is submitted to a paused module and dispatched. -/
private def ignoredRun : List ModuleStep :=
  [.pause "m", .drain 0, .sweep 0 0, .returnPaused 0, .store (.submitDirect (.new "m::a") 0),
    .claim (.pop 1 none 0), .spawn 0]

theorem ignored_not_respected :
    ¬ ∀ σ, Runs Modules.Fresh (fun σ (a : ModuleStep) => a.exec sampleSha256 σ)
    (fun _ a => a.Foreign) σ → σ.Respected := by
  intro h
  have hrun : Runs Modules.Fresh (fun σ (a : ModuleStep) => a.exec sampleSha256 σ) (fun _ a => a.Foreign)
      (modulesState ignoredRun) := by
    refine Runs.list (.start modulesState_fresh) ignoredRun ?_
    repeat' constructor
  have hlog : (modulesState ignoredRun).log = [.start "m::a"] ++ .claim "m::a" :: [.paused "m"] := by decide +kernel
  have hheld := h _ hrun _ _ _ hlog "m::a" rfl "m" (by decide +kernel)
  cases hheld

end Taskmill
