import Taskmill.Scheduler.Bits
import Taskmill.Scheduler.Groups
import Taskmill.Transact.Calls

/-!
# Paused groups are quiet

From the return of `pause_group` to the next `resume_group` no row of the group is to be pending or running.  The
table `paused_groups` is consulted by submissions, by the next instances of recurring tasks and by the release of
dependents, so these leave paused rows.  The reset of a requeued task, the retries, a supersede, the release in a
crash recovery and the finalizers do not consult it, and an execution that is claimed but not in the active map yet
is not reached by the pause.  `Action.QuietClean` and `GroupStep.Clean` say for each step when it does no harm.
-/

namespace Taskmill

open Transact

/-- How far the pause of a group has come with its rows. -/
inductive Sweep where
  /-- the paused ones have the GROUP bit -/
  | marked (group : String)
  /-- and none is pending -/
  | swept (group : String)
  /-- and only `left` may be running -/
  | drained (group : String) (left : List Int)

def Sweep.group : Sweep → String
  | .marked g | .swept g | .drained g _ => g

/-- Whether rows of the group may be pending. -/
def Sweep.pending : Sweep → Bool
  | .marked _ => true
  | _ => false

/-- The rows of the group that may be running, if not all may be. -/
def Sweep.left : Sweep → Option (List Int)
  | .drained _ left => some left
  | _ => none

/-- What a pause has achieved for a row of its group. -/
structure TaskRow.QuietIn (w : Sweep) (r : TaskRow) : Prop where
  pending : r.status = .pending → w.pending = true
  paused : r.status = .paused → r.pauseReasons &&& .group ≠ 0
  running : r.status = .running → ∀ left, w.left = some left → r.id ∈ left

def TaskRow.Quiet (w : Sweep) (r : TaskRow) : Prop := r.groupKey = some w.group → r.QuietIn w

/-- What a call has achieved. -/
def GroupCall.sweep : GroupCall → Option Sweep
  | .marked g => some (.marked g)
  | .swept g => some (.swept g)
  | .draining g left => some (.drained g left)
  | _ => none

/-- The pauses that have returned or have reached the rows. -/
def Groups.Sweeps (σ : Groups) (w : Sweep) : Prop :=
  (∃ g ∈ σ.held, w = .drained g []) ∨ ∃ call ∈ σ.calls, call.sweep = some w

/-- The pause of the group is under way or has returned. -/
def Groups.Pausing (σ : Groups) (g : String) : Prop :=
  g ∈ σ.held ∨ ∃ call ∈ σ.calls, call.isPause = true ∧ call.group = g

/-! ### The steps that do no harm -/

/-- No row with `p` belongs to the group. -/
def Store.Spares (s : Store) (w : Sweep) (p : TaskRow → Prop) : Prop := ∀ r ∈ s.tasks, p r → r.groupKey ≠ some w.group

def RowUpdate.QuietClean (s : Store) (w : Sweep) : RowUpdate → Prop
  | .requeue id => w.pending = false → s.Spares w fun r => r.id = id ∧ r.status = .running
  | .requeueForRetry id _ _ _ => w.pending = false → s.Spares w fun r => r.id = id
  | .pause id reason _ => s.Spares w fun r => r.id = id ∧ (r.pauseReasons ||| reason) &&& .group = 0
  | .resume id _ => w.pending = false → s.Spares w fun r => r.id = id ∧ r.status = .paused
  | .resumeSole sel reason _ =>
    w.pending = false → reason &&& .group ≠ 0 →
      s.Spares w fun r => sel.selects r = true ∧ r.status = .paused ∧ r.pauseReasons = reason
  | .clearBit sel reason =>
    s.Spares w fun r => sel.selects r = true ∧ r.status = .paused ∧ r.pauseReasons &&& ~~~reason &&& .group = 0
  | .pausePendingByTypePrefix like _ =>
    s.Spares w fun r => like r.taskType = true ∧ r.status = .pending ∧ r.pauseReasons &&& .group = 0
  | .setRunningForFinalize id _ => w.left.isSome = true → s.Spares w fun r => r.id = id ∧ r.status = .waiting
  | _ => True

/-- The submission supersedes no task to put one into the group. -/
def TaskSubmission.QuietClean (sha256 : List UInt8 → String) (w : Sweep) (sub : TaskSubmission) (s : Store) : Prop :=
  w.pending = false → sub.onDuplicate = .supersede → sub.groupKey = some w.group →
    ∀ r ∈ s.tasks, r.key ≠ sub.effectiveKey sha256

/-- The completion of `ids` resets no row of the group. -/
def Store.ResetQuiet (s : Store) (w : Sweep) (ids : List Int) : Prop :=
  w.pending = false → s.Spares w fun r => r.id ∈ ids ∧ r.requeue = true

/-- A recovery releases no row of the group. -/
def Store.RecoveryQuiet (s : Store) (w : Sweep) : Prop :=
  s.Spares w fun r =>
    r.status = .blocked ∧ (∀ e ∈ s.taskDeps, e.1 = r.id → e.2 ∉ s.ids) ∧ ∃ e ∈ s.taskDeps, e.2 ∉ s.ids

/-- The step leaves what a pause has achieved. -/
def Action.QuietClean (sha256 : List UInt8 → String) (w : Sweep) (s : Store) : Action → Prop
  | .update u => u.QuietClean s w
  | .submitDirect sub _ => sub.QuietClean sha256 w s
  | .processSubmitBatch skipRequeue batch =>
    Along (fun σ m => (submitOne sha256 m.1 skipRequeue m.2 σ).2)
      (fun σ m => m.1.QuietClean sha256 w σ ∧
        -- a member that fails late leaves its row behind
        (w.pending = false → m.1.groupKey = some w.group → (submitOne sha256 m.1 skipRequeue m.2 σ).1.toBool = true))
      s batch
  | .submitChunk skipRequeue last now chunk =>
    Along (fun s item => (submitItem sha256 skipRequeue last now item s).2)
      (fun s item => last item.1 (item.2.effectiveKey sha256) = true → item.2.QuietClean sha256 w s) s chunk
  | .complete id _ _ => s.ResetQuiet w [id]
  | .completeWithRecord task _ _ => s.ResetQuiet w [task.id]
  | .completeBatch items _ => s.ResetQuiet w (items.map (·.1.id))
  | .fail id _ retryable maxRetries _ _ _ =>
    w.pending = false → s.Spares w fun r =>
      s.taskById id = some r ∧ (rowToTaskRecord r).willRetry retryable maxRetries = true
  | .failWithRecord task _ retryable maxRetries _ _ _ =>
    w.pending = false → task.willRetry retryable maxRetries = true → s.Spares w fun r => r.id = task.id
  | .recoverRunning _ => w.pending = false → s.RecoveryQuiet w ∧ s.Spares w fun r => r.status = .running
  | _ => True

/-- Other steps leave what the pauses have achieved.  Where every running task of the group is in the active map,
the drain reaches all of them.  The other steps of `pause_group` do no harm, and those of `resume_group` do none if
the group is not being paused again. -/
def GroupStep.Clean (sha256 : List UInt8 → String) (σ : Groups) : GroupStep → Prop
  | .store a => (GroupStep.store a).Foreign ∧ ∀ w, σ.Sweeps w → a.QuietClean sha256 w σ.store
  | .pauseGroup g _ _ => σ.store.groupPaused (some g) = true → g ∈ σ.held
  | .drain i =>
    ∀ g, σ.calls[i]? = some (.swept g) → ∀ r ∈ σ.store.tasks, r.groupKey = some g → r.status = .running →
      ∃ task ∈ σ.active, task.id = r.id ∧ task.groupKey = some g
  | .resumeRows i _ | .clearRows i => ∀ call, σ.calls[i]? = some call → ∀ w, σ.Sweeps w → w.group ≠ call.group
  | .deleteState i => ∀ call, σ.calls[i]? = some call → ¬ σ.Pausing call.group
  | .restart _ => ∀ g ∈ σ.held, σ.store.RecoveryQuiet (.drained g [])
  | _ => True

/-- No task of a group whose pause has returned can be dispatched. -/
def Groups.Quiet (σ : Groups) : Prop :=
  ∀ g ∈ σ.held, ∀ r ∈ σ.store.tasks, r.groupKey = some g →
    r.status ≠ .pending ∧ r.status ≠ .running ∧ (r.status = .paused → r.pauseReasons &&& .group ≠ 0)

/-! ### What a step does to the rows of a paused group -/

section Rows

variable {w : Sweep} {r r' : TaskRow} {s : Store}

theorem TaskRow.Quiet.of_same (h : r.Quiet w) (hg : r'.groupKey = r.groupKey) (hid : r'.id = r.id)
    (hst : r'.status = r.status) (hr : r'.pauseReasons = r.pauseReasons) : r'.Quiet w := by
  intro hgroup
  have hin := h (hg.symm.trans hgroup)
  refine ⟨fun hp => hin.pending (hst ▸ hp), fun hp => ?_, fun hrun => ?_⟩
  · rw [hr]
    exact hin.paused (hst ▸ hp)
  · rw [hid]
    exact hin.running (hst ▸ hrun)

theorem TaskRow.Quiet.of_paused (hst : r.status = .paused)
    (hbit : r.groupKey = some w.group → r.pauseReasons &&& .group ≠ 0) : r.Quiet w := by
  intro hgroup
  refine ⟨fun hp => ?_, fun _ => hbit hgroup, fun hrun => ?_⟩
  · rw [hst] at hp
    cases hp
  · rw [hst] at hrun
    cases hrun

/-- A row that is pending is of another group, unless the rows of the group may be pending. -/
theorem TaskRow.Quiet.of_pending (hst : r.status = .pending)
    (hgroup : w.pending = false → r.groupKey ≠ some w.group) : r.Quiet w := by
  intro hg
  refine ⟨fun _ => ?_, fun hp => ?_, fun hrun => ?_⟩
  · by_contra hpend
    exact hgroup (Bool.not_eq_true _ ▸ hpend) hg
  · rw [hst] at hp
    cases hp
  · rw [hst] at hrun
    cases hrun

/-- Blocked and waiting rows are quiet. -/
theorem TaskRow.Quiet.of_idle (hst : r.status = .blocked ∨ r.status = .waiting) : r.Quiet w := by
  intro _
  rcases hst with hst | hst
  · refine ⟨fun h => ?_, fun h => ?_, fun h => ?_⟩ <;> rw [hst] at h <;> cases h
  · refine ⟨fun h => ?_, fun h => ?_, fun h => ?_⟩ <;> rw [hst] at h <;> cases h

theorem PauseReasons.or_group (x : PauseReasons) : (x ||| .group) &&& .group ≠ 0 := by
  rw [BitVec.and_or_distrib_right, BitVec.and_self]
  intro hor
  have hgroup : PauseReasons.group = 0 := (BitVec.or_eq_zero_iff.1 hor).2
  exact absurd hgroup (by decide)

theorem TaskRow.Quiet.pauseFor (r : TaskRow) (now : Int) : (r.pauseFor .group now).Quiet w :=
  .of_paused rfl fun _ => PauseReasons.or_group r.pauseReasons

/-- A claimed row was pending, so its group has not been swept. -/
theorem TaskRow.Quiet.claim (h : r.Quiet w) (hst : r.status = .pending) (now : Int) : (r.claim now).Quiet w := by
  intro hgroup
  refine ⟨nofun, nofun, fun _ left hleft => ?_⟩
  have hpending := (h hgroup).pending hst
  cases w with
  | drained g left' => cases hpending
  | _ => cases hleft

private theorem quiet_update {u : RowUpdate} (hc : u.QuietClean s w) (hr : r ∈ s.tasks) (hq : r.Quiet w)
    (hsel : u.selects r = true) : (u.change r).Quiet w := by
  cases u with
  | requeue id =>
    simp only [RowUpdate.selects, Bool.and_eq_true, beq_iff_eq] at hsel
    exact .of_pending rfl fun hp => hc hp r hr hsel
  | setRunAfter id runAfter => exact hq.of_same rfl rfl rfl rfl
  | incrementRetry id error => exact hq.of_same rfl rfl rfl rfl
  | requeueForRetry id error delay now => exact .of_pending rfl fun hp => hc hp r hr (beq_iff_eq.1 hsel)
  | pause id reason now =>
    refine .of_paused rfl fun hgroup hnone => ?_
    exact hc r hr ⟨beq_iff_eq.1 hsel, hnone⟩ hgroup
  | resume id now =>
    simp only [RowUpdate.selects, Bool.and_eq_true, beq_iff_eq] at hsel
    exact .of_pending rfl fun hp => hc hp r hr hsel
  | resumeSole sel reason now =>
    simp only [RowUpdate.selects, Bool.and_eq_true, beq_iff_eq] at hsel
    refine .of_pending rfl fun hp hgroup => ?_
    -- a paused row of the group has the bit, so it must be the one that is cleared
    have hbit : r.pauseReasons &&& .group ≠ 0 := (hq hgroup).paused hsel.1.2
    rw [hsel.2] at hbit
    exact hc hp hbit r hr ⟨hsel.1.1, hsel.1.2, hsel.2⟩ hgroup
  | clearBit sel reason =>
    simp only [RowUpdate.selects, Bool.and_eq_true, beq_iff_eq] at hsel
    refine .of_paused hsel.1.2 fun hgroup hnone => ?_
    exact hc r hr ⟨hsel.1.1, hsel.1.2, hnone⟩ hgroup
  | addGroupBit group =>
    simp only [RowUpdate.selects, Bool.and_eq_true, beq_iff_eq] at hsel
    exact .of_paused hsel.1.2 fun _ => PauseReasons.or_group r.pauseReasons
  | pausePendingInGroup group now => exact .pauseFor r now
  | pausePendingByTypePrefix like now =>
    simp only [RowUpdate.selects, Bool.and_eq_true, Bool.or_eq_true, beq_iff_eq] at hsel
    refine .of_paused rfl fun hgroup hnone => ?_
    have hclear : r.pauseReasons &&& .group = 0 := by
      rw [← or_and_of_and_eq_zero (show PauseReasons.module &&& .group = 0 by decide)]
      exact hnone
    rcases hsel.2 with hst | hst
    · exact hc r hr ⟨hsel.1, hst, hclear⟩ hgroup
    · exact (hq hgroup).paused hst hclear
  | setWaiting id memo => exact .of_idle (.inr rfl)
  | setRunningForFinalize id now =>
    simp only [RowUpdate.selects, Bool.and_eq_true, beq_iff_eq] at hsel
    intro hgroup
    refine ⟨nofun, nofun, fun _ left hleft => ?_⟩
    exact absurd hgroup (hc (by rw [hleft]; rfl) r hr hsel)
  | setRecurringPaused id paused => exact hq.of_same rfl rfl rfl rfl

private theorem quiet_submission {sha256 : List UInt8 → String} {sub : TaskSubmission} {now : Int}
    (hpaused : s.groupPaused (some w.group) = true) (hs : s.Rows (TaskRow.Quiet w)) (hc : sub.QuietClean sha256 w s) :
    sub.KeepsRows sha256 (TaskRow.Quiet w) now s where
  pending _ hfree := by
    refine .of_pending rfl fun _ hgroup => ?_
    have hkey : sub.groupKey = some w.group := hgroup
    rw [hkey, hpaused] at hfree
    cases hfree
  paused _ _ := .pauseFor _ now
  blocked := .of_idle (.inl rfl)
  upgraded r hr _ _ _ := (hs r hr).of_same rfl rfl rfl rfl
  requeued r hr _ _ := (hs r hr).of_same rfl rfl rfl rfl
  superseded hdup r hr hkey _ := .of_pending rfl fun hp hgroup => hc hp hdup hgroup r hr hkey
  replaced hdup r hr hkey _ := .of_pending rfl fun hp hgroup => hc hp hdup hgroup r hr hkey

/-- While the tasks `ids` complete, the rows that may be reset are of other groups. -/
private def QuietCompleting (w : Sweep) (ids : List Int) (r : TaskRow) : Prop :=
  r.Quiet w ∧ (w.pending = false → r.id ∈ ids → r.requeue = true → r.groupKey ≠ some w.group)

private theorem quiet_completion (hpaused : s.groupPaused (some w.group) = true)
    (tasks : List TaskRecord) (now : Int) :
    CompletionKeepsRows (QuietCompleting w (tasks.map (·.id))) tasks now s where
  reset r hr hid hreq inst _ := ⟨.of_pending rfl fun hp => hr.2 hp hid hreq, nofun⟩
  next task _ interval _ id inst _ := by
    split
    · exact ⟨.pauseFor _ now, nofun⟩
    · rename_i hfree
      refine ⟨.of_pending rfl fun _ hgroup => hfree ?_, nofun⟩
      rw [show task.groupKey = some w.group from hgroup]
      exact hpaused

private theorem quiet_free (hpaused : s.groupPaused (some w.group) = true) (r : TaskRow) (now : Int) :
    (s.freeRow now r).Quiet w := by
  rw [Store.freeRow]
  split
  · exact .pauseFor _ now
  · rename_i hfree
    refine .of_pending rfl fun _ hgroup => hfree ?_
    rw [show r.groupKey = some w.group from hgroup]
    exact hpaused

private theorem quiet_freeing {ids : List Int} {now : Int} (hpaused : s.groupPaused (some w.group) = true) :
    FreeingKeepsRows (QuietCompleting w ids) now s := by
  intro r hr _
  refine ⟨quiet_free hpaused r now, ?_⟩
  have hsame : (s.freeRow now r).id = r.id ∧ (s.freeRow now r).requeue = r.requeue ∧
      (s.freeRow now r).groupKey = r.groupKey := by
    rw [Store.freeRow]
    split
    · exact ⟨rfl, rfl, rfl⟩
    · exact ⟨rfl, rfl, rfl⟩
  rw [hsame.1, hsame.2.1, hsame.2.2]
  exact hr.2

/-- A clean step leaves the rows of a group that is in the table as the pause has left them. -/
theorem Action.quiet_exec (sha256 : List UInt8 → String) (hschema : s.Schema)
    (hpaused : s.groupPaused (some w.group) = true) (hs : s.Rows (TaskRow.Quiet w)) (a : Action)
    (hc : a.QuietClean sha256 w s) : (a.exec sha256 s).Rows (TaskRow.Quiet w) := by
  have hcompleting : ∀ (a : Action) (ids : List Int), s.ResetQuiet w ids →
    a.KeepsRows sha256 (QuietCompleting w ids) s →
      (a.exec sha256 s).Rows (TaskRow.Quiet w) := by
    intro a ids hids hk r hr
    have hrows : s.Rows (QuietCompleting w ids) := fun r hr => ⟨hs r hr, fun hp hid hreq => hids hp r hr ⟨hid, hreq⟩⟩
    exact (a.rows_exec sha256 hschema hrows hk r hr).1
  have hkeeps : ∀ a : Action, a.KeepsRows sha256 (TaskRow.Quiet w) s → (a.exec sha256 s).Rows (TaskRow.Quiet w) :=
    fun a hk => a.rows_exec sha256 hschema hs hk
  have hwithin : ∀ σ, s.Within (TaskRow.Quiet w) σ → σ.groupPaused (some w.group) = true := fun σ hσ =>
    (hσ.groupPaused _).trans hpaused
  have hfree : ∀ now, FreeingKeepsRows (TaskRow.Quiet w) now s := fun now r _ _ => quiet_free hpaused r now
  cases a with
  | complete id metrics now =>
    refine hcompleting _ [id] hc fun row hrow => ?_
    have hid : row.id = id := by simpa using List.find?_some hrow
    rw [← hid]
    exact quiet_completion hpaused [rowToTaskRecord row] now
  | completeWithRecord task metrics now => exact hcompleting _ [task.id] hc (quiet_completion hpaused [task] now)
  | completeBatch items now =>
    have hclean : s.ResetQuiet w (items.map (·.1.id)) := hc
    refine hcompleting _ _ hclean ⟨?_, quiet_freeing hpaused⟩
    have hok := quiet_completion hpaused (items.map (·.1)) now
    rwa [List.map_map] at hok
  | update u => exact hkeeps _ fun r hr hsel => quiet_update hc hr (hs r hr) hsel
  | submitDirect sub now => exact hkeeps _ (quiet_submission hpaused hs hc)
  | processSubmitBatch skipRequeue batch =>
    refine hkeeps _ (Along.mono (fun σ m hclean hσ => ⟨?_, fun hfail => ?_⟩) hc)
    · exact quiet_submission (hwithin σ hσ) hσ.rows hclean.1
    · refine .of_pending rfl fun hp hgroup => ?_
      rw [hclean.2 hp hgroup] at hfail
      cases hfail
  | submitChunk skipRequeue last now chunk =>
    refine hkeeps _ (Along.mono (fun σ item hclean hσ hlast => ?_) hc)
    exact quiet_submission (hwithin σ hσ) hσ.rows (hclean hlast)
  | claimTask id now => exact hkeeps _ fun r hr _ hst => (hs r hr).claim hst now
  | popById id now => exact hkeeps _ fun r hr _ hst => (hs r hr).claim hst now
  | popNextBatch limit aging now =>
    refine hkeeps _ fun r hr hel => (hs r hr).claim ?_ now
    simp only [TaskRow.eligible, TaskRow.due, Bool.and_eq_true, beq_iff_eq] at hel
    exact hel.1.1
  | resolveDependents id now => exact hkeeps _ (hfree now)
  | failDependents id now => exact hkeeps _ (hfree now)
  | fail id error retryable maxRetries metrics backoff now =>
    refine hkeeps _ fun r hrow hretry => .of_pending rfl fun hp => ?_
    exact hc hp r (List.mem_of_find?_eq_some hrow) ⟨hrow, hretry⟩
  | failWithRecord task error retryable maxRetries metrics backoff now =>
    exact hkeeps _ fun hretry r hr hid => .of_pending rfl fun hp => hc hp hretry r hr hid
  | recoverRunning now =>
    refine hkeeps _ ⟨fun r hr hst => ?_, fun r hr hst _ => ?_, fun r hr hst hedges hdangling => ?_⟩
    · exact .of_pending rfl fun hp => (hc hp).2 r hr hst
    · exact (hs r hr).of_same rfl rfl rfl rfl
    · exact .of_pending rfl fun hp => (hc hp).1 r hr ⟨hst, hedges, hdangling⟩
  | failBatch items now => exact hkeeps _ trivial
  | cancelToHistory id now => exact hkeeps _ trivial
  | cancelToHistoryWithRecord task now => exact hkeeps _ trivial
  | cancelChildren parent read now => exact hkeeps _ trivial
  | expireTasks now => exact hkeeps _ trivial
  | expireSingle id now => exact hkeeps _ trivial
  | pauseGroupState group resumeAt now => exact hkeeps _ trivial
  | resumeGroupState group => exact hkeeps _ trivial
  | delete id => exact hkeeps _ trivial
  | deleteHistory historyId => exact hkeeps _ trivial
  | pruneHistoryByAge days now => exact hkeeps _ trivial
  | pruneHistoryByCount keep => exact hkeeps _ trivial
  | maybePrune now => exact hkeeps _ trivial

end Rows

/-! ### Runs -/

private structure Groups.Ok (σ : Groups) : Prop where
  schema : σ.store.Schema
  table : ∀ g, σ.Pausing g → σ.store.groupPaused (some g) = true
  rows : ∀ w, σ.Sweeps w → σ.store.Rows (TaskRow.Quiet w)

section Steps

variable {σ σ' : Groups} {i : Nat} {w : Sweep} {g : String} {call old : GroupCall}

/-- A sweep comes from a call that is pausing its group. -/
private theorem GroupCall.pauses_of_sweep (h : call.sweep = some w) : call.isPause = true ∧ call.group = w.group := by
  cases call with
  | marked g =>
    cases h
    exact ⟨rfl, rfl⟩
  | swept g =>
    cases h
    exact ⟨rfl, rfl⟩
  | draining g left =>
    cases h
    exact ⟨rfl, rfl⟩
  | _ => cases h

private theorem Groups.Sweeps.pausing (h : σ.Sweeps w) : σ.Pausing w.group := by
  rcases h with ⟨g, hg, rfl⟩ | ⟨call, hcall, hw⟩
  · exact .inl hg
  · exact .inr ⟨call, hcall, GroupCall.pauses_of_sweep hw⟩

private theorem Groups.Sweeps.of_set (h : σ'.Sweeps w) (hcalls : σ'.calls = σ.calls.set i call)
    (hheld : σ'.held = σ.held) :
    σ.Sweeps w ∨ call.sweep = some w := by
  unfold Groups.Sweeps at h
  rw [hheld, hcalls] at h
  rcases h with h | ⟨c, hc, hw⟩
  · exact .inl (.inl h)
  · rcases List.mem_or_eq_of_mem_set hc with hc | rfl
    · exact .inl (.inr ⟨c, hc, hw⟩)
    · exact .inr hw

private theorem Groups.Pausing.of_set (h : σ'.Pausing g) (hcalls : σ'.calls = σ.calls.set i call)
    (hheld : σ'.held = σ.held) (hi : σ.calls[i]? = some old)
    (hold : call.isPause = true → old.isPause = true) (hgroup : call.group = old.group) : σ.Pausing g := by
  unfold Groups.Pausing at h
  rw [hheld, hcalls] at h
  rcases h with h | ⟨c, hc, hp, rfl⟩
  · exact .inl h
  · rcases List.mem_or_eq_of_mem_set hc with hc | rfl
    · exact .inr ⟨c, hc, hp, rfl⟩
    · exact .inr ⟨old, List.mem_of_getElem? hi, hold hp, hgroup.symm⟩

private theorem Groups.Ok.sweep (h : σ.Ok) (hi : σ.calls[i]? = some old) (hw : old.sweep = some w) :
    σ.store.Rows (TaskRow.Quiet w) := h.rows w (.inr ⟨old, List.mem_of_getElem? hi, hw⟩)

/-- A call goes on with an `UPDATE` that does no harm. -/
private theorem ok_update (h : σ.Ok) {u : RowUpdate} (hi : σ.calls[i]? = some old)
    (hold : call.isPause = true → old.isPause = true) (hgroup : call.group = old.group)
    (hclean : ∀ w, σ.Sweeps w → u.QuietClean σ.store w)
    (hnew : ∀ w, call.sweep = some w → (u.exec σ.store).Rows (TaskRow.Quiet w)) :
    Groups.Ok { σ.set i call with store := u.exec σ.store } := by
  have hexec : ∀ w, σ.Sweeps w → (u.exec σ.store).Rows (TaskRow.Quiet w) := by
    intro w hw
    exact (Action.update u).quiet_exec (fun _ => "") h.schema (h.table _ hw.pausing) (h.rows w hw) (hclean w hw)
  refine ⟨h.schema.steps ((Action.update u).steps (fun _ => "") σ.store), fun g hg => ?_, fun w hw => ?_⟩
  · exact (Action.update u).groupPaused_exec (fun _ => "")
      (h.table g (Groups.Pausing.of_set hg rfl rfl hi hold hgroup)) nofun
  · rcases Groups.Sweeps.of_set hw rfl rfl with hw | hw
    · exact hexec w hw
    · exact hnew w hw

private theorem ok_mark (h : σ.Ok) (hi : σ.calls[i]? = some (.recorded g)) :
    Groups.Ok { σ.set i (.marked g) with store := σ.store.addGroupBit g } := by
  refine ok_update h (u := .addGroupBit g) hi (fun _ => rfl) rfl (fun _ _ => trivial) fun w hw => ?_
  cases hw
  intro r' hr'
  obtain ⟨r, hr, rfl⟩ := List.mem_map.1 hr'
  split
  · rename_i hsel
    simp only [Bool.and_eq_true, beq_iff_eq] at hsel
    exact .of_paused hsel.1.2 fun _ => PauseReasons.or_group r.pauseReasons
  · rename_i hsel
    intro hgroup
    refine ⟨fun _ => rfl, fun hst hnone => hsel ?_, fun _ _ hleft => by cases hleft⟩
    simp [show r.groupKey = some g from hgroup, hst, hnone]

private theorem ok_sweep (h : σ.Ok) (hi : σ.calls[i]? = some (.marked g)) (now : Int) :
    Groups.Ok { σ.set i (.swept g) with store := σ.store.pausePendingInGroup g now } := by
  refine ok_update h (u := .pausePendingInGroup g now) hi (fun _ => rfl) rfl (fun _ _ => trivial) fun w hw => ?_
  cases hw
  have hmarked : σ.store.Rows (TaskRow.Quiet (.marked g)) := h.sweep hi rfl
  intro r' hr'
  obtain ⟨r, hr, rfl⟩ := List.mem_map.1 hr'
  split
  · exact .pauseFor r now
  · rename_i hsel
    intro hgroup
    refine ⟨fun hst => absurd ?_ hsel, (hmarked r hr hgroup).paused, fun _ _ hleft => by cases hleft⟩
    simp [show r.groupKey = some g from hgroup, hst]

private theorem ok_drain {sha256 : List UInt8 → String} (h : σ.Ok) (hi : σ.calls[i]? = some (.swept g))
    (hc : (GroupStep.drain i).Clean sha256 σ) {active : ActiveTaskMap} :
    Groups.Ok { σ.set i (.draining g ((σ.active.filter fun task => task.groupKey == some g).map (·.id))) with
      active := active } := by
  refine ⟨h.schema, fun g' hg => h.table g' (Groups.Pausing.of_set hg rfl rfl hi (fun _ => rfl) rfl), fun w hw => ?_⟩
  rcases Groups.Sweeps.of_set hw rfl rfl with hw | hw
  · exact h.rows w hw
  · cases hw
    have hswept : σ.store.Rows (TaskRow.Quiet (.swept g)) := h.sweep hi rfl
    intro r hr hgroup
    refine ⟨(hswept r hr hgroup).pending, (hswept r hr hgroup).paused, fun hst left hleft => ?_⟩
    cases hleft
    obtain ⟨task, htask, hid, hkey⟩ := hc g hi r hr hgroup hst
    exact List.mem_map.2 ⟨task, List.mem_filter.2 ⟨htask, by rw [hkey]; exact beq_self_eq_true _⟩, hid⟩

private theorem ok_pauseRow {left : List Int} (h : σ.Ok) (hi : σ.calls[i]? = some (.draining g left)) (id now : Int) :
    Groups.Ok { σ.set i (.draining g (left.erase id)) with store := σ.store.pause id .group now } := by
  refine ok_update h (u := .pause id .group now) hi (fun _ => rfl) rfl (fun w hw r hr hsel => ?_) fun w hw => ?_
  · exact absurd hsel.2 (PauseReasons.or_group r.pauseReasons)
  · cases hw
    have hdraining : σ.store.Rows (TaskRow.Quiet (.drained g left)) := h.sweep hi rfl
    intro r' hr'
    obtain ⟨r, hr, rfl⟩ := List.mem_map.1 hr'
    split
    · exact .of_paused rfl fun _ => PauseReasons.or_group r.pauseReasons
    · rename_i hid
      intro hgroup
      refine ⟨(hdraining r hr hgroup).pending, (hdraining r hr hgroup).paused, fun hst left' hleft => ?_⟩
      cases hleft
      have hmem : r.id ∈ left := (hdraining r hr hgroup).running hst left rfl
      refine (List.mem_erase_of_ne ?_).2 hmem
      simpa using hid

private theorem groups_restart {sha256 : List UInt8 → String} {now : Int} (h : σ.Ok)
    (hc : (GroupStep.restart now).Clean sha256 σ) :
    ((GroupStep.restart now).exec sha256 σ).Ok := by
  refine ⟨h.schema.steps ((Action.recoverRunning now).steps sha256 σ.store), fun g hg => ?_, fun w hw => ?_⟩
  · rcases hg with hg | ⟨call, hcall, _⟩
    · exact (Action.recoverRunning now).groupPaused_exec sha256 (h.table g (.inl hg)) nofun
    · cases hcall
  · rcases hw with ⟨g, hg, rfl⟩ | ⟨call, hcall, _⟩
    · have hrows := h.rows (.drained g []) (.inl ⟨g, hg, rfl⟩)
      refine (Action.recoverRunning now).quiet_exec sha256 (w := .drained g []) h.schema (h.table g (.inl hg)) hrows
        fun _ => ⟨hc g hg, ?_⟩
      -- there is no running row that the recovery would reset
      intro r hr hst hgroup
      exact List.not_mem_nil ((hrows r hr hgroup).running hst [] rfl)
    · cases hcall

end Steps

private theorem groups_exec (sha256 : List UInt8 → String) {σ : Groups} (h : σ.Ok) (st : GroupStep)
    (hc : st.Clean sha256 σ) :
    (st.exec sha256 σ).Ok := by
  cases st with
  | store a =>
    refine ⟨h.schema.steps (a.steps sha256 σ.store), fun g hg => ?_, fun w hw => ?_⟩
    · refine a.groupPaused_exec sha256 (h.table g hg) fun ha => ?_
      have hforeign : a.ofGroups = false := hc.1
      rw [ha] at hforeign
      cases hforeign
    · exact a.quiet_exec sha256 h.schema (h.table _ (Groups.Sweeps.pausing hw)) (h.rows w hw) (hc.2 w hw)
  | spawn task => exact ⟨h.schema, h.table, h.rows⟩
  | remove id => exact ⟨h.schema, h.table, h.rows⟩
  | pauseGroup g resumeAt now =>
    rw [GroupStep.exec]
    split
    · rename_i hin
      have hheld : ∀ g' ∈ g :: σ.held, g' ∈ σ.held := by
        intro g' hg'
        rcases List.mem_cons.1 hg' with rfl | hg'
        · exact hc hin
        · exact hg'
      refine ⟨h.schema, fun g' hg' => h.table g' (hg'.imp_left (hheld g')), fun w hw => h.rows w (hw.imp_left ?_)⟩
      rintro ⟨g', hg', rfl⟩
      exact ⟨g', hheld g' hg', rfl⟩
    · refine ⟨h.schema.steps ((Action.pauseGroupState g resumeAt now).steps sha256 σ.store), fun g' hg' => ?_,
        fun w hw => ?_⟩
      · show (σ.store.pauseGroupState g resumeAt now).groupPaused (some g') = true
        rw [Store.groupPaused_pauseGroupState, Bool.or_eq_true]
        rcases hg' with hg' | ⟨call, hcall, hp, rfl⟩
        · exact .inl (h.table g' (.inl hg'))
        · rcases List.mem_append.1 hcall with hcall | hcall
          · exact .inl (h.table _ (.inr ⟨call, hcall, hp, rfl⟩))
          · rw [List.mem_singleton.1 hcall]
            exact .inr (beq_self_eq_true _)
      · have hold : σ.Sweeps w := by
          refine hw.imp_right ?_
          rintro ⟨call, hcall, hsweep⟩
          rcases List.mem_append.1 hcall with hcall | hcall
          · exact ⟨call, hcall, hsweep⟩
          · rw [List.mem_singleton.1 hcall] at hsweep
            cases hsweep
        exact (Action.pauseGroupState g resumeAt now).quiet_exec sha256 h.schema (h.table _ hold.pausing)
          (h.rows w hold) trivial
  | record i =>
    rw [GroupStep.exec]
    split
    · rename_i g hi
      refine ⟨h.schema, fun g' hg => h.table g' (Groups.Pausing.of_set hg rfl rfl hi (fun _ => rfl) rfl),
        fun w hw => ?_⟩
      rcases Groups.Sweeps.of_set hw rfl rfl with hw | hw
      · exact h.rows w hw
      · cases hw
    · exact h
  | mark i =>
    rw [GroupStep.exec]
    split
    · rename_i g hi
      exact ok_mark h hi
    · exact h
  | sweep i now =>
    rw [GroupStep.exec]
    split
    · rename_i g hi
      exact ok_sweep h hi now
    · exact h
  | drain i =>
    rw [GroupStep.exec]
    split
    · rename_i g hi
      exact ok_drain h hi hc
    · exact h
  | pauseRow i id now =>
    rw [GroupStep.exec]
    split
    · rename_i g left hi
      split
      · exact ok_pauseRow h hi id now
      · exact h
    · exact h
  | returnPaused i =>
    rw [GroupStep.exec]
    split
    · rename_i g hi
      have hcall : ∀ call ∈ σ.calls.eraseIdx i, call ∈ σ.calls := fun call hcall => List.mem_of_mem_eraseIdx hcall
      have hdrained : σ.Sweeps (.drained g []) := .inr ⟨_, List.mem_of_getElem? hi, rfl⟩
      refine ⟨h.schema, fun g' hg' => ?_, fun w hw => ?_⟩
      · rcases hg' with hg' | ⟨call, hin, hp⟩
        · rcases List.mem_cons.1 hg' with rfl | hg'
          · exact h.table _ hdrained.pausing
          · exact h.table g' (.inl hg')
        · exact h.table g' (.inr ⟨call, hcall call hin, hp⟩)
      · rcases hw with ⟨g', hg', rfl⟩ | ⟨call, hin, hsweep⟩
        · rcases List.mem_cons.1 hg' with rfl | hg'
          · exact h.rows _ hdrained
          · exact h.rows _ (.inl ⟨g', hg', rfl⟩)
        · exact h.rows w (.inr ⟨call, hcall call hin, hsweep⟩)
    · exact h
  | resumeGroup g =>
    have hheld : ∀ g' ∈ σ.held.filter (· != g), g' ∈ σ.held := fun g' hg' => List.mem_of_mem_filter hg'
    have hok : Groups.Ok { σ with held := σ.held.filter (· != g) } := by
      refine ⟨h.schema, fun g' hg' => h.table g' (hg'.imp_left (hheld g')), fun w hw => h.rows w (hw.imp_left ?_)⟩
      rintro ⟨g', hg', rfl⟩
      exact ⟨g', hheld g' hg', rfl⟩
    rw [GroupStep.exec]
    split
    · -- a resume is no pause
      refine ⟨hok.schema, fun g' hg' => hok.table g' (hg'.imp_right ?_), fun w hw => hok.rows w (hw.imp_right ?_)⟩
      · rintro ⟨call, hcall, hp, hgroup⟩
        rcases List.mem_append.1 hcall with hcall | hcall
        · exact ⟨call, hcall, hp, hgroup⟩
        · rw [List.mem_singleton.1 hcall] at hp
          cases hp
      · rintro ⟨call, hcall, hsweep⟩
        rcases List.mem_append.1 hcall with hcall | hcall
        · exact ⟨call, hcall, hsweep⟩
        · rw [List.mem_singleton.1 hcall] at hsweep
          cases hsweep
    · exact hok
  | resumeRows i now =>
    rw [GroupStep.exec]
    split
    · rename_i g hi
      refine ok_update h (u := .resumeSole (.group g) .group now) hi nofun rfl
        (fun w hw _ _ r _ hsel hgroup => ?_) nofun
      refine hc _ hi w hw ?_
      rw [beq_iff_eq.1 hsel.1] at hgroup
      exact (Option.some.inj hgroup).symm
    · exact h
  | clearRows i =>
    rw [GroupStep.exec]
    split
    · rename_i g hi
      refine ok_update h (u := .clearBit (.group g) .group) hi nofun rfl (fun w hw r _ hsel hgroup => ?_) nofun
      refine hc _ hi w hw ?_
      rw [beq_iff_eq.1 hsel.1] at hgroup
      exact (Option.some.inj hgroup).symm
    · exact h
  | deleteState i =>
    rw [GroupStep.exec]
    split
    · rename_i g hi
      have hold : ∀ g', Groups.Pausing { σ.set i (.deleted g) with store := σ.store.resumeGroupState g } g' →
          σ.Pausing g' :=
        fun g' hg' => Groups.Pausing.of_set hg' rfl rfl hi nofun rfl
      refine ⟨h.schema.steps ((Action.resumeGroupState g).steps sha256 σ.store), fun g' hg' => ?_, fun w hw => ?_⟩
      · refine (Action.resumeGroupState g).groupPaused_exec sha256 (h.table g' (hold g' hg')) fun heq => ?_
        cases heq
        exact hc _ hi (hold _ hg')
      · rcases Groups.Sweeps.of_set hw rfl rfl with hw | hw
        · exact (h.rows w hw).congr rfl
        · cases hw
    · exact h
  | forget i =>
    rw [GroupStep.exec]
    split
    · have hcall : ∀ call ∈ σ.calls.eraseIdx i, call ∈ σ.calls := fun call hcall => List.mem_of_mem_eraseIdx hcall
      refine ⟨h.schema, fun g' hg' => h.table g' (hg'.imp_right ?_), fun w hw => h.rows w (hw.imp_right ?_)⟩
      · rintro ⟨call, hin, hp⟩
        exact ⟨call, hcall call hin, hp⟩
      · rintro ⟨call, hin, hsweep⟩
        exact ⟨call, hcall call hin, hsweep⟩
    · exact h
  | restart now => exact groups_restart h hc

/-- In every state of a run of clean steps the groups whose pause has returned are quiet. -/
theorem paused_groups_quiet (sha256 : List UInt8 → String) (σ : Groups)
    (h : Runs Groups.Fresh (fun σ (a : GroupStep) => a.exec sha256 σ) (fun σ a => a.Clean sha256 σ) σ) : σ.Quiet := by
  have hok : σ.Ok := by
    refine Runs.invariant (I := Groups.Ok) h (fun σ hfresh => ⟨hfresh.store.schema, fun g hg => ?_, fun w hw => ?_⟩)
      fun σ st hσ hc => groups_exec sha256 hσ st hc
    · rcases hg with hg | ⟨call, hcall, _⟩
      · rw [hfresh.held] at hg
        cases hg
      · rw [hfresh.calls] at hcall
        cases hcall
    · intro r hr
      rw [hfresh.store.tasks] at hr
      cases hr
  intro g hg r hr hgroup
  have hin := hok.rows (.drained g []) (.inl ⟨g, hg, rfl⟩) r hr hgroup
  refine ⟨fun hst => ?_, fun hst => ?_, hin.paused⟩
  · cases hin.pending hst
  · exact List.not_mem_nil (hin.running hst [] rfl)

private def inGroup (taskType : String) : TaskSubmission := { TaskSubmission.new taskType with groupKey := some "g" }

/-- A running task and a pending one are paused with their group, and a third one is submitted. -/
private def quietRun : List GroupStep :=
  [.store (.submitDirect (inGroup "a") 0), .store (.popNextBatch 1 none 0),
    .spawn { dispatchedA with groupKey := some "g" },
    .store (.submitDirect (inGroup "b") 0), .pauseGroup "g" none 0, .record 0, .mark 0, .sweep 0 0, .drain 0,
    .pauseRow 0 1 0, .returnPaused 0, .store (.submitDirect (inGroup "c") 0)]

/-- Submissions that replace nothing and claims do no harm. -/
private theorem clean_submit (σ : Groups) (taskType : String) (now : Int) :
    (GroupStep.store (.submitDirect (inGroup taskType) now)).Clean sampleSha256 σ :=
  ⟨rfl, fun _ _ _ hdup => by cases hdup⟩

theorem quietRun_quiet :
    (groupsState quietRun).held = ["g"] ∧
      (groupsState quietRun).store.tasks.map (fun r => (r.status, r.pauseReasons)) =
        [(.paused, .group), (.paused, .group), (.paused, .group)] ∧
      (groupsState quietRun).Quiet := by
  refine ⟨by decide +kernel, by decide +kernel, paused_groups_quiet sampleSha256 _ ?_⟩
  refine Runs.list (.start groupsState_fresh) quietRun ⟨clean_submit _ _ _, ⟨rfl, fun _ _ => trivial⟩, trivial,
    clean_submit _ _ _, ?_, trivial, trivial, trivial, ?_, trivial, trivial, clean_submit _ _ _, trivial⟩
  · intro hpaused
    exact absurd hpaused (by decide +kernel)
  · -- the running task is in the active map
    intro g _ r hr hgroup hst
    have hactive : ∀ r ∈ (groupsState (quietRun.take 8)).store.tasks, r.status = .running →
        ∃ task ∈ (groupsState (quietRun.take 8)).active, task.id = r.id ∧ task.groupKey = r.groupKey := by
          decide +kernel
    obtain ⟨task, htask, hid, hkey⟩ := hactive r hr hst
    exact ⟨task, htask, hid, hkey.trans hgroup⟩

/-- A task is claimed, and its group is paused before the execution is in the active map. -/
private def unspawnedRun : List GroupStep :=
  [.store (.submitDirect (inGroup "a") 0), .store (.popNextBatch 1 none 0), .pauseGroup "g" none 0,
    .record 0, .mark 0, .sweep 0 0, .drain 0, .returnPaused 0]

theorem unspawned_not_quiet :
    ¬ ∀ σ, Runs Groups.Fresh (fun σ (a : GroupStep) => a.exec sampleSha256 σ) (fun _ a => a.Foreign) σ → σ.Quiet := by
  intro h
  have hrun : Runs Groups.Fresh (fun σ (a : GroupStep) => a.exec sampleSha256 σ) (fun _ a => a.Foreign)
      (groupsState unspawnedRun) := by
    refine Runs.list (.start groupsState_fresh) unspawnedRun ?_
    repeat' constructor
  have hheld : "g" ∈ (groupsState unspawnedRun).held := by decide +kernel
  obtain ⟨r, hr, hgroup, hst⟩ : ∃ r ∈ (groupsState unspawnedRun).store.tasks,
      r.groupKey = some "g" ∧ r.status = .running := by decide +kernel
  exact (h _ hrun "g" hheld r hr hgroup).2.1 hst

end Taskmill
