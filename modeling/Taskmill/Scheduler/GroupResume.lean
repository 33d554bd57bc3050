import Taskmill.Scheduler.Bits
import Taskmill.Scheduler.Groups
import Taskmill.Transact.Calls

/-!
# Resumed groups leave nothing behind

When no pause or resume of a group is under way, its rows are to have the GROUP bit only if the group is in the
table, and the table and the set in memory are to agree on it.  A `resume_group` first takes the bit from the rows
and then the group from the table.  Whatever reads the table in between, a submission, the next instance of a
recurring task or the release of dependents, gives the bit to a row once more, and nothing takes it away again.
-/

namespace Taskmill

open Transact

/-- If the row has the GROUP bit, its group has `M`. -/
def TaskRow.GroupBitOn (M : String → Prop) (r : TaskRow) : Prop :=
  ∀ g, r.groupKey = some g → r.pauseReasons &&& .group ≠ 0 → M g

/-- A `resume_group` has cleared the rows of the group and the group is still in the table. -/
def Groups.Closing (σ : Groups) (g : String) : Prop := .cleared g ∈ σ.calls

/-- The groups whose rows may have the GROUP bit. -/
def Groups.Marks (σ : Groups) (g : String) : Prop := σ.store.groupPaused (some g) = true ∧ ¬ σ.Closing g

/-! ### The steps that leave nothing behind -/

/-- The submission lands in no group that is closing, and takes no row with the GROUP bit to a group that is closing
or not paused. -/
structure TaskSubmission.BitClean (sha256 : List UInt8 → String) (closing : String → Prop) (sub : TaskSubmission)
    (now : Int) (s : Store) : Prop where
  fresh : sub.Lands sha256 now s → ∀ g, sub.groupKey = some g → ¬ closing g
  superseded : sub.onDuplicate = .supersede → ∀ r ∈ s.tasks, r.key = sub.effectiveKey sha256 →
    r.pauseReasons &&& .group ≠ 0 → ∀ g, sub.groupKey = some g → s.groupPaused (some g) = true ∧ ¬ closing g

/-- No recurring task among `tasks` is of a group that is closing. -/
def NextClean (closing : String → Prop) (tasks : List TaskRecord) : Prop :=
  ∀ task ∈ tasks, task.recurs.isSome = true → ∀ g, task.groupKey = some g → ¬ closing g

/-- No row of a group that is closing waits for a dependency. -/
def Store.FreeingClean (s : Store) (closing : String → Prop) : Prop :=
  ∀ r ∈ s.tasks, r.status = .blocked → ∀ g, r.groupKey = some g → ¬ closing g

/-- The step gives the GROUP bit to no row of a group that is closing. -/
def Action.BitClean (sha256 : List UInt8 → String) (closing : String → Prop) (s : Store) : Action → Prop
  | .submitDirect sub now => sub.BitClean sha256 closing now s
  | .processSubmitBatch skipRequeue batch =>
    Along (fun σ m => (submitOne sha256 m.1 skipRequeue m.2 σ).2)
      (fun σ m => m.1.BitClean sha256 closing m.2 σ) s batch
  | .submitChunk skipRequeue last now chunk =>
    Along (fun s item => (submitItem sha256 skipRequeue last now item s).2)
      (fun s item => last item.1 (item.2.effectiveKey sha256) = true → item.2.BitClean sha256 closing now s) s chunk
  | .complete id _ _ => ∀ r, s.taskById id = some r → NextClean closing [rowToTaskRecord r]
  | .completeWithRecord task _ _ => NextClean closing [task]
  | .completeBatch items _ => NextClean closing (items.map (·.1)) ∧ s.FreeingClean closing
  | .resolveDependents _ _ | .failDependents _ _ => s.FreeingClean closing
  | _ => True

/-- Other steps give no bit to a group that is closing.  A pause does not mark the rows of such a group, nor one of
a group that is not paused; where a resume clears the rows of its group, those with the bit are paused; it takes the
group from the table only if no pause of it is under way, and from memory only if the group has not been paused
again. -/
def GroupStep.BitClean (sha256 : List UInt8 → String) (σ : Groups) : GroupStep → Prop
  | .store a => (GroupStep.store a).Foreign ∧ a.BitClean sha256 σ.Closing σ.store
  | .mark i | .sweep i _ => ∀ call, σ.calls[i]? = some call → ¬ σ.Closing call.group
  | .pauseRow _ id _ => ∀ r ∈ σ.store.tasks, r.id = id → ∀ g, r.groupKey = some g → σ.Marks g
  | .clearRows i =>
    ∀ call, σ.calls[i]? = some call → ∀ r ∈ σ.store.tasks, r.groupKey = some call.group →
      r.pauseReasons &&& .group ≠ 0 → r.status = .paused
  | .deleteState i =>
    ∀ call, σ.calls[i]? = some call → ∀ other ∈ σ.calls, other.isPause = true → other.group ≠ call.group
  | .forget i => ∀ call, σ.calls[i]? = some call → σ.store.groupPaused (some call.group) = false
  | _ => True

/-- Where no call is under way for a group, the rows, the table and the memory agree on whether it is paused. -/
def Groups.Agree (σ : Groups) : Prop :=
  ∀ g, (∀ call ∈ σ.calls, call.group ≠ g) →
    (∀ r ∈ σ.store.tasks, r.groupKey = some g → r.pauseReasons &&& .group ≠ 0 → σ.store.groupPaused (some g) = true) ∧
    (σ.store.groupPaused (some g) = true ↔ g ∈ σ.pausedGroups)

/-! ### What a step does to the bit -/

section Rows

variable {M closing : String → Prop} {r r' : TaskRow} {s : Store}

theorem TaskRow.GroupBitOn.of_le (h : r.GroupBitOn M) (hg : r'.groupKey = r.groupKey)
    (hb : r'.pauseReasons &&& .group ≠ 0 → r.pauseReasons &&& .group ≠ 0) : r'.GroupBitOn M := by
  intro g hgroup hbit
  rw [hg] at hgroup
  exact h g hgroup (hb hbit)

theorem TaskRow.GroupBitOn.of_same (h : r.GroupBitOn M) (hg : r'.groupKey = r.groupKey)
    (hr : r'.pauseReasons = r.pauseReasons) : r'.GroupBitOn M :=
  h.of_le hg (by rw [hr]; exact fun hb => hb)

theorem TaskRow.GroupBitOn.of_none (hr : r.pauseReasons = .none) : r.GroupBitOn M := by
  intro g _ hbit
  rw [hr] at hbit
  exact absurd BitVec.zero_and hbit

theorem TaskRow.GroupBitOn.of_group (hM : ∀ g, r.groupKey = some g → M g) : r.GroupBitOn M := fun g hg _ => hM g hg

private theorem bit_update {u : RowUpdate} (hu : (Action.update u).ofGroups = false) (h : r.GroupBitOn M) :
    (u.change r).GroupBitOn M := by
  cases u with
  | pause id reason now =>
    have hreason : reason &&& .group = 0 := by simpa [Action.ofGroups] using hu
    refine h.of_le rfl fun hbit => ?_
    rw [← or_and_of_and_eq_zero hreason]
    exact hbit
  | pausePendingByTypePrefix like now =>
    refine h.of_le rfl fun hbit => ?_
    rw [← or_and_of_and_eq_zero (show PauseReasons.module &&& .group = 0 by decide)]
    exact hbit
  | resume id now => exact .of_none rfl
  | resumeSole sel reason now => exact .of_none rfl
  | clearBit sel reason => exact h.of_le rfl and_not_and
  | addGroupBit group => cases hu
  | pausePendingInGroup group now => cases hu
  | requeue id => exact h.of_same rfl rfl
  | setRunAfter id runAfter => exact h.of_same rfl rfl
  | incrementRetry id error => exact h.of_same rfl rfl
  | requeueForRetry id error delay now => exact h.of_same rfl rfl
  | setWaiting id memo => exact h.of_same rfl rfl
  | setRunningForFinalize id now => exact h.of_same rfl rfl
  | setRecurringPaused id paused => exact h.of_same rfl rfl

/-- The groups in the table that are not closing. -/
private def Open (closing : String → Prop) (s : Store) (g : String) : Prop :=
  s.groupPaused (some g) = true ∧ ¬ closing g

private theorem bit_submission {sha256 : List UInt8 → String} {sub : TaskSubmission} {now : Int} {s₀ : Store}
    (hgroups : ∀ group, s.groupPaused group = s₀.groupPaused group)
    (hs : s.Rows (TaskRow.GroupBitOn (Open closing s₀))) (hc : sub.BitClean sha256 closing now s) :
    sub.KeepsRows sha256 (TaskRow.GroupBitOn (Open closing s₀)) now s where
  pending _ _ := .of_none rfl
  paused hlands hpaused := by
    refine .of_group fun g hg => ⟨?_, hc.fresh hlands g hg⟩
    rw [← hgroups, ← show sub.groupKey = some g from hg]
    exact hpaused
  blocked := .of_none rfl
  upgraded r hr _ _ _ := (hs r hr).of_same rfl rfl
  requeued r hr _ _ := (hs r hr).of_same rfl rfl
  superseded hdup r hr hkey _ := by
    intro g hg hbit
    rw [Open, ← hgroups]
    exact hc.superseded hdup r hr hkey hbit g hg
  replaced _ _ _ _ _ := .of_none rfl

/-- While dependents are released, no row that waits is of a group that is closing. -/
private def BitFreeing (closing : String → Prop) (s : Store) (r : TaskRow) : Prop :=
  r.GroupBitOn (Open closing s) ∧ (r.status = .blocked → ∀ g, r.groupKey = some g → ¬ closing g)

private theorem bit_completion {tasks : List TaskRecord} (hnext : NextClean closing tasks) (now : Int) :
    CompletionKeepsRows (TaskRow.GroupBitOn (Open closing s)) tasks now s where
  reset r hr _ _ inst _ := hr.of_same rfl rfl
  next task htask interval hrec id inst _ := by
    split
    · rename_i hpaused
      refine .of_group fun g hg => ⟨?_, hnext task htask (by rw [hrec]; rfl) g hg⟩
      rw [← show task.groupKey = some g from hg]
      exact hpaused
    · exact .of_none rfl

private theorem bitFreeing_completion {tasks : List TaskRecord} (hnext : NextClean closing tasks) (now : Int) :
    CompletionKeepsRows (BitFreeing closing s) tasks now s where
  reset r hr hid hreq inst hinst := ⟨(bit_completion hnext now).reset r hr.1 hid hreq inst hinst, nofun⟩
  next task htask interval hrec id inst hinst := by
    refine ⟨(bit_completion hnext now).next task htask interval hrec id inst hinst, ?_⟩
    split
    · exact nofun
    · exact nofun

private theorem bitFreeing_freeing (now : Int) : FreeingKeepsRows (BitFreeing closing s) now s := by
  intro r hr hst
  rw [Store.freeRow]
  split
  · rename_i hpaused
    refine ⟨.of_group fun g hg => ⟨?_, hr.2 hst g hg⟩, by rintro ⟨⟩⟩
    rw [← show r.groupKey = some g from hg]
    exact hpaused
  · exact ⟨hr.1.of_same rfl rfl, by rintro ⟨⟩⟩

/-- A clean step gives the GROUP bit to rows of open groups only. -/
private theorem bits_exec (sha256 : List UInt8 → String) (hschema : s.Schema)
    (hs : s.Rows (TaskRow.GroupBitOn (Open closing s))) (a : Action) (hforeign : a.ofGroups = false)
    (hc : a.BitClean sha256 closing s) : (a.exec sha256 s).Rows (TaskRow.GroupBitOn (Open closing s)) := by
  have hkeeps : ∀ a : Action, a.KeepsRows sha256 (TaskRow.GroupBitOn (Open closing s)) s →
      (a.exec sha256 s).Rows (TaskRow.GroupBitOn (Open closing s)) := fun a hk => a.rows_exec sha256 hschema hs hk
  have hfreeing : ∀ a : Action, s.FreeingClean closing → a.KeepsRows sha256 (BitFreeing closing s) s →
      (a.exec sha256 s).Rows (TaskRow.GroupBitOn (Open closing s)) := by
    intro a hclean hk r hr
    have hrows : s.Rows (BitFreeing closing s) := fun r hr => ⟨hs r hr, hclean r hr⟩
    exact (a.rows_exec sha256 hschema hrows hk r hr).1
  cases a with
  | update u => exact hkeeps _ fun r hr _ => bit_update hforeign (hs r hr)
  | submitDirect sub now => exact hkeeps _ (bit_submission (fun _ => rfl) hs hc)
  | processSubmitBatch skipRequeue batch =>
    refine hkeeps _ (Along.mono (fun σ m hclean hσ => ⟨?_, fun _ => .of_none rfl⟩) hc)
    exact bit_submission hσ.groupPaused hσ.rows hclean
  | submitChunk skipRequeue last now chunk =>
    exact hkeeps _ (Along.mono (fun σ item hclean hσ hlast => bit_submission hσ.groupPaused hσ.rows (hclean hlast))
      hc)
  | claimTask id now => exact hkeeps _ fun r hr _ _ => (hs r hr).of_same rfl rfl
  | popById id now => exact hkeeps _ fun r hr _ _ => (hs r hr).of_same rfl rfl
  | popNextBatch limit aging now => exact hkeeps _ fun r hr _ => (hs r hr).of_same rfl rfl
  | complete id metrics now => exact hkeeps _ fun row hrow => bit_completion (hc row hrow) now
  | completeWithRecord task metrics now => exact hkeeps _ (bit_completion hc now)
  | completeBatch items now => exact hfreeing _ hc.2 ⟨bitFreeing_completion hc.1 now, bitFreeing_freeing now⟩
  | resolveDependents id now => exact hfreeing _ hc (bitFreeing_freeing now)
  | failDependents id now => exact hfreeing _ hc (bitFreeing_freeing now)
  | fail id error retryable maxRetries metrics backoff now =>
    refine hkeeps _ fun r hrow _ => ?_
    exact (hs r (List.mem_of_find?_eq_some hrow)).of_same rfl rfl
  | failWithRecord task error retryable maxRetries metrics backoff now =>
    exact hkeeps _ fun _ r hr _ => (hs r hr).of_same rfl rfl
  | recoverRunning now => cases hforeign
  | pauseGroupState group resumeAt now => cases hforeign
  | resumeGroupState group => cases hforeign
  | failBatch items now => exact hkeeps _ trivial
  | cancelToHistory id now => exact hkeeps _ trivial
  | cancelToHistoryWithRecord task now => exact hkeeps _ trivial
  | cancelChildren parent read now => exact hkeeps _ trivial
  | expireTasks now => exact hkeeps _ trivial
  | expireSingle id now => exact hkeeps _ trivial
  | delete id => exact hkeeps _ trivial
  | deleteHistory historyId => exact hkeeps _ trivial
  | pruneHistoryByAge days now => exact hkeeps _ trivial
  | pruneHistoryByCount keep => exact hkeeps _ trivial
  | maybePrune now => exact hkeeps _ trivial

end Rows

/-! ### Runs -/

private structure Groups.Kept (σ : Groups) : Prop where
  schema : σ.store.Schema
  bits : σ.store.Rows (TaskRow.GroupBitOn σ.Marks)
  /-- a group that is in memory only is about to be forgotten -/
  memory : ∀ g ∈ σ.pausedGroups, σ.store.groupPaused (some g) = true ∨ .deleted g ∈ σ.calls
  /-- a group that is in the table only is about to be recorded -/
  table : ∀ g, σ.store.groupPaused (some g) = true → g ∈ σ.pausedGroups ∨ .persisted g ∈ σ.calls
  pausing : ∀ call ∈ σ.calls, call.isPause = true → σ.store.groupPaused (some call.group) = true

theorem TaskRow.GroupBitOn.mono {M M' : String → Prop} {r : TaskRow} (h : r.GroupBitOn M) (hM : ∀ g, M g → M' g) :
    r.GroupBitOn M' := fun g hg hbit => hM g (h g hg hbit)

section Steps

variable {σ σ' : Groups} {i : Nat} {g : String} {call old : GroupCall}

/-- The calls after a call went on: the others and this one. -/
private theorem mem_calls_set (hcalls : σ'.calls = σ.calls.set i call) {c : GroupCall} (hc : c ∈ σ'.calls) :
    c ∈ σ.calls ∨ c = call := by
  rw [hcalls] at hc
  exact List.mem_or_eq_of_mem_set hc

/-- A call goes on that neither is about to change the memory nor changes the table. -/
private theorem kept_set (h : σ.Kept) (hi : σ.calls[i]? = some old) (hcalls : σ'.calls = σ.calls.set i call)
    (hgroups : σ'.store.pausedGroups = σ.store.pausedGroups) (hmemory : σ'.pausedGroups = σ.pausedGroups)
    (hold : ∀ g, old ≠ .deleted g ∧ old ≠ .persisted g) (hpause : call.isPause = true → old.isPause = true)
    (hgroup : call.group = old.group) (hschema : σ'.store.Schema)
    (hbits : σ'.store.Rows (TaskRow.GroupBitOn σ'.Marks)) :
    σ'.Kept := by
  have htable : ∀ g, σ'.store.groupPaused (some g) = σ.store.groupPaused (some g) := fun g =>
    Store.groupPaused_congr hgroups (some g)
  refine ⟨hschema, hbits, fun g hg => ?_, fun g hg => ?_, fun c hc hp => ?_⟩
  · rw [hmemory] at hg
    rw [htable, hcalls]
    exact (h.memory g hg).imp_right fun hin => mem_set_of_ne call hi hin (hold g).1.symm
  · rw [htable] at hg
    rw [hmemory, hcalls]
    exact (h.table g hg).imp_right fun hin => mem_set_of_ne call hi hin (hold g).2.symm
  · rw [htable]
    rcases mem_calls_set hcalls hc with hc | rfl
    · exact h.pausing c hc hp
    · rw [hgroup]
      exact h.pausing old (List.mem_of_getElem? hi) (hpause hp)

/-- A group that may be marked still may be, if the call that went on does not close one. -/
private theorem Groups.Marks.set (h : σ.Marks g) (hcalls : σ'.calls = σ.calls.set i call)
    (hgroups : σ'.store.pausedGroups = σ.store.pausedGroups) (hcall : ∀ g, call ≠ .cleared g) : σ'.Marks g := by
  refine ⟨(Store.groupPaused_congr hgroups (some g)).trans h.1, fun hclosing => ?_⟩
  rcases mem_calls_set hcalls hclosing with hc | hc
  · exact h.2 hc
  · exact hcall g hc.symm

/-- A pause goes on with an `UPDATE` that marks rows of groups that may be marked. -/
private theorem kept_marked (call : GroupCall) (h : σ.Kept) (hi : σ.calls[i]? = some old)
    (hold : ∀ g, old ≠ .deleted g ∧ old ≠ .persisted g)
    (hpause : call.isPause = true → old.isPause = true) (hgroup : call.group = old.group)
    (hcall : ∀ g, call ≠ .cleared g) {u : RowUpdate}
    (hu : ∀ r ∈ σ.store.tasks, u.selects r = true → (u.change r).GroupBitOn σ.Marks) :
    Groups.Kept { σ.set i call with store := u.exec σ.store } := by
  refine kept_set h hi rfl ((Action.update u).pausedGroups_exec (fun _ => "") σ.store rfl) rfl hold hpause hgroup
    (h.schema.steps ((Action.update u).steps (fun _ => "") σ.store)) fun r hr => ?_
  have hrows := (Action.update u).rows_exec (fun _ => "") h.schema h.bits hu
  refine (hrows r hr).mono fun g hM => hM.set rfl ?_ hcall
  exact (Action.update u).pausedGroups_exec (fun _ => "") σ.store rfl

private theorem kept_clearRows {sha256 : List UInt8 → String} (h : σ.Kept) (hi : σ.calls[i]? = some (.resumed g))
    (hc : (GroupStep.clearRows i).BitClean sha256 σ) :
    Groups.Kept { σ.set i (.cleared g) with store := σ.store.clearBit (fun r => r.groupKey == some g) .group } := by
  refine kept_set h hi rfl rfl rfl (fun _ => ⟨nofun, nofun⟩) nofun rfl
    (h.schema.steps ((Action.update (.clearBit (.group g) .group)).steps (fun _ => "") σ.store))
      fun r' hr' g' hg' hbit => ?_
  obtain ⟨r, hr, rfl⟩ := List.mem_map.1 hr'
  have hkey : r.groupKey = some g' := by
    split at hg'
    · exact hg'
    · exact hg'
  by_cases hsel : (r.groupKey == some g && r.status == .paused && r.pauseReasons &&& .group != 0) = true
  · -- the bit was cleared
    rw [if_pos hsel] at hbit
    refine absurd ?_ hbit
    show r.pauseReasons &&& ~~~PauseReasons.group &&& .group = 0
    rw [BitVec.and_assoc, BitVec.and_comm (~~~PauseReasons.group), BitVec.and_not_self]
    exact BitVec.and_zero
  · rw [if_neg hsel] at hbit
    have hne : g' ≠ g := by
      intro heq
      apply hsel
      rw [heq] at hkey
      rw [hkey, hc _ hi r hr hkey hbit]
      simpa using hbit
    have hM := h.bits r hr g' hkey hbit
    refine ⟨hM.1, fun hclosing => ?_⟩
    rcases List.mem_or_eq_of_mem_set hclosing with hin | hin
    · exact hM.2 hin
    · exact hne (GroupCall.cleared.inj hin)

private theorem kept_deleteState {sha256 : List UInt8 → String} (h : σ.Kept) (hi : σ.calls[i]? = some (.cleared g))
    (hc : (GroupStep.deleteState i).BitClean sha256 σ) :
    Groups.Kept { σ.set i (.deleted g) with store := σ.store.resumeGroupState g } := by
  have htable : ∀ g', g' ≠ g →
      (σ.store.resumeGroupState g).groupPaused (some g') = σ.store.groupPaused (some g') := by
    intro g' hne
    rw [Store.groupPaused_resumeGroupState]
    simp [hne.symm]
  refine ⟨h.schema.steps ((Action.resumeGroupState g).steps (fun _ => "") σ.store), fun r hr => ?_, fun g' hg' => ?_,
    fun g' hg' => ?_, fun c hin hp => ?_⟩
  · refine (h.bits r hr).mono fun g' hM => ?_
    -- the group that is closing has no marked rows
    have hne : g' ≠ g := by
      rintro rfl
      exact hM.2 (List.mem_of_getElem? hi)
    refine ⟨(htable g' hne).trans hM.1, fun hclosing => ?_⟩
    rcases List.mem_or_eq_of_mem_set hclosing with hin | hin
    · exact hM.2 hin
    · cases hin
  · by_cases hne : g' = g
    · rw [hne]
      exact .inr (mem_set_self _ hi)
    · refine (h.memory g' hg').imp (fun hpaused => (htable g' hne).trans hpaused) fun hin => ?_
      exact mem_set_of_ne _ hi hin nofun
  · have hpaused : σ.store.groupPaused (some g') = true := by
      have hboth : (σ.store.resumeGroupState g).groupPaused (some g') = true := hg'
      rw [Store.groupPaused_resumeGroupState, Bool.and_eq_true] at hboth
      exact hboth.1
    exact (h.table g' hpaused).imp_right fun hin => mem_set_of_ne _ hi hin nofun
  · rcases List.mem_or_eq_of_mem_set hin with hin | rfl
    · exact (htable _ (hc _ hi c hin hp)).trans (h.pausing c hin hp)
    · cases hp

private theorem kept_forget {sha256 : List UInt8 → String} (h : σ.Kept) (hi : σ.calls[i]? = some (.deleted g))
    (hc : (GroupStep.forget i).BitClean sha256 σ) :
    Groups.Kept { σ.drop i with pausedGroups := σ.pausedGroups.filter (· != g) } := by
  have hgone : σ.store.groupPaused (some g) = false := hc _ hi
  refine ⟨h.schema, fun r hr => ?_, fun g' hg' => ?_, fun g' hg' => ?_, fun c hin hp => ?_⟩
  · exact (h.bits r hr).mono fun g' hM => ⟨hM.1, fun hclosing => hM.2 (List.mem_of_mem_eraseIdx hclosing)⟩
  · obtain ⟨hin, hne⟩ := List.mem_filter.1 hg'
    refine (h.memory g' hin).imp_right fun hdeleted => mem_eraseIdx_of_ne hi hdeleted ?_
    intro heq
    cases heq
    simp at hne
  · have hne : g' ≠ g := by
      rintro rfl
      exact absurd hg' (Bool.not_eq_true _ ▸ hgone)
    exact (h.table g' hg').imp (fun hin => List.mem_filter.2 ⟨hin, by simpa using hne⟩)
      fun hin => mem_eraseIdx_of_ne hi hin nofun
  · exact h.pausing c (List.mem_of_mem_eraseIdx hin) hp

private theorem kept_restart (sha256 : List UInt8 → String) (h : σ.Kept) (now : Int) :
    ((GroupStep.restart now).exec sha256 σ).Kept := by
  have htable : ∀ g, (σ.store.recoverRunning now).groupPaused (some g) = σ.store.groupPaused (some g) := fun g =>
    Store.groupPaused_congr ((Action.recoverRunning now).pausedGroups_exec sha256 σ.store rfl) (some g)
  have hrows : (σ.store.recoverRunning now).Rows (TaskRow.GroupBitOn σ.Marks) := by
    refine (Action.recoverRunning now).rows_exec sha256 h.schema h.bits
      ⟨fun r hr _ => ?_, fun r hr _ _ => ?_, fun r hr _ _ _ => ?_⟩
    · exact (h.bits r hr).of_same rfl rfl
    · exact (h.bits r hr).of_same rfl rfl
    · exact (h.bits r hr).of_same rfl rfl
  refine ⟨h.schema.steps ((Action.recoverRunning now).steps sha256 σ.store), fun r hr => ?_, fun g hg => ?_,
    fun g hg => ?_, fun c hc => ?_⟩
  · exact (hrows r hr).mono fun g hM => ⟨(htable g).trans hM.1, nofun⟩
  · obtain ⟨e, he, rfl⟩ := List.mem_map.1 hg
    exact .inl ((htable e.1).trans (Store.groupPaused_iff.2 ⟨e, he, rfl⟩))
  · obtain ⟨e, he, rfl⟩ := Store.groupPaused_iff.1 ((htable g).symm.trans hg)
    exact .inl (List.mem_map_of_mem he)
  · cases hc

end Steps

private theorem exec_kept (sha256 : List UInt8 → String) {σ : Groups} (h : σ.Kept) (st : GroupStep)
    (hc : st.BitClean sha256 σ) : (st.exec sha256 σ).Kept := by
  cases st with
  | store a =>
    have hset : a.setsGroups = false := by
      have hforeign : a.ofGroups = false := hc.1
      cases a with
      | pauseGroupState group resumeAt now => cases hforeign
      | resumeGroupState group => cases hforeign
      | _ => rfl
    have htable : ∀ g, (a.exec sha256 σ.store).groupPaused (some g) = σ.store.groupPaused (some g) := fun g =>
      Store.groupPaused_congr (a.pausedGroups_exec sha256 σ.store hset) (some g)
    have hbits := bits_exec sha256 h.schema h.bits a hc.1 hc.2
    refine ⟨h.schema.steps (a.steps sha256 σ.store), fun r hr => ?_, fun g hg => ?_, fun g hg => ?_,
      fun c hin hp => ?_⟩
    · exact (hbits r hr).mono fun g hM => ⟨(htable g).trans hM.1, hM.2⟩
    · exact (h.memory g hg).imp_left (htable g).trans
    · exact h.table g ((htable g).symm.trans hg)
    · exact (htable c.group).trans (h.pausing c hin hp)
  | spawn task => exact ⟨h.schema, h.bits, h.memory, h.table, h.pausing⟩
  | remove id => exact ⟨h.schema, h.bits, h.memory, h.table, h.pausing⟩
  | pauseGroup g resumeAt now =>
    rw [GroupStep.exec]
    split
    · exact ⟨h.schema, h.bits, h.memory, h.table, h.pausing⟩
    · have htable : ∀ g', (σ.store.pauseGroupState g resumeAt now).groupPaused (some g') = true ↔
          σ.store.groupPaused (some g') = true ∨ g = g' := by
        intro g'
        rw [Store.groupPaused_pauseGroupState, Bool.or_eq_true, beq_iff_eq]
      have hcalls : ∀ c ∈ σ.calls ++ [GroupCall.persisted g], c ∈ σ.calls ∨ c = .persisted g := by
        intro c hc
        exact (List.mem_append.1 hc).imp_right List.mem_singleton.1
      have hrows : (σ.store.pauseGroupState g resumeAt now).Rows (TaskRow.GroupBitOn σ.Marks) :=
        (Action.pauseGroupState g resumeAt now).rows_exec sha256 h.schema h.bits trivial
      refine ⟨h.schema.steps ((Action.pauseGroupState g resumeAt now).steps sha256 σ.store), fun r hr => ?_,
        fun g' hg' => ?_, fun g' hg' => ?_, fun c hin hp => ?_⟩
      · refine (hrows r hr).mono fun g' hM => ⟨(htable g').2 (.inl hM.1), fun hclosing => ?_⟩
        rcases hcalls _ hclosing with hin | hin
        · exact hM.2 hin
        · cases hin
      · refine (h.memory g' hg').imp (fun hpaused => (htable g').2 (.inl hpaused)) fun hin => ?_
        exact List.mem_append_left _ hin
      · rcases (htable g').1 hg' with hpaused | rfl
        · exact (h.table g' hpaused).imp_right fun hin => List.mem_append_left _ hin
        · exact .inr (List.mem_append_right _ (List.mem_singleton_self _))
      · rcases hcalls c hin with hin | rfl
        · exact (htable c.group).2 (.inl (h.pausing c hin hp))
        · exact (htable g).2 (.inr rfl)
  | record i =>
    rw [GroupStep.exec]
    split
    · rename_i g hi
      refine ⟨h.schema, fun r hr => ?_, fun g' hg' => ?_, fun g' hg' => ?_, fun c hin hp => ?_⟩
      · refine (h.bits r hr).mono fun g' hM => ?_
        let σ' : Groups := { σ.set i (.recorded g) with pausedGroups := g :: σ.pausedGroups }
        have hcalls : σ'.calls = σ.calls.set i (.recorded g) := rfl
        have hgroups : σ'.store.pausedGroups = σ.store.pausedGroups := rfl
        exact hM.set hcalls hgroups nofun
      · rcases List.mem_cons.1 hg' with rfl | hg'
        · exact .inl (h.pausing _ (List.mem_of_getElem? hi) rfl)
        · exact (h.memory g' hg').imp_right fun hin => mem_set_of_ne _ hi hin nofun
      · by_cases hne : g' = g
        · rw [hne]
          exact .inl (List.mem_cons_self ..)
        · refine (h.table g' hg').imp (fun hin => List.mem_cons_of_mem _ hin) fun hin => mem_set_of_ne _ hi hin ?_
          exact fun heq => hne (GroupCall.persisted.inj heq)
      · rcases List.mem_or_eq_of_mem_set hin with hin | rfl
        · exact h.pausing c hin hp
        · exact h.pausing (.persisted g) (List.mem_of_getElem? hi) rfl
    · exact h
  | mark i =>
    rw [GroupStep.exec]
    split
    · rename_i g hi
      have hmarks : σ.Marks g := ⟨h.pausing _ (List.mem_of_getElem? hi) rfl, hc _ hi⟩
      refine kept_marked (.marked g) h hi (u := .addGroupBit g) (fun _ => ⟨nofun, nofun⟩) (fun _ => rfl) rfl nofun
        fun r hr hsel => ?_
      simp only [RowUpdate.selects, Bool.and_eq_true, beq_iff_eq] at hsel
      refine .of_group fun g' hg' => ?_
      rw [← Option.some.inj (hsel.1.1.symm.trans hg')]
      exact hmarks
    · exact h
  | sweep i now =>
    rw [GroupStep.exec]
    split
    · rename_i g hi
      have hmarks : σ.Marks g := ⟨h.pausing _ (List.mem_of_getElem? hi) rfl, hc _ hi⟩
      refine kept_marked (.swept g) h hi (u := .pausePendingInGroup g now) (fun _ => ⟨nofun, nofun⟩)
        (fun _ => rfl) rfl nofun fun r hr hsel => ?_
      simp only [RowUpdate.selects, Bool.and_eq_true, beq_iff_eq] at hsel
      refine .of_group fun g' hg' => ?_
      rw [← Option.some.inj (hsel.1.symm.trans hg')]
      exact hmarks
    · exact h
  | drain i =>
    rw [GroupStep.exec]
    split
    · rename_i g hi
      refine kept_set h hi rfl rfl rfl (fun _ => ⟨nofun, nofun⟩) (fun _ => rfl) rfl h.schema fun r hr => ?_
      exact (h.bits r hr).mono fun g' hM => hM.set rfl rfl nofun
    · exact h
  | pauseRow i id now =>
    rw [GroupStep.exec]
    split
    · rename_i g left hi
      split
      · refine kept_marked (.draining g (left.erase id)) h hi (u := .pause id .group now) (fun _ => ⟨nofun, nofun⟩)
          (fun _ => rfl) rfl nofun fun r hr hsel => ?_
        exact .of_group fun g' hg' => hc r hr (beq_iff_eq.1 hsel) g' hg'
      · exact h
    · exact h
  | returnPaused i =>
    rw [GroupStep.exec]
    split
    · rename_i g hi
      refine ⟨h.schema, fun r hr => ?_, fun g' hg' => ?_, fun g' hg' => ?_, fun c hin hp => ?_⟩
      · exact (h.bits r hr).mono fun g' hM => ⟨hM.1, fun hclosing => hM.2 (List.mem_of_mem_eraseIdx hclosing)⟩
      · exact (h.memory g' hg').imp_right fun hin => mem_eraseIdx_of_ne hi hin nofun
      · exact (h.table g' hg').imp_right fun hin => mem_eraseIdx_of_ne hi hin nofun
      · exact h.pausing c (List.mem_of_mem_eraseIdx hin) hp
    · exact h
  | resumeGroup g =>
    rw [GroupStep.exec]
    split
    · have hcalls : ∀ c ∈ σ.calls ++ [GroupCall.resuming g], c ∈ σ.calls ∨ c = .resuming g := by
        intro c hc
        exact (List.mem_append.1 hc).imp_right List.mem_singleton.1
      refine ⟨h.schema, fun r hr => ?_, fun g' hg' => ?_, fun g' hg' => ?_, fun c hin hp => ?_⟩
      · refine (h.bits r hr).mono fun g' hM => ⟨hM.1, fun hclosing => ?_⟩
        rcases hcalls _ hclosing with hin | hin
        · exact hM.2 hin
        · cases hin
      · exact (h.memory g' hg').imp_right fun hin => List.mem_append_left _ hin
      · exact (h.table g' hg').imp_right fun hin => List.mem_append_left _ hin
      · rcases hcalls c hin with hin | rfl
        · exact h.pausing c hin hp
        · cases hp
    · exact ⟨h.schema, h.bits, h.memory, h.table, h.pausing⟩
  | resumeRows i now =>
    rw [GroupStep.exec]
    split
    · rename_i g hi
      refine kept_marked (.resumed g) h hi (u := .resumeSole (.group g) .group now) (fun _ => ⟨nofun, nofun⟩)
        nofun rfl nofun fun r hr _ => ?_
      exact .of_none rfl
    · exact h
  | clearRows i =>
    rw [GroupStep.exec]
    split
    · rename_i g hi
      exact kept_clearRows h hi hc
    · exact h
  | deleteState i =>
    rw [GroupStep.exec]
    split
    · rename_i g hi
      exact kept_deleteState h hi hc
    · exact h
  | forget i =>
    rw [GroupStep.exec]
    split
    · rename_i g hi
      exact kept_forget h hi hc
    · exact h
  | restart now => exact kept_restart sha256 h now

/-- In every state of a run of clean steps the rows, the table and the memory agree on every group for which no call
is under way. -/
theorem resumed_groups_agree (sha256 : List UInt8 → String) (σ : Groups)
    (h : Runs Groups.Fresh (fun σ (a : GroupStep) => a.exec sha256 σ) (fun σ a => a.BitClean sha256 σ) σ) :
    σ.Agree := by
  have hkept : σ.Kept := by
    refine Runs.invariant (I := Groups.Kept) h (fun σ hfresh => ⟨hfresh.store.schema, fun r hr => ?_, fun g hg => ?_,
      fun g hg => ?_, fun c hc => ?_⟩) fun σ st hσ hc => exec_kept sha256 hσ st hc
    · rw [hfresh.store.tasks] at hr
      cases hr
    · rw [hfresh.pausedGroups] at hg
      cases hg
    · obtain ⟨e, he, _⟩ := Store.groupPaused_iff.1 hg
      rw [hfresh.store.pausedGroups] at he
      cases he
    · rw [hfresh.calls] at hc
      cases hc
  intro g hquiet
  refine ⟨fun r hr hgroup hbit => (hkept.bits r hr g hgroup hbit).1, fun hpaused => ?_, fun hin => ?_⟩
  · rcases hkept.table g hpaused with hin | hin
    · exact hin
    · exact absurd rfl (hquiet _ hin)
  · rcases hkept.memory g hin with hpaused | hin
    · exact hpaused
    · exact absurd rfl (hquiet _ hin)

/-- A group with one task is paused; another group is paused and resumed. -/
private def pausedRun : List GroupStep :=
  [.store (.submitDirect { TaskSubmission.new "a" with groupKey := some "g" } 0), .pauseGroup "g" none 0,
    .record 0, .mark 0,
    .sweep 0 0, .drain 0, .returnPaused 0, .pauseGroup "h" none 0, .record 0, .mark 0, .sweep 0 0, .drain 0,
      .returnPaused 0,
    .resumeGroup "h", .resumeRows 0 0, .clearRows 0, .deleteState 0, .forget 0]

theorem pausedRun_agree :
    (groupsState pausedRun).calls.length = 0 ∧
      (groupsState pausedRun).store.tasks.map (·.pauseReasons) = [.group] ∧
      (groupsState pausedRun).pausedGroups = ["g"] ∧ (groupsState pausedRun).Agree := by
  refine ⟨by decide +kernel, by decide +kernel, by decide +kernel, resumed_groups_agree sampleSha256 _ ?_⟩
  -- no group is closing while another one is marked
  have hopen : ∀ n, ((groupsState (pausedRun.take n)).calls.all fun call => call.isPause) = true →
      ∀ call, (groupsState (pausedRun.take n)).calls[0]? = some call →
          ¬ (groupsState (pausedRun.take n)).Closing call.group := by
    intro n hall call _ hclosing
    cases List.all_eq_true.1 hall _ hclosing
  refine Runs.list (.start groupsState_fresh) pausedRun
    ⟨⟨rfl, ?_, nofun⟩, trivial, trivial, ?_, ?_, trivial, trivial, trivial,
    trivial, ?_, ?_, trivial, trivial, trivial, trivial, ?_, ?_, ?_, trivial⟩
  · intro _ g _ hclosing
    cases hclosing
  · exact hopen 3 (by decide +kernel)
  · exact hopen 4 (by decide +kernel)
  · exact hopen 9 (by decide +kernel)
  · exact hopen 10 (by decide +kernel)
  · have hpaused : ∀ r ∈ (groupsState (pausedRun.take 15)).store.tasks, r.status = .paused := by decide +kernel
    exact fun _ _ r hr _ _ => hpaused r hr
  · have hnone : ((groupsState (pausedRun.take 16)).calls.all fun call => !call.isPause) = true := by decide +kernel
    intro _ _ other hin hp
    have hother := List.all_eq_true.1 hnone other hin
    rw [hp] at hother
    cases hother
  · have hgone : ((groupsState (pausedRun.take 17)).calls.all fun call =>
        !(groupsState (pausedRun.take 17)).store.groupPaused (some call.group)) = true := by decide +kernel
    intro call hi
    have hcall := List.all_eq_true.1 hgone call (List.mem_of_getElem? hi)
    rw [Bool.not_eq_true'] at hcall
    exact hcall

/-- A task is submitted between the second and the third statement of a `resume_group`. -/
private def strandedRun : List GroupStep :=
  [.pauseGroup "g" none 0, .record 0, .mark 0, .sweep 0 0, .drain 0, .returnPaused 0, .resumeGroup "g",
    .resumeRows 0 0,
    .clearRows 0, .store (.submitDirect { TaskSubmission.new "a" with groupKey := some "g" } 0),
      .deleteState 0, .forget 0]

theorem stranded_not_agree :
    ¬ ∀ σ, Runs Groups.Fresh (fun σ (a : GroupStep) => a.exec sampleSha256 σ) (fun _ a => a.Foreign) σ → σ.Agree := by
  intro h
  have hrun : Runs Groups.Fresh (fun σ (a : GroupStep) => a.exec sampleSha256 σ) (fun _ a => a.Foreign)
      (groupsState strandedRun) := by
    refine Runs.list (.start groupsState_fresh) strandedRun ?_
    repeat' constructor
  have hquiet : (groupsState strandedRun).calls.length = 0 := by decide +kernel
  obtain ⟨r, hr, hgroup, hbit⟩ : ∃ r ∈ (groupsState strandedRun).store.tasks,
      r.groupKey = some "g" ∧ r.pauseReasons &&& .group ≠ 0 := by decide +kernel
  have hgone : (groupsState strandedRun).store.groupPaused (some "g") = false := by decide +kernel
  have hagree := h _ hrun "g" (by rw [List.length_eq_zero_iff.1 hquiet]; nofun)
  have hpaused := hagree.1 r hr hgroup hbit
  rw [hgone] at hpaused
  cases hpaused

end Taskmill
