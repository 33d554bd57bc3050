import Taskmill.Rows

/-!
# Status and pause reasons

A row has status `paused` if and only if its `pause_reasons` are not empty, as long as no step turns a row that
carries a bit into a `pending` one without clearing the bits, or takes the last bit of a paused row.  The statements
that can do so are the in-place supersede, the reset of a requeued row, the retries, the second statement of a
bit-wise resume and a `pause` without a reason; `Action.PauseClean` says for each when it does not.
-/

namespace Taskmill

open Transact

/-- Status and reasons agree.  A blocked row is never flagged for a requeue. -/
structure TaskRow.PauseOk (r : TaskRow) : Prop where
  paused_iff : r.status = .paused ↔ r.pauseReasons ≠ .none
  blocked : r.status = .blocked → r.requeue = false

/-- The submission supersedes no row with a pause bit in place. -/
def TaskSubmission.PauseClean (sha256 : List UInt8 → String) (sub : TaskSubmission) (s : Store) : Prop :=
  sub.onDuplicate = .supersede → ∀ r ∈ s.tasks, r.key = sub.effectiveKey sha256 →
    r.status = .pending ∨ r.status = .paused ∨ r.status = .blocked → r.pauseReasons = .none

/-- No row among `ids` that a completion resets has a pause bit. -/
def Store.ResetClean (s : Store) (ids : List Int) : Prop :=
  ∀ r ∈ s.tasks, r.id ∈ ids → r.requeue = true → r.pauseReasons = .none

/-- No row with this id has a pause bit. -/
def Store.RetryClean (s : Store) (id : Int) : Prop := ∀ r ∈ s.tasks, r.id = id → r.pauseReasons = .none

def RowUpdate.PauseClean (s : Store) : RowUpdate → Prop
  | .requeueForRetry id _ _ _ => s.RetryClean id
  | .pause id reason _ => ∀ r ∈ s.tasks, r.id = id → r.pauseReasons = .none → reason ≠ .none
  | .clearBit sel reason =>
    ∀ r ∈ s.tasks, sel.selects r = true → r.status = .paused → r.pauseReasons &&& reason ≠ 0 →
      r.pauseReasons &&& ~~~reason ≠ 0
  | _ => True

/-- The step keeps status and pause reasons together. -/
def Action.PauseClean (sha256 : List UInt8 → String) (s : Store) : Action → Prop
  | .update u => u.PauseClean s
  | .submitDirect sub _ => sub.PauseClean sha256 s
  | .processSubmitBatch skipRequeue batch =>
    Along (fun σ m => (submitOne sha256 m.1 skipRequeue m.2 σ).2) (fun σ m => m.1.PauseClean sha256 σ) s batch
  | .submitChunk skipRequeue last now chunk =>
    Along (fun s item => (submitItem sha256 skipRequeue last now item s).2)
      (fun s item => last item.1 (item.2.effectiveKey sha256) = true → item.2.PauseClean sha256 s) s chunk
  | .complete id _ _ => s.ResetClean [id]
  | .completeWithRecord task _ _ => s.ResetClean [task.id]
  | .completeBatch items _ => s.ResetClean (items.map (·.1.id))
  | .fail id _ retryable maxRetries _ _ _ =>
    ∀ r, s.taskById id = some r → (rowToTaskRecord r).willRetry retryable maxRetries = true → r.pauseReasons = .none
  | .failWithRecord task _ retryable maxRetries _ _ _ =>
    task.willRetry retryable maxRetries = true → s.RetryClean task.id
  | _ => True

/-! ### What a step may do to a row -/

namespace TaskRow.PauseOk

variable {r : TaskRow}

theorem reasons_of_pending (h : r.PauseOk) (hst : r.status ≠ .paused) : r.pauseReasons = .none := by
  by_contra hne
  exact hst (h.paused_iff.2 hne)

/-- A row without bits that is not paused. -/
theorem of_none (hst : r.status ≠ .paused) (hr : r.pauseReasons = .none)
    (hb : r.status = .blocked → r.requeue = false) :
    r.PauseOk := by
  refine ⟨iff_of_false hst ?_, hb⟩
  rw [not_not]
  exact hr

/-- A row with a bit that is paused. -/
theorem of_some (hst : r.status = .paused) (hr : r.pauseReasons ≠ .none) : r.PauseOk := by
  refine ⟨iff_of_true hst hr, ?_⟩
  rw [hst]
  nofun

end TaskRow.PauseOk

theorem PauseReasons.or_ne_none {x y : PauseReasons} (h : x ≠ .none ∨ y ≠ .none) : x ||| y ≠ .none := by
  intro hor
  obtain ⟨hx, hy⟩ := BitVec.or_eq_zero_iff.1 hor
  rcases h with h | h
  · exact h hx
  · exact h hy

private theorem group_ne_none : PauseReasons.group ≠ .none := by decide

private theorem pauseFor_ok (r : TaskRow) {reason : PauseReasons} (h : r.pauseReasons ≠ .none ∨ reason ≠ .none)
    (now : Int) : (r.pauseFor reason now).PauseOk :=
  .of_some rfl (PauseReasons.or_ne_none h)

private theorem update_ok {s : Store} {u : RowUpdate} (hc : u.PauseClean s) {r : TaskRow} (hr : r ∈ s.tasks)
    (hok : r.PauseOk) (hsel : u.selects r = true) : (u.change r).PauseOk := by
  cases u with
  | requeue id =>
    simp only [RowUpdate.selects, Bool.and_eq_true, beq_iff_eq] at hsel
    exact .of_none nofun (hok.reasons_of_pending (by rw [hsel.2]; nofun)) nofun
  | setRunAfter id runAfter => exact ⟨hok.paused_iff, hok.blocked⟩
  | incrementRetry id error => exact ⟨hok.paused_iff, hok.blocked⟩
  | requeueForRetry id error delay now => exact .of_none nofun (hc r hr (beq_iff_eq.1 hsel)) nofun
  | pause id reason now =>
    refine .of_some rfl (PauseReasons.or_ne_none ?_)
    by_cases hnone : r.pauseReasons = .none
    · exact .inr (hc r hr (beq_iff_eq.1 hsel) hnone)
    · exact .inl hnone
  | resume id now => exact .of_none nofun rfl nofun
  | resumeSole sel reason now => exact .of_none nofun rfl nofun
  | clearBit sel reason =>
    simp only [RowUpdate.selects, Bool.and_eq_true, beq_iff_eq, bne_iff_ne] at hsel
    exact .of_some hsel.1.2 (hc r hr hsel.1.1 hsel.1.2 hsel.2)
  | addGroupBit group =>
    simp only [RowUpdate.selects, Bool.and_eq_true, beq_iff_eq] at hsel
    exact .of_some hsel.1.2 (PauseReasons.or_ne_none (.inr group_ne_none))
  | pausePendingInGroup group now => exact pauseFor_ok r (.inr group_ne_none) now
  | pausePendingByTypePrefix like now => exact pauseFor_ok r (.inr (by decide)) now
  | setWaiting id memo =>
    simp only [RowUpdate.selects, Bool.and_eq_true, beq_iff_eq] at hsel
    exact .of_none nofun (hok.reasons_of_pending (by rw [hsel.2]; nofun)) nofun
  | setRunningForFinalize id now =>
    simp only [RowUpdate.selects, Bool.and_eq_true, beq_iff_eq] at hsel
    exact .of_none nofun (hok.reasons_of_pending (by rw [hsel.2]; nofun)) nofun
  | setRecurringPaused id paused => exact ⟨hok.paused_iff, hok.blocked⟩

private theorem submission_ok {sha256 : List UInt8 → String} {sub : TaskSubmission} {now : Int} {s : Store}
    (hs : s.Rows TaskRow.PauseOk) (hc : sub.PauseClean sha256 s) : sub.KeepsRows sha256 TaskRow.PauseOk now s where
  pending _ _ := .of_none nofun rfl nofun
  paused _ _ := pauseFor_ok _ (.inr group_ne_none) now
  blocked := .of_none nofun rfl fun _ => rfl
  upgraded r hr _ _ _ := ⟨(hs r hr).paused_iff, (hs r hr).blocked⟩
  requeued r hr _ hst := by
    refine ⟨(hs r hr).paused_iff, fun hb => ?_⟩
    rcases hst with hst | hst
    · rw [show r.status = .blocked from hb] at hst
      cases hst
    · rw [show r.status = .blocked from hb] at hst
      cases hst
  superseded hdup r hr hkey hst := .of_none nofun (hc hdup r hr hkey hst) nofun
  replaced _ _ _ _ _ := .of_none nofun rfl nofun

/-- While the tasks `ids` complete, the rows that may be reset have no bits. -/
private def Completing (ids : List Int) (r : TaskRow) : Prop :=
  r.PauseOk ∧ (r.id ∈ ids → r.requeue = true → r.pauseReasons = .none)

private theorem completion_ok (tasks : List TaskRecord) (now : Int) (s : Store) :
    CompletionKeepsRows (Completing (tasks.map (·.id))) tasks now s where
  reset r hr hid hreq inst _ := ⟨.of_none nofun (hr.2 hid hreq) nofun, nofun⟩
  next task _ interval _ id inst _ := by
    split
    · exact ⟨pauseFor_ok _ (.inr group_ne_none) now, nofun⟩
    · exact ⟨.of_none nofun rfl nofun, nofun⟩

private theorem free_ok {r : TaskRow} {s : Store} {now : Int} (hr : r.PauseOk) (hb : r.status = .blocked) :
    (s.freeRow now r).PauseOk := by
  have hnone : r.pauseReasons = .none := hr.reasons_of_pending (by rw [hb]; rintro ⟨⟩)
  rw [Store.freeRow]
  split
  · exact pauseFor_ok _ (.inr group_ne_none) now
  · exact .of_none (by rintro ⟨⟩) hnone (by rintro ⟨⟩)

private theorem freeing_ok {ids : List Int} {now : Int} {s : Store} : FreeingKeepsRows (Completing ids) now s := by
  intro r hr hb
  refine ⟨free_ok hr.1 hb, fun _ hreq => ?_⟩
  have hflag : (s.freeRow now r).requeue = r.requeue := by
    rw [Store.freeRow]
    split
    · rfl
    · rfl
  rw [hflag, hr.1.blocked hb] at hreq
  cases hreq

/-! ### Runs -/

/-- The completions are treated with the stronger property `Completing`, the other steps with `PauseOk` itself. -/
theorem Action.pauseOk_exec (sha256 : List UInt8 → String) {s : Store} (hschema : s.Schema)
    (hs : s.Rows TaskRow.PauseOk) (a : Action) (hc : a.PauseClean sha256 s) :
    (a.exec sha256 s).Rows TaskRow.PauseOk := by
  have hcompleting : ∀ (a : Action) (ids : List Int), s.ResetClean ids → a.KeepsRows sha256 (Completing ids) s →
      (a.exec sha256 s).Rows TaskRow.PauseOk := by
    intro a ids hids hk r hr
    have hrows : s.Rows (Completing ids) := fun r hr => ⟨hs r hr, hids r hr⟩
    exact (a.rows_exec sha256 hschema hrows hk r hr).1
  have hkeeps : ∀ a : Action, a.KeepsRows sha256 TaskRow.PauseOk s → (a.exec sha256 s).Rows TaskRow.PauseOk :=
    fun a hk => a.rows_exec sha256 hschema hs hk
  have hclaim : ∀ r ∈ s.tasks, r.status = .pending → ∀ now, (r.claim now).PauseOk := fun r hr hst now =>
    .of_none nofun ((hs r hr).reasons_of_pending (by rw [hst]; nofun)) nofun
  have hfree : ∀ now, FreeingKeepsRows TaskRow.PauseOk now s := fun now r hr hb => free_ok hr hb
  cases a with
  | complete id metrics now =>
    refine hcompleting _ [id] hc fun row hrow => ?_
    have hid : row.id = id := by simpa using List.find?_some hrow
    rw [← hid]
    exact completion_ok [rowToTaskRecord row] now s
  | completeWithRecord task metrics now => exact hcompleting _ [task.id] hc (completion_ok [task] now s)
  | completeBatch items now =>
    have hclean : s.ResetClean (items.map (·.1.id)) := hc
    refine hcompleting _ _ hclean ⟨?_, freeing_ok⟩
    have hok := completion_ok (items.map (·.1)) now s
    rwa [List.map_map] at hok
  | update u => exact hkeeps _ fun r hr hsel => update_ok hc hr (hs r hr) hsel
  | submitDirect sub now => exact hkeeps _ (submission_ok hs hc)
  | processSubmitBatch skipRequeue batch =>
    exact hkeeps _ (Along.mono (fun σ m hclean hσ =>
      ⟨submission_ok hσ.rows hclean, fun _ => .of_none nofun rfl nofun⟩) hc)
  | submitChunk skipRequeue last now chunk =>
    exact hkeeps _ (Along.mono (fun σ item hclean hσ hlast => submission_ok hσ.rows (hclean hlast)) hc)
  | claimTask id now => exact hkeeps _ fun r hr _ hst => hclaim r hr hst now
  | popById id now => exact hkeeps _ fun r hr _ hst => hclaim r hr hst now
  | popNextBatch limit aging now =>
    refine hkeeps _ fun r hr hel => hclaim r hr ?_ now
    simp only [TaskRow.eligible, TaskRow.due, Bool.and_eq_true, beq_iff_eq] at hel
    exact hel.1.1
  | resolveDependents id now => exact hkeeps _ (hfree now)
  | failDependents id now => exact hkeeps _ (hfree now)
  | fail id error retryable maxRetries metrics backoff now =>
    exact hkeeps _ fun r hrow hretry => .of_none nofun (hc r hrow hretry) nofun
  | failWithRecord task error retryable maxRetries metrics backoff now =>
    exact hkeeps _ fun hretry r hr hid => .of_none nofun (hc hretry r hr hid) nofun
  | recoverRunning now =>
    refine hkeeps _ ⟨fun r hr hst => ?_, fun r hr hst _ => ?_, fun r hr hst _ _ => ?_⟩
    · exact .of_none nofun ((hs r hr).reasons_of_pending (by rw [hst]; nofun)) nofun
    · exact ⟨(hs r hr).paused_iff, (hs r hr).blocked⟩
    · exact .of_none nofun ((hs r hr).reasons_of_pending (by rw [hst]; nofun)) nofun
  | failBatch items now => exact hkeeps _ trivial
  | cancelToHistory id now => exact hkeeps _ trivial
  | cancelToHistoryWithRecord task now => exact hkeeps _ trivial
  | cancelChildren parent read now => exact hkeeps _ trivial
  | expireTasks now => exact hkeeps _ trivial
  | expireSingle id now => exact hkeeps _ trivial
  | pauseGroupState group resumeAt now => exact hkeeps _ trivial
  | resumeGroupState group => exact hkeeps _ trivial
  | delete id => exact hkeeps _ trivial
  | deleteHistory historyId => exact hkeeps _ trivial
  | pruneHistoryByAge days now => exact hkeeps _ trivial
  | pruneHistoryByCount keep => exact hkeeps _ trivial
  | maybePrune now => exact hkeeps _ trivial

/-- In every state of a run of clean steps a row is paused if and only if it has a pause reason. -/
theorem paused_iff_reasons (sha256 : List UInt8 → String) (s : Store)
    (h : ReachableVia sha256 (fun s a => a.PauseClean sha256 s) s) :
    ∀ r ∈ s.tasks, r.status = .paused ↔ r.pauseReasons ≠ .none := by
  have hinv : s.Rows TaskRow.PauseOk ∧ s.Schema := by
    refine Runs.invariant (I := fun s => s.Rows TaskRow.PauseOk ∧ s.Schema) h (fun s hs => ?_) fun s a hs hc => ?_
    · refine ⟨?_, hs.schema⟩
      intro r hr
      rw [hs.tasks] at hr
      cases hr
    · exact ⟨a.pauseOk_exec sha256 hs.2 hs.1 hc, hs.2.steps (a.steps sha256 s)⟩
  exact fun r hr => (hinv.1 r hr).paused_iff

/-- A task is paused with its module. -/
private def pausedModuleRun : List Action :=
  [.submitDirect (.new "a") 0, .update (.pausePendingByTypePrefix (· == "a") 0)]

theorem pausedModule_reasons :
    (execAll sampleSha256 openMemory pausedModuleRun).tasks.map (·.pauseReasons) = [.module] ∧
      ∀ r ∈ (execAll sampleSha256 openMemory pausedModuleRun).tasks, r.status = .paused ↔ r.pauseReasons ≠ .none := by
  refine ⟨by decide +kernel, paused_iff_reasons sampleSha256 _ ?_⟩
  exact (Runs.start openMemory_fresh).list pausedModuleRun ⟨nofun, trivial, trivial⟩

/-- It is superseded, which leaves it pending with the MODULE bit. -/
private def supersededModuleRun : List Action :=
  pausedModuleRun ++ [.submitDirect { TaskSubmission.new "a" with onDuplicate := .supersede } 0]

theorem superseded_pending_with_reason :
    ¬ ∀ s, Reachable sampleSha256 s → ∀ r ∈ s.tasks, r.status = .paused ↔ r.pauseReasons ≠ .none := by
  intro h
  have hreach : Reachable sampleSha256 (execAll sampleSha256 openMemory supersededModuleRun) :=
    (Runs.start openMemory_fresh).list supersededModuleRun ⟨trivial, trivial, trivial, trivial⟩
  obtain ⟨r, hr, hst, hreason⟩ : ∃ r ∈ (execAll sampleSha256 openMemory supersededModuleRun).tasks,
      r.status = .pending ∧ r.pauseReasons ≠ .none := by decide +kernel
  have hpaused := (h _ hreach r hr).2 hreason
  rw [hst] at hpaused
  cases hpaused

end Taskmill
