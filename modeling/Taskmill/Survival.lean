import Taskmill.Expiry
import Taskmill.Rows

/-!
# Rows that stay

Rows are deleted in a few places only: when a task completes, fails, is cancelled or expires, and when a running or
waiting one is superseded.  `Action.Spares` says that a step reaches none of them for a given task; the task is then
still there after the step (`Action.holds_exec`).  A task may be followed by its id alone, or within one of its
lives.
-/

namespace Taskmill

open Transact

/-- A row of the task `c`; with `life`, in the same life. -/
structure TaskRow.Is (life : Bool) (r c : TaskRow) : Prop where
  id : r.id = c.id
  parentId : r.parentId = c.parentId
  inst : life = true → r.inst = c.inst

/-- The task `c` is in the queue. -/
def Store.Holds (life : Bool) (c : TaskRow) (s : Store) : Prop := ∃ r ∈ s.tasks, r.Is life c

theorem TaskRow.Is.refl (life : Bool) (c : TaskRow) : c.Is life c := ⟨rfl, rfl, fun _ => rfl⟩

/-- The submission does not replace the task, and does not start a new life of it if that matters. -/
def TaskSubmission.Spares (sha256 : List UInt8 → String) (life : Bool) (c : TaskRow) (sub : TaskSubmission)
    (s : Store) : Prop :=
  sub.onDuplicate = .supersede → ∀ r ∈ s.tasks, r.Is life c → r.key = sub.effectiveKey sha256 →
    life = false ∧ r.status ≠ .running ∧ r.status ≠ .waiting

/-- The step does not take the task `c` out of the queue. -/
def Action.Spares (sha256 : List UInt8 → String) (life : Bool) (c : TaskRow) (s : Store) : Action → Prop
  | .submitDirect sub _ => sub.Spares sha256 life c s
  | .processSubmitBatch skipRequeue batch =>
    Along (fun σ m => (submitOne sha256 m.1 skipRequeue m.2 σ).2) (fun σ m => m.1.Spares sha256 life c σ) s batch
  | .submitChunk skipRequeue last now chunk =>
    Along (fun s item => (submitItem sha256 skipRequeue last now item s).2)
      (fun σ item => last item.1 (item.2.effectiveKey sha256) = true → item.2.Spares sha256 life c σ) s chunk
  | .complete id .. | .cancelToHistory id _ | .delete id => c.id ≠ id
  | .completeWithRecord task .. | .cancelToHistoryWithRecord task _ => c.id ≠ task.id
  | .completeBatch items _ => c.id ∉ items.map (·.1.id)
  | .fail id _ retryable maxRetries .. => c.id = id → (rowToTaskRecord c).willRetry retryable maxRetries = true
  | .failWithRecord task _ retryable maxRetries .. => c.id = task.id → task.willRetry retryable maxRetries = true
  | .failBatch items _ => c.id ∉ items.map (·.task.id)
  -- only the tasks that depend on another one can go with it
  | .failDependents .. => ∀ e ∈ s.taskDeps, e.1 ≠ c.id
  | .cancelChildren parent read _ => read ≠ [] → ¬ (c.parentId = some parent ∧ c.pendingOrPaused = true)
  | .expireTasks now =>
    c ∉ s.expiredRows now ∧ ∀ p ∈ s.expiredRows now, ¬ (c.parentId = some p.id ∧ c.pendingOrPaused = true)
  | .expireSingle id now => ¬ (c.id = id ∧ c.past now = true ∧ c.pendingOrPaused = true)
  | _ => True

/-! ### Statements -/

section Statements

variable {life : Bool} {c : TaskRow} {s : Store}

theorem Store.Holds.congr {s' : Store} (h : s.Holds life c) (ht : s'.tasks = s.tasks) : s'.Holds life c := by
  obtain ⟨r, hr, hc⟩ := h
  exact ⟨r, ht ▸ hr, hc⟩

theorem Store.Holds.update {p : TaskRow → Bool} {f : TaskRow → TaskRow} (h : s.Holds life c)
    (hf : ∀ r, (f r).id = r.id ∧ (f r).inst = r.inst ∧ (f r).parentId = r.parentId) :
    (s.updateTasks p f).Holds life c := by
  obtain ⟨r, hr, hc⟩ := h
  refine ⟨if p r then f r else r, List.mem_map_of_mem hr, ?_⟩
  obtain ⟨hid, hinst, hparent⟩ := hf r
  split
  · exact ⟨hid.trans hc.id, hparent.trans hc.parentId, fun hl => hinst.trans (hc.inst hl)⟩
  · exact hc

/-- An `UPDATE` that starts a new life. -/
theorem Store.Holds.renew {p : TaskRow → Bool} {f : TaskRow → TaskRow} (h : s.Holds life c)
    (hf : ∀ r, (f r).id = r.id ∧ (f r).parentId = r.parentId) (hp : life = true → ∀ r, r.id = c.id → p r = false) :
    (s.updateTasks p f).Holds life c := by
  obtain ⟨r, hr, hc⟩ := h
  refine ⟨if p r then f r else r, List.mem_map_of_mem hr, ?_⟩
  split
  · rename_i hsel
    refine ⟨(hf r).1.trans hc.id, (hf r).2.trans hc.parentId, fun hl => ?_⟩
    rw [hp hl r hc.id] at hsel
    cases hsel
  · exact hc

theorem Store.Holds.delete {p : TaskRow → Bool} (h : s.Holds life c) (hp : ∀ r ∈ s.tasks, r.Is life c → p r = false) :
    (s.deleteTasks p).Holds life c := by
  obtain ⟨r, hr, hc⟩ := h
  refine ⟨r, List.mem_filter.2 ⟨hr, ?_⟩, hc⟩
  rw [hp r hr hc]
  rfl

theorem Store.Holds.delete_id {id : Int} (h : s.Holds life c) (hid : c.id ≠ id) :
    (s.deleteTasks (·.id == id)).Holds life c := by
  refine h.delete fun r _ hc => ?_
  rw [hc.id]
  simpa using hid

theorem Store.Holds.add (h : s.Holds life c) (row : TaskRow) : (s.addTask row).Holds life c := by
  obtain ⟨r, hr, hc⟩ := h
  exact ⟨r, List.mem_append_left _ hr, hc⟩

end Statements

/-! ### Submissions -/

section Submission

variable {sha256 : List UInt8 → String} {sub : TaskSubmission} {now : Int} {life : Bool} {c : TaskRow} {s : Store}

private theorem attachDependencies_holds {taskId : Int} {deps : List Int}
    {policy : DependencyFailurePolicy} {s' : Store} {result : Except StoreError Unit} (hs : s.Holds life c)
    (h : attachDependencies taskId deps policy s = (result, s')) :
    s'.Holds life c := by
  obtain rfl : (attachDependencies taskId deps policy s).2 = s' := by rw [h]
  rw [attachDependencies_apply]
  split
  · exact hs
  · rename_i active _
    split
    · exact hs
    · split
      · have hadd : (s.addEdges (edgesFrom taskId active)).Holds life c := hs.congr rfl
        split
        · exact hadd
        · exact hadd.update fun _ => ⟨rfl, rfl, rfl⟩
      · exact hs

private theorem finishInsert_holds {taskId : Int} (hs : s.Holds life c) :
    (finishInsert sub taskId now s).2.Holds life c := by
  obtain ⟨tags, hierarchy, hasTags, ⟨_, h⟩ | ⟨_, ⟨e, s₂, hatt, h⟩ | ⟨s₂, hatt, h⟩⟩⟩ :=
    finishInsert_cases sub taskId now s
  · rw [h]
    exact hs.congr rfl
  · rw [h]
    exact attachDependencies_holds (s := s.tagged tags hierarchy hasTags) (hs.congr rfl) hatt
  · rw [h]
    have hs₂ : s₂.Holds life c := attachDependencies_holds (s := s.tagged tags hierarchy hasTags) (hs.congr rfl) hatt
    show (s₂.pauseNew taskId sub.groupKey now).Holds life c
    rw [Store.pauseNew]
    split
    · exact hs₂.update fun _ => ⟨rfl, rfl, rfl⟩
    · exact hs₂

private theorem skipExisting_holds {key : String} {priority : Priority} {skipRequeue : Bool} (hs : s.Holds life c) :
    (skipExisting key priority skipRequeue s).2.Holds life c := by
  refine skipExisting_state (I := Store.Holds life c) hs (hs.update ?_) (hs.update ?_)
  · exact fun _ => ⟨rfl, rfl, rfl⟩
  · exact fun _ => ⟨rfl, rfl, rfl⟩

private theorem supersedeInPlace_holds {id : Int} (hs : s.Holds life c) (hid : life = true → c.id ≠ id) :
    (supersedeInPlace sub id now s).2.Holds life c := by
  have hrenew : (s.updateTasks (·.id == id) (sub.supersedeRow s.nextInst now)).Holds life c := by
    refine hs.renew (fun _ => ⟨rfl, rfl⟩) fun hl r hr => ?_
    rw [hr]
    simpa using hid hl
  obtain ⟨tags, h⟩ := supersedeInPlace_state sub id now s
  rw [h]
  exact hrenew.congr rfl

private theorem supersedeReplace_holds {key : String} {row : TaskRow} (hschema : s.Schema) (hs : s.Holds life c)
    (hrow : s.taskByKey key = some row) (hid : c.id ≠ row.id) :
    (supersedeReplace sub key row.id now s).2.Holds life c := by
  have hdelete : (s.delete row.id).Holds life c := (hs.delete_id hid).congr rfl
  obtain ⟨tags, h⟩ := supersedeReplace_state sub now hschema hrow
  rw [h]
  exact (hdelete.add _).congr rfl

private theorem supersedeExisting_holds {key : String} (hschema : s.Schema) (hs : s.Holds life c)
    (hsp : ∀ r ∈ s.tasks, r.Is life c → r.key = key → life = false ∧ r.status ≠ .running ∧ r.status ≠ .waiting) :
    (supersedeExisting sub key now s).2.Holds life c := by
  have hlog (entry : TaskHistoryRow) (tags : List (Int × String × String)) : (s.log entry tags).Holds life c :=
    hs.congr rfl
  -- if the row that is superseded is that of the task, then it is not replaced
  have hid : ∀ existing, s.taskByKey key = some existing → c.id = existing.id →
      life = false ∧ existing.status ≠ .running ∧ existing.status ≠ .waiting := by
    intro existing hrow hid
    have hmem : existing ∈ s.tasks := List.mem_of_find?_eq_some hrow
    have hkey : existing.key = key := by simpa using List.find?_some hrow
    obtain ⟨r, hr, hc⟩ := hs
    obtain rfl := hschema.eq_of_id hr hmem (hc.id.trans hid)
    exact hsp r hr hc hkey
  refine supersedeExisting_state (I := Store.Holds life c) hs (fun _ _ => hlog)
    (fun existing hrow _ entry tags => ?_) fun existing hrow hst entry tags => ?_
  · refine supersedeInPlace_holds (hlog entry tags) fun hl hc => ?_
    rw [(hid existing hrow hc).1] at hl
    cases hl
  · refine supersedeReplace_holds (hschema.stmt (b := false) (.history s _ tags)) (hlog entry tags) hrow fun hc => ?_
    exact hst.elim (hid existing hrow hc).2.1 (hid existing hrow hc).2.2

theorem submitOne_holds {skipRequeue : Bool} (hschema : s.Schema) (hs : s.Holds life c)
    (hsp : sub.Spares sha256 life c s) : (submitOne sha256 sub skipRequeue now s).2.Holds life c := by
  cases hv : sub.validate with
  | error e =>
    rw [submitOne_invalid hv]
    exact hs
  | ok u =>
    cases hkey : s.taskByKey (sub.effectiveKey sha256) with
    | none =>
      rw [submitOne_fresh hv hkey]
      exact finishInsert_holds (hs.add _)
    | some row =>
      rw [submitOne_duplicate hv hkey]
      cases hdup : sub.onDuplicate with
      | skip => exact skipExisting_holds hs
      | supersede => exact supersedeExisting_holds hschema hs (hsp hdup)
      | reject => exact hs

private theorem submitEach_holds {skipRequeue : Bool} (batch : List (TaskSubmission × Int)) {s : Store}
    (hschema : s.Schema) (hs : s.Holds life c)
    (ha : Along (fun σ m => (submitOne sha256 m.1 skipRequeue m.2 σ).2)
      (fun σ m => m.1.Spares sha256 life c σ) s batch) :
    (submitEach sha256 skipRequeue batch s).2.Holds life c := by
  induction batch generalizing s with
  | nil => exact hs
  | cons m batch ih => exact ih (hschema.steps (steps_submitOne s)) (submitOne_holds hschema hs ha.1) ha.2

private theorem submitChunk_holds {skipRequeue : Bool} {last : Nat → String → Bool}
    (chunk : List (Nat × TaskSubmission)) {s s' : Store} {results : List SubmitOutcome} (hschema : s.Schema)
    (hs : s.Holds life c) (ha : Along (fun s item => (submitItem sha256 skipRequeue last now item s).2)
      (fun σ item => last item.1 (item.2.effectiveKey sha256) = true → item.2.Spares sha256 life c σ) s chunk)
    (h : Txn.mapList (submitItem sha256 skipRequeue last now) chunk s = (.ok results, s')) : s'.Holds life c := by
  induction chunk generalizing s results with
  | nil =>
    cases h
    exact hs
  | cons item chunk ih =>
    obtain ⟨result, s₁, h₁, h⟩ := Txn.bind_ok h
    obtain ⟨rest, s₂, h₂, h⟩ := Txn.bind_ok h
    cases h
    have hnext := ha.2
    have hsteps : Steps true s (submitItem sha256 skipRequeue last now item s).2 := steps_submitItem item s
    dsimp only at hnext
    rw [h₁] at hnext hsteps
    refine ih (hschema.steps hsteps) ?_ hnext h₂
    rw [submitItem] at h₁
    split at h₁
    · rename_i hlast
      have hone : (submitOne sha256 item.2 skipRequeue now s).2.Holds life c :=
        submitOne_holds hschema hs (ha.1 hlast)
      rwa [h₁] at hone
    · cases h₁
      exact hs

end Submission

/-! ### Completions and failures -/

section Outcomes

variable {now : Int} {life : Bool} {c : TaskRow} {s s' : Store}

private theorem resetRequeued_holds {id : Int} (hs : s.Holds life c) (hid : c.id ≠ id) :
    (s.resetRequeued id).Holds life c := by
  have hrenew : (s.updateTasks (·.id == id) (TaskRow.resetRequeued s.nextInst)).Holds life c := by
    refine hs.renew (fun _ => ⟨rfl, rfl⟩) fun _ r hr => ?_
    rw [hr]
    simpa using hid
  exact hrenew.congr rfl

private theorem completeRow_holds {skipTags : Bool} {item : TaskRecord × IoBudget} (hs : s.Holds life c)
    (hid : c.id ≠ item.1.id) : (s.completeRow skipTags now item).Holds life c := by
  have hlog : (s.logCompleted skipTags now item).Holds life c := hs.congr rfl
  have hdel : ((s.logCompleted skipTags now item).deleteTasks fun r => r.id == item.1.id && !r.requeue).Holds life
      c := by
    refine hlog.delete fun r _ hc => ?_
    rw [hc.id, beq_eq_false_iff_ne.2 hid]
    rfl
  rw [Store.completeRow, Store.finishRow]
  split
  · split
    · exact hdel
    · exact hdel.congr rfl
  · exact resetRequeued_holds hlog hid

private theorem completeInner_holds {task : TaskRecord} {metrics : IoBudget} {skipTags : Bool}
    {result : Option (Int × Int)} (hs : s.Holds life c) (hid : c.id ≠ task.id)
    (h : completeInner task metrics skipTags now s = (.ok result, s')) :
    s'.Holds life c := by
  have hrow : (s.completeRow skipTags now (task, metrics)).Holds life c := completeRow_holds hs hid
  rcases completeInner_cases h with rfl | ⟨interval, _, _, rfl⟩
  · exact hrow
  · have hadd := hrow.add (task.nextInstance interval now)
    rw [Store.pauseInstance]
    split
    · exact Store.Holds.update (hadd.congr rfl) fun _ => ⟨rfl, rfl, rfl⟩
    · exact hadd.congr rfl

private theorem release_holds {ids : List Int} (hs : s.Holds life c) : (s.release ids now).Holds life c := by
  obtain ⟨r, hr, hc⟩ := hs
  refine ⟨if s.frees ids r then s.freeRow now r else r, List.mem_map_of_mem hr, ?_⟩
  split
  · rw [Store.freeRow]
    split
    · exact ⟨hc.id, hc.parentId, hc.inst⟩
    · exact ⟨hc.id, hc.parentId, hc.inst⟩
  · exact hc

private theorem completeAndResolve_holds {skipTags : Bool} {item : TaskRecord × IoBudget} (hid : c.id ≠ item.1.id) :
    Txn.Ensures (fun s : Store => s.Schema ∧ s.Holds life c) (completeAndResolve skipTags now item)
      fun _ s => s.Schema ∧ s.Holds life c := by
  intro s hs result s' h
  have hsteps : Steps false s (completeAndResolve skipTags now item s).2 := steps_completeAndResolve item s
  rw [h] at hsteps
  refine ⟨hs.1.steps hsteps, ?_⟩
  obtain ⟨recurring, s₁, h₁, h⟩ := Txn.bind_ok h
  have hsteps₁ : Steps false s (completeInner item.1 item.2 skipTags now s).2 := steps_completeInner s
  rw [h₁] at hsteps₁
  have hs₁ := completeInner_holds hs.2 hid h₁
  obtain ⟨unblocked, s₂, h₂, h⟩ := Txn.bind_ok h
  cases h
  rw [resolveDependentsInner_apply (hs.1.steps hsteps₁).ids] at h₂
  cases h₂
  exact release_holds hs₁

private theorem foldl_resetRequeued_holds {ids : List Int} (hid : c.id ∉ ids) {s : Store} (hs : s.Holds life c) :
    (ids.foldl Store.resetRequeued s).Holds life c := by
  induction ids generalizing s with
  | nil => exact hs
  | cons id ids ih =>
    rw [List.mem_cons, not_or] at hid
    exact ih hid.2 (resetRequeued_holds hs hid.1)

private theorem completeBatchFast_holds {items : List (TaskRecord × IoBudget)} {skipTags : Bool}
    {unblocked : List Int} (hschema : s.Schema) (hs : s.Holds life c) (hid : c.id ∉ items.map (·.1.id))
    (h : completeBatchFast skipTags now items s = (.ok unblocked, s')) : s'.Holds life c := by
  obtain ⟨_, s₁, h₁, h⟩ := Txn.bind_ok h
  obtain ⟨rows, htags, rfl⟩ := mapList_history (fun _ _ _ _ => insertHistory_leaves) h₁
  have hs₁ : (s.logAll rows htags).Holds life c := hs.congr rfl
  have hschema₁ : (s.logAll rows htags).Schema := hschema.stmt (b := false) (.history s _ _)
  generalize s.logAll rows htags = s₁ at hs₁ hschema₁ h
  obtain ⟨deleted, s₂, h₂, h⟩ := Txn.bind_ok h
  have hs₂ : s₂.Holds life c ∧ s₂.Schema := by
    obtain rfl := (Prod.mk.inj h₂).2
    refine ⟨hs₁.delete fun r _ hc => ?_, hschema₁.stmt (b := false) (.delete s₁ _)⟩
    rw [hc.id, Bool.and_eq_false_iff]
    exact .inl (by simpa using hid)
  obtain ⟨_, s₃, h₃, h⟩ := Txn.bind_ok h
  have hs₃ : s₃.Holds life c ∧ s₃.Schema := by
    obtain rfl := (Prod.mk.inj h₃).2
    exact ⟨foldl_resetRequeued_holds (fun hin => hid (List.mem_of_mem_filter hin)) hs₂.1,
      hs₂.2.steps (steps_foldl_resetRequeued (b := false) _ s₂)⟩
  obtain ⟨_, s₄, h₄, h⟩ := Txn.bind_ok h
  have hs₄ : s₄.Holds life c ∧ s₄.Schema := by
    obtain rfl := (Prod.mk.inj h₄).2
    split
    · exact hs₃
    · exact ⟨hs₃.1.congr rfl, hs₃.2.stmt (b := false) (.tags s₃ _)⟩
  obtain ⟨dependents, s₅, h₅, h⟩ := Txn.bind_ok h
  obtain ⟨hd, rfl⟩ := Prod.mk.inj h₅
  obtain rfl := Except.ok.inj hd
  have htail := (releaseTail_apply hs₄.2.ids (items.map (·.1.id)) now).symm.trans h
  cases htail
  exact release_holds hs₄.1

private theorem failInner_holds {task : TaskRecord} {error : String} {retryable : Bool} {maxRetries : Int}
    {metrics : IoBudget} {backoff : FailBackoff} {u : Unit} (hs : s.Holds life c)
    (hsp : c.id = task.id → task.willRetry retryable maxRetries = true)
    (h : failInner task error retryable maxRetries metrics backoff now s = (.ok u, s')) : s'.Holds life c := by
  rw [failInner] at h
  split at h
  · cases h
    exact hs.update fun _ => ⟨rfl, rfl, rfl⟩
  · rename_i hretry
    obtain ⟨_, s₁, h₁, h⟩ := Txn.bind_ok h
    obtain ⟨tags, rfl⟩ := insertHistory_leaves h₁
    cases h
    exact (hs.delete_id fun hid => hretry (hsp hid)).congr rfl

private theorem releaseDependent_holds {depId : Int} (hs : s.Holds life c) :
    (releaseDependent depId now s).2.Holds life c := by
  rw [releaseDependent]
  split
  · exact hs
  · split
    · have hpending : (s.updateTasks (fun r => r.id == depId && r.status == .blocked) fun r =>
          { r with status := .pending }).Holds life c := hs.update fun _ => ⟨rfl, rfl, rfl⟩
      exact hpending.update fun _ => ⟨rfl, rfl, rfl⟩
    · exact hs

/-- The task is there and depends on no other. -/
private def Store.HoldsFree (life : Bool) (c : TaskRow) (s : Store) : Prop :=
  s.Holds life c ∧ ∀ e ∈ s.taskDeps, e.1 ≠ c.id

private theorem failDependent_holds {cascade : Int → Sql (List Int × List Int)}
    (hcascade : ∀ id, Txn.Ensures (Store.HoldsFree life c) (cascade id) fun _ => Store.HoldsFree life c)
    {failedTaskId depId : Int} (hdep : depId ≠ c.id) :
    Txn.Ensures (Store.HoldsFree life c) (failDependent cascade failedTaskId depId now) fun _ =>
      Store.HoldsFree life c := by
  intro s hs result s' h
  obtain ⟨row, s₁, h₁, h⟩ := Txn.bind_ok h
  obtain ⟨hrow, rfl⟩ : s.taskById depId = row ∧ s = s₁ := by
    cases h₁
    exact ⟨rfl, rfl⟩
  cases row with
  | none =>
    cases h
    exact hs
  | some task =>
    have hid : task.id = depId := by simpa using List.find?_some hrow
    have hremove : ∀ s₂, dependencyFail failedTaskId task now s = (.ok (), s₂) → s₂.HoldsFree life c := by
      intro s₂ h₂
      obtain ⟨htasks, hdeps⟩ := dependencyFail_ok h₂
      have hdel : (s.deleteTasks (·.id == task.id)).Holds life c := by
        refine hs.1.delete_id ?_
        rw [hid]
        exact hdep.symm
      refine ⟨hdel.congr htasks, fun e he => ?_⟩
      rw [hdeps] at he
      exact hs.2 e (List.mem_of_mem_filter he)
    cases hpolicy : task.onDepFailure with
    | ignore =>
      simp only [hpolicy] at h
      obtain ⟨unblocked, s₂, h₂, h⟩ := Txn.bind_ok h
      cases h
      obtain rfl : (releaseDependent depId now s).2 = s' := by rw [h₂]
      refine ⟨releaseDependent_holds hs.1, ?_⟩
      rw [(releaseDependent_ids depId s).2]
      exact hs.2
    | cancel =>
      simp only [hpolicy] at h
      obtain ⟨⟨⟩, s₂, h₂, h⟩ := Txn.bind_ok h
      obtain ⟨sub, s₃, h₃, h⟩ := Txn.bind_ok h
      cases h
      exact hcascade depId s₂ (hremove s₂ h₂) sub _ h₃
    | fail =>
      simp only [hpolicy] at h
      obtain ⟨⟨⟩, s₂, h₂, h⟩ := Txn.bind_ok h
      obtain ⟨sub, s₃, h₃, h⟩ := Txn.bind_ok h
      cases h
      exact hcascade depId s₂ (hremove s₂ h₂) sub _ h₃

/-- The cascade follows the edges, so it does not reach a task that depends on none. -/
private theorem failDependentsInner_holds (fuel : Nat) (id : Int) :
    Txn.Ensures (Store.HoldsFree life c) (failDependentsInner now fuel id) fun _ => Store.HoldsFree life c := by
  induction fuel generalizing id with
  | zero => exact Txn.Ensures.pure fun s hs => hs
  | succ fuel ih =>
    intro s hs result s' h
    obtain ⟨dependents, s₁, h₁, h⟩ := Txn.bind_ok h
    obtain ⟨hd, rfl⟩ := Prod.mk.inj h₁
    obtain rfl := Except.ok.inj hd
    obtain ⟨results, s₂, h₂, h⟩ := Txn.bind_ok h
    cases h
    have hs₁ : Store.HoldsFree life c { s with taskDeps := s.taskDeps.filter fun e => !(e.2 == id) } :=
      ⟨hs.1.congr rfl, fun e he => hs.2 e (List.mem_of_mem_filter he)⟩
    refine (Txn.Ensures.mapList fun depId hdep => failDependent_holds ih ?_) _ hs₁ _ _ h₂
    obtain ⟨e, he, rfl⟩ := List.mem_map.1 hdep
    exact hs.2 e (List.mem_of_mem_filter he)

end Outcomes

/-! ### Cancellation and expiry -/

section Removal

variable {now : Int} {life : Bool} {c : TaskRow} {s s' : Store}

private theorem cancelInner_holds {task : TaskRecord} {u : Unit} (hs : s.Holds life c) (hid : c.id ≠ task.id)
    (h : cancelInner task now s = (.ok u, s')) : s'.Holds life c := by
  obtain ⟨_, s₁, h₁, h⟩ := Txn.bind_ok h
  obtain ⟨tags, rfl⟩ := insertHistory_leaves h₁
  cases h
  exact (hs.delete_id hid).congr rfl

theorem expireRow_ok {row : TaskRow} {task : TaskRecord} (h : expireRow row now s = (.ok task, s')) :
    task.id = row.id ∧ s'.tasks = s.tasks.filter (fun r => !(r.id == row.id)) ∧ s'.taskDeps = s.taskDeps := by
  obtain ⟨rfl, hexpires⟩ := expireRow_expires h
  refine ⟨rfl, hexpires.tasks.trans (filter_not_one s.tasks row.id (·.id)).symm, ?_⟩
  rw [hexpires.edges]
  simp

/-- One round of the sweep: the row and its pending or paused children. -/
theorem expireWithChildren_ok {row : TaskRow} {expired : List TaskRecord}
    (h : expireWithChildren now row s = (.ok expired, s')) :
    ∃ gone : List Int, expired.map (·.id) = gone ++ [row.id] ∧
      (∀ i ∈ gone, ∃ r ∈ s.tasks, r.id = i ∧ r.parentId = some row.id ∧ r.pendingOrPaused = true) ∧
      s'.tasks = s.tasks.filter (fun r => !(gone ++ [row.id]).contains r.id) ∧
      s'.taskDeps = s.taskDeps.filter fun e => !(e.1 == row.id) := by
  obtain ⟨hrows, hexpires⟩ := expireWithChildren_expires h
  refine ⟨(s.tasks.filter row.hasChild).map (·.id), ?_, fun i hi => ?_, ?_,
    hexpires.edges.trans (filter_not_one s.taskDeps row.id (·.1)).symm⟩
  · have hids := congrArg (List.map (·.id)) hrows
    rwa [List.map_map, List.map_append] at hids
  · obtain ⟨r, hr, rfl⟩ := List.mem_map.1 hi
    obtain ⟨hr, hp⟩ := List.mem_filter.1 hr
    rw [TaskRow.hasChild, Bool.and_eq_true, beq_iff_eq] at hp
    exact ⟨r, hr, rfl, hp.1, hp.2⟩
  · rw [hexpires.tasks, List.map_append]
    rfl

/-- The sweep only deletes, and it deletes the selected rows and pending or paused children of theirs. -/
private theorem expire_loop {rows : List TaskRow} {s s' : Store} {expired : List (List TaskRecord)}
    (hids : s.ids.Nodup) (h : Txn.mapList (expireWithChildren now) rows s = (.ok expired, s')) (hc : c ∈ s.tasks)
    (hsel : ∀ p ∈ rows, c.id ≠ p.id) (hchild : ∀ p ∈ rows, ¬ (c.parentId = some p.id ∧ c.pendingOrPaused = true)) :
    c ∈ s'.tasks := by
  induction rows generalizing s expired with
  | nil =>
    cases h
    exact hc
  | cons row rows ih =>
    obtain ⟨first, s₁, h₁, h⟩ := Txn.bind_ok h
    obtain ⟨rest, s₂, h₂, h⟩ := Txn.bind_ok h
    cases h
    obtain ⟨gone, _, hgone, htasks, _⟩ := expireWithChildren_ok h₁
    have hc₁ : c ∈ s₁.tasks := by
      rw [htasks]
      refine List.mem_filter.2 ⟨hc, ?_⟩
      rw [Bool.not_eq_true', ← Bool.not_eq_true, List.contains_iff_mem, List.mem_append, List.mem_singleton]
      rintro (hin | hin)
      · obtain ⟨r, hr, hid, hpar, hpp⟩ := hgone _ hin
        obtain rfl : r = c := List.inj_on_of_nodup_map hids hr hc hid
        exact hchild row (List.mem_cons_self ..) ⟨hpar, hpp⟩
      · exact hsel row (List.mem_cons_self ..) hin
    refine ih ?_ h₂ hc₁ (fun p hp => hsel p (List.mem_cons_of_mem _ hp)) fun p hp =>
      hchild p (List.mem_cons_of_mem _ hp)
    rw [Store.ids, htasks]
    exact (List.filter_sublist.map _).nodup hids

private theorem recoverRunning_holds (hs : s.Holds life c) : (s.recoverRunning now).Holds life c := by
  have hreset : s.resetRunning.Holds life c := hs.update fun _ => ⟨rfl, rfl, rfl⟩
  have hsettle : (s.resetRunning.settlePauses now).Holds life c := hreset.update fun _ => ⟨rfl, rfl, rfl⟩
  have hclean : (s.resetRunning.settlePauses now).deleteDanglingEdges.Holds life c := hsettle.congr rfl
  rw [Store.recoverRunning]
  split
  · exact hclean
  · exact hclean.update fun _ => ⟨rfl, rfl, rfl⟩

end Removal

/-- A batch of completions that fails changes no row. -/
theorem completeBatchTx_error {items : List (TaskRecord × IoBudget)} {now : Int} {s s' : Store} {e : StoreError}
    (h : completeBatchTx items now s = (.error e, s')) : s'.tasks = s.tasks := by
  rw [completeBatchTx.eq_def] at h
  split at h
  · cases h
  · rcases Txn.bind_error h with h | ⟨_, _, _, h⟩
    · obtain ⟨s₁, _, rfl⟩ := transaction_error h
      rfl
    · cases h
  · split at h
    · obtain ⟨s₁, _, rfl⟩ := transaction_error h
      rfl
    · rcases Txn.bind_error h with h | ⟨_, _, _, h⟩
      · obtain ⟨s₁, _, rfl⟩ := transaction_error h
        rfl
      · cases h

section Steps

variable {sha256 : List UInt8 → String} {life : Bool} {c : TaskRow} {s : Store}

/-- A transaction whose body keeps the task. -/
private theorem transaction_holds {α : Type} {x : Sql α} (hs : s.Holds life c)
    (hx : ∀ a s', x s = (.ok a, s') → s'.Holds life c) : (transaction x s).2.Holds life c := by
  rcases h : transaction x s with ⟨e | a, s'⟩
  · obtain ⟨s₁, _, rfl⟩ := transaction_error h
    exact hs.congr rfl
  · exact hx a s' (transaction_ok h)

private theorem execPopNextBatch_holds {limit : Nat} {aging : Option AgingParams} {now : Int} (hs : s.Holds life c) :
    ((Action.popNextBatch limit aging now).exec sha256 s).Holds life c := by
  have hclaim : (s.updateTasks (fun r => (s.nextIds limit aging now).contains r.id) (TaskRow.claim now)).Holds life
      c :=
    hs.update fun _ => ⟨rfl, rfl, rfl⟩
  rw [Action.exec, popNextBatch.eq_def]
  split
  · exact hs
  · exact hclaim.congr rfl
  · exact hclaim.congr rfl

private theorem execComplete_holds {id : Int} {metrics : IoBudget} {now : Int} (hs : s.Holds life c)
    (hsp : (Action.complete id metrics now).Spares sha256 life c s) :
    ((Action.complete id metrics now).exec sha256 s).Holds life c := by
  refine transaction_holds hs fun u s' h => ?_
  cases hrow : s.taskById id with
  | none =>
    simp only [hrow] at h
    cases h
    exact hs
  | some row =>
    simp only [hrow] at h
    obtain ⟨result, s₁, h₁, h⟩ := Txn.bind_ok h
    cases h
    have hid : row.id = id := by simpa using List.find?_some hrow
    exact completeInner_holds hs (hid ▸ hsp) h₁

private theorem execCompleteBatch_holds {items : List (TaskRecord × IoBudget)} {now : Int} (hschema : s.Schema)
    (hs : s.Holds life c) (hsp : (Action.completeBatch items now).Spares sha256 life c s) :
    ((Action.completeBatch items now).exec sha256 s).Holds life c := by
  have hne : ∀ item ∈ items, c.id ≠ item.1.id := fun item hitem he => hsp (List.mem_map.2 ⟨item, hitem, he.symm⟩)
  rw [Action.exec, completeBatchTx.eq_def]
  split
  · exact hs
  · rw [Txn.bind_pure_state]
    exact transaction_holds hs fun result s' h =>
      (completeAndResolve_holds (hne _ (List.mem_singleton_self _)) s ⟨hschema, hs⟩ _ _ h).2
  · split
    · refine transaction_holds hs fun results s' h => ?_
      have hloop : Txn.Ensures (fun s : Store => s.Schema ∧ s.Holds life c)
          (Txn.mapList (completeAndResolve (!s.hasTags) now) items) fun _ s => s.Schema ∧ s.Holds life c :=
        Txn.Ensures.mapList fun item hitem => completeAndResolve_holds (hne item hitem)
      exact (hloop s ⟨hschema, hs⟩ _ _ h).2
    · rw [Txn.bind_pure_state]
      exact transaction_holds hs fun unblocked s' h => completeBatchFast_holds hschema hs hsp h

private theorem execResolveDependents_holds {id : Int} {now : Int} (hschema : s.Schema) (hs : s.Holds life c) :
    ((Action.resolveDependents id now).exec sha256 s).Holds life c := by
  refine transaction_holds hs fun unblocked s' h => ?_
  rw [resolveDependentsInner_apply hschema.ids] at h
  cases h
  exact release_holds hs

private theorem execFail_holds {id : Int} {error : String} {retryable : Bool} {maxRetries : Int}
    {metrics : IoBudget} {backoff : FailBackoff} {now : Int} (hschema : s.Schema) (hc : c ∈ s.tasks)
    (hs : s.Holds life c)
    (hsp : (Action.fail id error retryable maxRetries metrics backoff now).Spares sha256 life c s) :
    ((Action.fail id error retryable maxRetries metrics backoff now).exec sha256 s).Holds life c := by
  refine transaction_holds hs fun u s' h => ?_
  cases hrow : s.taskById id with
  | none =>
    simp only [hrow] at h
    cases h
    exact hs
  | some row =>
    simp only [hrow] at h
    have hid : row.id = id := by simpa using List.find?_some hrow
    refine failInner_holds hs (fun hcid => ?_) h
    have heq : c = row := hschema.eq_of_id hc (List.mem_of_find?_eq_some hrow) hcid
    rw [← heq]
    exact hsp (heq ▸ hid)

private theorem execFailBatch_holds {items : List FailureItem} {now : Int} (hs : s.Holds life c)
    (hsp : (Action.failBatch items now).Spares sha256 life c s) :
    ((Action.failBatch items now).exec sha256 s).Holds life c := by
  rw [Action.exec, failBatchTx.eq_def]
  split
  · exact hs
  · rename_i item
    refine transaction_holds hs fun u s' h => failInner_holds hs (fun hid => ?_) h
    exact absurd (List.mem_map.2 ⟨item, List.mem_singleton_self _, hid.symm⟩) hsp
  · refine transaction_holds hs fun u s' h => ?_
    obtain ⟨_, s₁, h₁, h⟩ := Txn.bind_ok h
    obtain ⟨rows, tags, rfl⟩ := mapList_history (fun _ _ _ _ => insertHistory_leaves) h₁
    obtain ⟨_, s₂, h₂, h⟩ := Txn.bind_ok h
    have hdel : s₂.Holds life c := by
      obtain rfl := (Prod.mk.inj h₂).2
      have hout : c.id ∉ items.map (·.task.id) := hsp
      refine Store.Holds.delete (hs.congr rfl) fun r _ hr => ?_
      rw [hr.id]
      simpa using hout
    obtain rfl := (Prod.mk.inj h).2
    split
    · exact hdel
    · exact hdel.congr rfl

private theorem execCancelToHistory_holds {id : Int} {now : Int} (hs : s.Holds life c)
    (hsp : (Action.cancelToHistory id now).Spares sha256 life c s) :
    ((Action.cancelToHistory id now).exec sha256 s).Holds life c := by
  refine transaction_holds hs fun found s' h => ?_
  cases hrow : s.taskById id with
  | none =>
    simp only [hrow] at h
    cases h
    exact hs
  | some row =>
    simp only [hrow] at h
    obtain ⟨_, s₁, h₁, h⟩ := Txn.bind_ok h
    cases h
    have hid : row.id = id := by simpa using List.find?_some hrow
    exact cancelInner_holds hs (hid ▸ hsp) h₁

private theorem execCancelChildren_holds {parent : Int} {read : List TaskRow} {now : Int} (hc : c ∈ s.tasks)
    (hs : s.Holds life c) (hsp : (Action.cancelChildren parent read now).Spares sha256 life c s) :
    ((Action.cancelChildren parent read now).exec sha256 s).Holds life c := by
  rw [Action.exec, cancelChildrenTx]
  split
  · exact hs
  · rename_i hread
    refine transaction_holds hs fun u s' h => ?_
    obtain ⟨_, s₁, h₁, h⟩ := Txn.bind_ok h
    obtain ⟨rows, tags, rfl⟩ := mapList_history (fun _ _ _ _ => insertHistory_leaves) h₁
    cases h
    refine ⟨c, List.mem_filter.2 ⟨hc, ?_⟩, .refl life c⟩
    rw [Bool.not_eq_true', Bool.and_eq_false_iff]
    have hnot := hsp (by simpa using hread)
    by_cases hpar : c.parentId = some parent
    · exact .inr (Bool.not_eq_true _ ▸ fun hpp => hnot ⟨hpar, hpp⟩)
    · exact .inl (by simpa using hpar)

private theorem execExpireTasks_holds {now : Int} (hschema : s.Schema) (hc : c ∈ s.tasks) (hs : s.Holds life c)
    (hsp : (Action.expireTasks now).Spares sha256 life c s) :
    ((Action.expireTasks now).exec sha256 s).Holds life c := by
  refine transaction_holds hs fun expired s' h => ?_
  obtain ⟨rows, s₁, h₁, h⟩ := Txn.bind_ok h
  obtain ⟨hrows, rfl⟩ : s.expiredRows now = rows ∧ s = s₁ := by
    cases h₁
    exact ⟨rfl, rfl⟩
  obtain ⟨results, s₂, h₂, h⟩ := Txn.bind_ok h
  cases h
  have hsel : ∀ p ∈ rows, c.id ≠ p.id := by
    intro p hp hid
    rw [← hrows] at hp
    have hmem : p ∈ s.tasks := List.mem_of_mem_filter ((List.mem_insertionSort _).1 (List.mem_of_mem_take hp))
    rw [← hschema.eq_of_id hc hmem hid] at hp
    exact hsp.1 hp
  exact ⟨c, expire_loop hschema.ids h₂ hc hsel (hrows ▸ hsp.2), .refl life c⟩

private theorem execExpireSingle_holds {id : Int} {now : Int} (hschema : s.Schema) (hc : c ∈ s.tasks)
    (hs : s.Holds life c) (hsp : (Action.expireSingle id now).Spares sha256 life c s) :
    ((Action.expireSingle id now).exec sha256 s).Holds life c := by
  refine transaction_holds hs fun expired s' h => ?_
  split at h
  · cases h
    exact hs
  · rename_i row hrow
    obtain ⟨task, s₁, h₁, h⟩ := Txn.bind_ok h
    cases h
    obtain ⟨_, htasks, _⟩ := expireRow_ok h₁
    have hsel := List.find?_some hrow
    simp only [Bool.and_eq_true, beq_iff_eq] at hsel
    have hdel : (s.deleteTasks (·.id == row.id)).Holds life c := by
      refine hs.delete_id fun hid => hsp ?_
      rw [hschema.eq_of_id hc (List.mem_of_find?_eq_some hrow) hid]
      exact ⟨hsel.1.1, hsel.1.2, hsel.2⟩
    exact hdel.congr htasks

private theorem execPauseGroupState_holds {group : String} {resumeAt : Option Int} {now : Int} (hs : s.Holds life c) :
    ((Action.pauseGroupState group resumeAt now).exec sha256 s).Holds life c := by
  rw [Action.exec, Store.pauseGroupState]
  split
  · exact hs
  · exact hs.congr rfl

private theorem execMaybePrune_holds {now : Int} (hs : s.Holds life c) :
    ((Action.maybePrune now).exec sha256 s).Holds life c := by
  refine hs.congr ?_
  rw [Action.exec, Store.maybePrune]
  split
  · rfl
  · dsimp only
    split
    · rfl
    · split
      · rfl
      · rfl

end Steps

/-- A task that the step spares is still there after it. -/
theorem Action.holds_exec (sha256 : List UInt8 → String) {life : Bool} {c : TaskRow} {s : Store} (hschema : s.Schema)
    (hc : c ∈ s.tasks) (a : Action) (hsp : a.Spares sha256 life c s) : (a.exec sha256 s).Holds life c := by
  have hs : s.Holds life c := ⟨c, hc, .refl life c⟩
  cases a with
  | update u =>
    rw [Action.exec, u.exec_update]
    refine hs.update fun r => ?_
    cases u <;> exact ⟨rfl, rfl, rfl⟩
  | submitDirect sub now =>
    refine transaction_holds hs fun outcome s' h => ?_
    have hone : (submitOne sha256 sub (!s.hasRunning) now s).2.Holds life c := submitOne_holds hschema hs hsp
    rwa [h] at hone
  | processSubmitBatch skipRequeue batch => exact submitEach_holds batch hschema hs hsp
  | submitChunk skipRequeue last now chunk =>
    exact transaction_holds hs fun results s' h => submitChunk_holds chunk hschema hs hsp h
  | claimTask id now =>
    have hclaim : (s.updateTasks (fun r => r.id == id && r.status == .pending) (TaskRow.claim now)).Holds life c :=
      hs.update fun _ => ⟨rfl, rfl, rfl⟩
    exact hclaim.congr rfl
  | popById id now => exact hs.update fun _ => ⟨rfl, rfl, rfl⟩
  | popNextBatch limit aging now => exact execPopNextBatch_holds hs
  | complete id metrics now => exact execComplete_holds hs hsp
  | completeWithRecord task metrics now => exact transaction_holds hs fun result s' h => completeInner_holds hs hsp h
  | completeBatch items now => exact execCompleteBatch_holds hschema hs hsp
  | resolveDependents id now => exact execResolveDependents_holds hschema hs
  | fail id error retryable maxRetries metrics backoff now => exact execFail_holds hschema hc hs hsp
  | failWithRecord task error retryable maxRetries metrics backoff now =>
    exact transaction_holds hs fun u s' h => failInner_holds hs hsp h
  | failBatch items now => exact execFailBatch_holds hs hsp
  | failDependents id now =>
    exact transaction_holds hs fun result s' h => ((failDependentsInner_holds _ id) s ⟨hs, hsp⟩ _ _ h).1
  | cancelToHistory id now => exact execCancelToHistory_holds hs hsp
  | cancelToHistoryWithRecord task now => exact transaction_holds hs fun u s' h => cancelInner_holds hs hsp h
  | cancelChildren parent read now => exact execCancelChildren_holds hc hs hsp
  | expireTasks now => exact execExpireTasks_holds hschema hc hs hsp
  | expireSingle id now => exact execExpireSingle_holds hschema hc hs hsp
  | pauseGroupState group resumeAt now => exact execPauseGroupState_holds hs
  | resumeGroupState group => exact hs.congr rfl
  | delete id => exact (hs.delete_id hsp).congr rfl
  | deleteHistory historyId => exact hs.congr rfl
  | pruneHistoryByAge days now => exact hs.congr rfl
  | pruneHistoryByCount keep => exact hs.congr rfl
  | maybePrune now => exact execMaybePrune_holds hs
  | recoverRunning now => exact recoverRunning_holds hs

end Taskmill
