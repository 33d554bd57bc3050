import Mathlib
import Taskmill.Rows
import Taskmill.Scheduler.Spawn
import Taskmill.Tags

/-!
# The fast-path flags

`has_tags`, `has_hierarchy` and `has_running` are not in the database: they are raised by those who write, and work
is skipped while they are down.  A flag that is down has to mean that there is nothing to be done
(`Store.FlagsSound`), and then skipping changes nothing (`Store.FlagsHarmless`).

Not every writer raises them: superseding a task inserts tags and parents, `pop_by_id` claims a task, and a task
that is paused can be requeued although it has never run (`Action.RaisesFlags`).
-/

namespace Taskmill

open Transact

/-- The row cannot be requeued: it neither runs nor is paused, nor will it run without being claimed. -/
def TaskRow.unstarted (r : TaskRow) : Bool := r.status == .pending || r.status == .blocked

/-- A flag that is down means that there is nothing to be done. -/
structure Store.FlagsSound (s : Store) : Prop where
  tags : s.hasTags = false → s.taskTags = []
  hierarchy : s.hasHierarchy = false → ∀ r ∈ s.tasks, r.parentId = none
  running : s.hasRunning = false → ∀ r ∈ s.tasks, r.unstarted = true

/-- Before the first claim no task goes into a paused group, and a task that is superseded raises the flags for the
tags and the parent of the new one. -/
def TaskSubmission.RaisesFlags (sha256 : List UInt8 → String) (sub : TaskSubmission) (s : Store) : Prop :=
  match s.taskByKey (sub.effectiveKey sha256) with
  | none => s.groupPaused sub.groupKey = true → s.hasRunning = true
  | some row => sub.onDuplicate = .supersede → (sub.tags.entries ≠ [] → s.hasTags = true) ∧
    (row.status = .running ∨ row.status = .waiting → sub.parentId.isSome = true → s.hasHierarchy = true)

/-- The single `UPDATE`s that pause rows. -/
def RowUpdate.pausesRows : RowUpdate → Bool
  | .pause .. | .pausePendingInGroup .. | .pausePendingByTypePrefix .. => true
  | _ => false

/-- Before the first claim no blocked task is in a paused group. -/
def Store.BlockedOutside (s : Store) : Prop :=
  s.hasRunning = false → ∀ r ∈ s.tasks, r.status = .blocked → s.groupPaused r.groupKey = false

/-- The next instance of a recurring task, if there will be one, raises no flag. -/
def TaskRecord.RaisesFlags (task : TaskRecord) (s : Store) : Prop :=
  task.recurs.isSome = true → (task.parentId.isSome = true → s.hasHierarchy = true) ∧
    (s.groupPaused task.groupKey = true → s.hasRunning = true)

/-- Whoever writes what a flag stands for finds it raised, or raises it. -/
def Action.RaisesFlags (sha256 : List UInt8 → String) (s : Store) : Action → Prop
  | .update u => u.pausesRows = true → s.hasRunning = false → ∀ r ∈ s.tasks, u.selects r = false
  | .submitDirect sub _ => sub.RaisesFlags sha256 s
  | .processSubmitBatch skipRequeue batch => (skipRequeue = true → s.hasRunning = false) ∧
    Along (fun σ m => (submitOne sha256 m.1 skipRequeue m.2 σ).2) (fun σ m => m.1.RaisesFlags sha256 σ) s batch
  | .submitChunk skipRequeue last now chunk => (skipRequeue = true → s.hasRunning = false) ∧
    Along (fun σ item => (submitItem sha256 skipRequeue last now item σ).2)
      (fun σ item => last item.1 (item.2.effectiveKey sha256) = true → item.2.RaisesFlags sha256 σ) s chunk
  | .popById id _ => s.hasRunning = false → ∀ r ∈ s.tasks, ¬ (r.id = id ∧ r.status = .pending)
  | .complete id _ _ => ∀ row, s.taskById id = some row → (rowToTaskRecord row).RaisesFlags s
  | .completeWithRecord task _ _ => task.RaisesFlags s
  | .completeBatch items _ => (∀ item ∈ items, item.1.RaisesFlags s) ∧ s.BlockedOutside
  | .resolveDependents .. | .failDependents .. => s.BlockedOutside
  | _ => True

/-- Nothing that is skipped because of a flag would have changed the result. -/
structure Store.FlagsHarmless (sha256 : List UInt8 → String) (among : Action → Prop) (s : Store) : Prop where
  tags : s.hasTags = false → s.taskTags = []
  hierarchy : s.hasHierarchy = false → ∀ r ∈ s.tasks, r.parentId = none
  /-- the requeue `UPDATE` -/
  requeue : ∀ key priority, skipExisting key priority (!s.hasRunning) s = skipExisting key priority false s
  submit : ∀ sub now, submitOne sha256 sub (!s.hasRunning) now s = submitOne sha256 sub false now s
  submits : ∀ skipRequeue batch, among (.processSubmitBatch skipRequeue batch) →
    submitEach sha256 skipRequeue batch s = submitEach sha256 false batch s
  chunks : ∀ skipRequeue last now chunk, among (.submitChunk skipRequeue last now chunk) →
    submitChunk sha256 skipRequeue last now chunk s = submitChunk sha256 false last now chunk s
  /-- `populate_tags` -/
  populate : ∀ row : TaskRow, s.populateTags (rowToTaskRecord row) =
    { rowToTaskRecord row with tags := s.tagsOf row.id }
  /-- the copy of the tags to the history, and their deletion -/
  complete : ∀ task metrics now, completeInner task metrics (!s.hasTags) now s =
    completeInner task metrics false now s
  completes : ∀ items now, Txn.mapList (completeAndResolve (!s.hasTags) now) items s =
    Txn.mapList (completeAndResolve false now) items s
  batch : ∀ items now, completeBatchFast (!s.hasTags) now items s = completeBatchFast false now items s
  fails : ∀ items now, failBatchBody (!s.hasTags) items now s = failBatchBody false items now s
  /-- the check of `active_children_count` -/
  children : s.hasHierarchy = false → ∀ id, s.activeChildrenCount id = 0

/-! ### Submission -/

section Submission

variable {sha256 : List UInt8 → String} {sub : TaskSubmission} {now : Int} {s s' : Store}

/-- Flags are raised, tags are deleted, and the rows are as good as before. -/
theorem Store.FlagsSound.of_rows (h : s.FlagsSound) (htags : s.taskTags = [] → s'.taskTags = [])
    (hflags : s'.hasTags = s.hasTags ∧ s'.hasHierarchy = s.hasHierarchy ∧ s'.hasRunning = s.hasRunning)
    (hrows : ∀ r' ∈ s'.tasks, ∃ r ∈ s.tasks, r'.parentId = r.parentId ∧
      (s.hasRunning = false → r.unstarted = true → r'.unstarted = true)) : s'.FlagsSound where
  tags hdown := htags (h.tags (hflags.1 ▸ hdown))
  hierarchy hdown r' hr' := by
    obtain ⟨r, hr, hparent, _⟩ := hrows r' hr'
    rw [hparent]
    exact h.hierarchy (hflags.2.1 ▸ hdown) r hr
  running hdown r' hr' := by
    obtain ⟨r, hr, _, hst⟩ := hrows r' hr'
    rw [hflags.2.2] at hdown
    exact hst hdown (h.running hdown r hr)

theorem Store.FlagsSound.updateTasks (h : s.FlagsSound) {p : TaskRow → Bool} {f : TaskRow → TaskRow}
    (hf : ∀ r ∈ s.tasks, p r = true → (f r).parentId = r.parentId ∧
      (s.hasRunning = false → r.unstarted = true → (f r).unstarted = true)) : (s.updateTasks p f).FlagsSound := by
  refine h.of_rows (fun h => h) ⟨rfl, rfl, rfl⟩ fun r' hr' => ?_
  obtain ⟨r, hr, rfl⟩ := List.mem_map.1 hr'
  refine ⟨r, hr, ?_⟩
  cases hp : p r with
  | true => exact hf r hr hp
  | false => exact ⟨rfl, fun _ h => h⟩

theorem Store.FlagsSound.of_same (h : s.FlagsSound) (htasks : s'.tasks = s.tasks) (htags : s'.taskTags = s.taskTags)
    (hflags : s'.hasTags = s.hasTags ∧ s'.hasHierarchy = s.hasHierarchy ∧ s'.hasRunning = s.hasRunning) :
    s'.FlagsSound := by
  refine h.of_rows (fun hnil => htags.trans hnil) hflags fun r' hr' => ?_
  rw [htasks] at hr'
  exact ⟨r', hr', rfl, fun _ h => h⟩

/-- Both ends are fine. -/
private def Sound {α : Type} (P : Store → Prop) (x : Sql α) : Prop :=
  Txn.Triple P x (fun _ => Store.FlagsSound) fun _ => Store.FlagsSound

/-- Tags are inserted under a flag that is up. -/
private theorem sound_insertTags {id : Int} {tags : List (String × String)} {K : Store → Prop}
    (hK : ∀ s tt, K s → K (s.withTags tt)) :
    Txn.Triple (fun s => (s.FlagsSound ∧ (tags ≠ [] → s.hasTags = true)) ∧ K s) (insertTags id tags)
      (fun _ s => s.FlagsSound ∧ K s) fun _ => Store.FlagsSound := by
  intro s hs
  have hend : (insertTags id tags s).2.FlagsSound ∧ K (insertTags id tags s).2 := by
    obtain ⟨tt, h⟩ := insertTags_state id tags s
    rw [h]
    refine ⟨⟨fun hdown => ?_, hs.1.1.hierarchy, hs.1.1.running⟩, hK s tt hs.2⟩
    have hnil : tags = [] := by
      by_contra hne
      rw [show (s.withTags tt).hasTags = s.hasTags from rfl, hs.1.2 hne] at hdown
      cases hdown
    subst hnil
    have hsame : s = s.withTags tt := h
    rw [← hsame]
    exact hs.1.1.tags hdown
  refine ⟨fun a s' h => ?_, fun e s' h => ?_⟩
  · rw [h] at hend
    exact hend
  · rw [h] at hend
    exact hend.1

/-- Before the first claim the group of the submission is not paused. -/
private def Store.Welcomes (sub : TaskSubmission) (s : Store) : Prop :=
  s.groupPaused sub.groupKey = true → s.hasRunning = true

private theorem sound_attachDependencies {taskId : Int} {deps : List Int} {policy : DependencyFailurePolicy} :
    Txn.Triple (fun s => s.FlagsSound ∧ s.Welcomes sub) (attachDependencies taskId deps policy)
      (fun _ s => s.FlagsSound ∧ s.Welcomes sub) fun _ => Store.FlagsSound := by
  intro s hs
  have hedges : ∀ edges, (s.addEdges edges).FlagsSound := fun edges => hs.1.of_same rfl rfl ⟨rfl, rfl, rfl⟩
  rw [attachDependencies_apply]
  split
  · exact Txn.Triple.ends_error hs.1
  · split
    · exact Txn.Triple.ends_ok hs
    · split
      · split
        · exact Txn.Triple.ends_error (hedges _)
        · exact Txn.Triple.ends_ok ⟨(hedges _).updateTasks fun r _ _ => ⟨rfl, fun _ _ => rfl⟩, hs.2⟩
      · exact Txn.Triple.ends_error hs.1

/-- The new row is in, and its parent is not known yet. -/
private structure Store.Arrived (sub : TaskSubmission) (s : Store) : Prop where
  tags : s.hasTags = false → s.taskTags = []
  hierarchy : s.hasHierarchy = false → ∀ r ∈ s.tasks, r.parentId = none ∨ r.parentId = sub.parentId
  running : s.hasRunning = false → ∀ r ∈ s.tasks, r.unstarted = true
  welcomes : s.Welcomes sub

private theorem sound_finishInsert {taskId : Int} : Sound (Store.Arrived sub) (finishInsert sub taskId now) := by
  refine Txn.Triple.bind (Q := fun _ s => s.FlagsSound ∧ s.Welcomes sub) (.modify fun s hs => ?_) fun _ => ?_
  · refine ⟨⟨hs.tags, fun hdown r hr => ?_, hs.running⟩, hs.welcomes⟩
    rw [Bool.or_eq_false_iff] at hdown
    rcases hs.hierarchy hdown.1 r hr with hnone | hparent
    · exact hnone
    · rw [hparent]
      simpa using hdown.2
  · refine Txn.Triple.bind (Q := fun _ s => s.FlagsSound ∧ s.Welcomes sub) ?_ fun _ => ?_
    · refine Txn.Triple.bind (Q := fun _ s =>
        (s.FlagsSound ∧ (sub.tags.entries ≠ [] → s.hasTags = true)) ∧ s.Welcomes sub)
        (.modify fun s hs => ?_) fun _ => sound_insertTags fun _ _ h => h
      refine ⟨⟨⟨fun hdown => ?_, hs.1.hierarchy, hs.1.running⟩, fun hne => ?_⟩, hs.2⟩
      · rw [Bool.or_eq_false_iff] at hdown
        exact hs.1.tags hdown.1
      · simp [hne]
    · refine sound_attachDependencies.bind fun _ => ?_
      refine Txn.Triple.bind (Q := fun paused s => s.FlagsSound ∧ (paused = true → s.hasRunning = true))
        (.map_get fun s hs => hs) fun paused => ?_
      refine Txn.Triple.bind (Q := fun _ => Store.FlagsSound) (.modify fun s hs => ?_) fun _ => .pure fun _ h => h
      split
      · rename_i hpaused
        refine hs.1.updateTasks fun r _ _ => ⟨rfl, fun hdown => ?_⟩
        rw [hs.2 hpaused] at hdown
        cases hdown
      · exact hs.1

private theorem sound_skipExisting {key : String} {priority : Priority} {skipRequeue : Bool} :
    Sound Store.FlagsSound (skipExisting key priority skipRequeue) := by
  refine Txn.Triple.bind (Q := fun _ => Store.FlagsSound)
    (.of_ok (fun _ _ => rfl) fun s hs => hs.updateTasks fun r _ _ => ⟨rfl, fun _ h => h⟩) fun upgraded => ?_
  split
  · exact .pure fun _ h => h
  · split
    · exact .pure fun _ h => h
    · refine Txn.Triple.bind (Q := fun _ => Store.FlagsSound)
        (.of_ok (fun _ _ => rfl) fun s hs => hs.updateTasks fun r _ _ => ⟨rfl, fun _ h => h⟩) fun requeued => ?_
      split
      · exact .pure fun _ h => h
      · exact .pure fun _ h => h

private theorem sound_delete (hs : s.FlagsSound) (id : Int) : (s.delete id).FlagsSound := by
  refine hs.of_rows (fun hnil => ?_) ⟨rfl, rfl, rfl⟩ fun r hr => ⟨r, (List.mem_filter.1 hr).1, rfl, fun _ h => h⟩
  show s.taskTags.filter _ = []
  rw [hnil]
  rfl

private theorem sound_insertHistory {task : TaskRecord} {status : HistoryStatus} {metrics : IoBudget}
    {durationMs : Option Int} {lastError : Option String} {skipTags : Bool} {K : Store → Prop}
    (hK : ∀ s row tags, K s → K (s.log row tags)) :
    Txn.Triple (fun s => s.FlagsSound ∧ K s) (insertHistory task status metrics durationMs lastError skipTags now)
      (fun _ s => s.FlagsSound ∧ K s) fun _ => Store.FlagsSound := by
  intro s hs
  have hlog : ∀ row tags, (s.log row tags).FlagsSound := fun row tags => hs.1.of_same rfl rfl ⟨rfl, rfl, rfl⟩
  refine ⟨fun a s' h => ?_, fun e s' h => ?_⟩
  · obtain ⟨tags, rfl⟩ := insertHistory_leaves h
    exact ⟨hlog _ _, hK s _ _ hs.2⟩
  · obtain ⟨tags, rfl⟩ := insertHistory_leaves h
    exact hlog _ _

/-- What is asked of a submission that supersedes a row. -/
private def Store.Accepts (sub : TaskSubmission) (row : TaskRow) (s : Store) : Prop :=
  (sub.tags.entries ≠ [] → s.hasTags = true) ∧
    (row.status = .running ∨ row.status = .waiting → sub.parentId.isSome = true → s.hasHierarchy = true)

private theorem sound_supersedeInPlace (id : Int) (row : TaskRow) :
    Sound (fun s => s.FlagsSound ∧ s.Accepts sub row) (supersedeInPlace sub id now) := by
  refine Txn.Triple.bind (Q := fun _ s => s.FlagsSound ∧ s.Accepts sub row) (.modify fun s hs => ⟨?_, hs.2⟩)
    fun _ => ?_
  · have hupdate := hs.1.updateTasks (p := (·.id == id)) (f := sub.supersedeRow s.nextInst now) fun r _ _ =>
      ⟨rfl, fun _ _ => rfl⟩
    exact Store.FlagsSound.of_same hupdate rfl rfl ⟨rfl, rfl, rfl⟩
  · refine Txn.Triple.bind (Q := fun _ s => (s.FlagsSound ∧ (sub.tags.entries ≠ [] → s.hasTags = true)) ∧ True)
      (.modify fun s hs => ⟨⟨?_, hs.2.1⟩, trivial⟩) fun _ => ?_
    · refine hs.1.of_rows (fun hnil => ?_) ⟨rfl, rfl, rfl⟩ fun r hr => ⟨r, hr, rfl, fun _ h => h⟩
      rw [Store.deleteTaskTags_taskTags, hnil]
      rfl
    · exact (sound_insertTags (K := fun _ => True) fun _ _ h => h).bind fun _ => .pure fun _ h => h.1

private theorem sound_supersedeReplace {key : String} {row : TaskRow}
    (hst : row.status = .running ∨ row.status = .waiting) :
    Sound (fun s => s.FlagsSound ∧ s.Accepts sub row) (supersedeReplace sub key row.id now) := by
  refine Txn.Triple.bind (Q := fun _ s => s.FlagsSound ∧ s.Accepts sub row)
    (.modify fun s hs => ⟨sound_delete hs.1 row.id, hs.2⟩) fun _ => ?_
  refine Txn.Triple.bind (Q := fun _ s => (s.FlagsSound ∧ (sub.tags.entries ≠ [] → s.hasTags = true)) ∧ True) ?_
    fun id => ?_
  · intro s hs
    refine ⟨fun id s' h => ?_, fun e s' h => ?_⟩
    · obtain ⟨rfl, rfl⟩ := insertTask_ok h
      refine ⟨⟨⟨hs.1.tags, fun hdown r hr => ?_, fun hdown r hr => ?_⟩, hs.2.1⟩, trivial⟩
      · rw [Store.addTask_tasks, List.mem_append, List.mem_singleton] at hr
        rcases hr with hr | rfl
        · exact hs.1.hierarchy hdown r hr
        · show sub.parentId = none
          by_contra hsome
          have hup := hs.2.2 hst (Option.isSome_iff_ne_none.2 hsome)
          rw [show (s.addTask (sub.baseRow key now)).hasHierarchy = s.hasHierarchy from rfl, hup] at hdown
          cases hdown
      · rw [Store.addTask_tasks, List.mem_append, List.mem_singleton] at hr
        rcases hr with hr | rfl
        · exact hs.1.running hdown r hr
        · rfl
    · obtain rfl := insertTask_error h
      exact hs.1
  · exact (sound_insertTags (K := fun _ => True) fun _ _ h => h).bind fun _ => .pure fun _ h => h.1

private theorem sound_supersedeExisting {key : String} :
    Sound (fun s => s.FlagsSound ∧ ∀ row, s.taskByKey key = some row → s.Accepts sub row)
    (supersedeExisting sub key now) := by
  refine Txn.Triple.bind (Q := fun found s => s.FlagsSound ∧ ∀ row, found = some row → s.Accepts sub row)
    (.map_get fun s hs => hs) fun found => ?_
  cases found with
  | none => exact .pure fun _ hs => hs.1
  | some existing =>
    have hlog : Txn.Triple (fun s => s.FlagsSound ∧ s.Accepts sub existing)
        (insertHistory (rowToTaskRecord existing) .superseded {} (existing.startedAt.map (now - ·)) none false now)
        (fun _ s => s.FlagsSound ∧ s.Accepts sub existing) fun _ => Store.FlagsSound :=
          sound_insertHistory fun _ _ _ h => h
    refine (hlog.conseq (fun s hs => ⟨hs.1, hs.2 existing rfl⟩) (fun _ _ h => h) fun _ _ h => h).bind fun _ => ?_
    cases hst : existing.status with
    | pending => exact sound_supersedeInPlace _ existing
    | paused => exact sound_supersedeInPlace _ existing
    | blocked => exact sound_supersedeInPlace _ existing
    | running => exact sound_supersedeReplace (.inl hst)
    | waiting => exact sound_supersedeReplace (.inr hst)

private theorem sound_submitOne (hs : s.FlagsSound) (hr : sub.RaisesFlags sha256 s) (skipRequeue : Bool) :
    (submitOne sha256 sub skipRequeue now s).2.FlagsSound := by
  unfold TaskSubmission.RaisesFlags at hr
  cases hv : sub.validate with
  | error e =>
    rw [submitOne_invalid hv]
    exact hs
  | ok u =>
    cases hk : s.taskByKey (sub.effectiveKey sha256) with
    | none =>
      rw [hk] at hr
      rw [submitOne_fresh hv hk]
      refine sound_finishInsert.state ⟨hs.tags, fun hdown r hr => ?_, fun hdown r hr => ?_, hr⟩
      · rw [Store.addTask_tasks, List.mem_append, List.mem_singleton] at hr
        rcases hr with hr | rfl
        · exact .inl (hs.hierarchy hdown r hr)
        · exact .inr rfl
      · rw [Store.addTask_tasks, List.mem_append, List.mem_singleton] at hr
        rcases hr with hr | rfl
        · exact hs.running hdown r hr
        · rfl
    | some row =>
      rw [hk] at hr
      rw [submitOne_duplicate hv hk]
      cases hdup : sub.onDuplicate with
      | reject => exact hs
      | skip => exact sound_skipExisting.state hs
      | supersede =>
        refine sound_supersedeExisting.state ⟨hs, fun row' hrow' => ?_⟩
        rw [hk] at hrow'
        cases hrow'
        exact hr hdup

end Submission

/-! ### Flags go up only -/

section Up

variable {sha256 : List UInt8 → String} {sub : TaskSubmission} {now : Int}

/-- The tables are as before and the flags are those of a failed run. -/
private theorem sound_rollback {s s' : Store} (hs : s.FlagsSound) (hup : s.FlagsUp s') :
    (s.rollback s').FlagsSound where
  tags hdown := hs.tags (by
    cases h : s.hasTags with
    | false => rfl
    | true => exact (hup.tags h).symm.trans hdown)
  hierarchy hdown := hs.hierarchy (by
    cases h : s.hasHierarchy with
    | false => rfl
    | true => exact (hup.hierarchy h).symm.trans hdown)
  running hdown := hs.running (hup.running.symm.trans hdown)

private theorem sound_transaction {α : Type} {x : Sql α} {s : Store} (hs : s.FlagsSound) (hend : (x s).2.FlagsSound)
    (hup : s.FlagsUp (x s).2) : (transaction x s).2.FlagsSound := by
  rcases Txn.atomically_cases Store.rollback x s with ⟨a, s', hok, he⟩ | ⟨e, s', herr, he⟩
  · rw [hok] at hend
    rw [transaction, he]
    exact hend
  · rw [herr] at hup
    rw [transaction, he]
    exact sound_rollback hs hup

/-- Messages that share a transaction. -/
private theorem sound_submitEach {skipRequeue : Bool} (batch : List (TaskSubmission × Int)) {s : Store}
    (hs : s.FlagsSound)
    (hr : Along (fun σ m => (submitOne sha256 m.1 skipRequeue m.2 σ).2) (fun σ m => m.1.RaisesFlags sha256 σ)
      s batch) :
    (submitEach sha256 skipRequeue batch s).2.FlagsSound := by
  induction batch generalizing s with
  | nil => exact hs
  | cons message batch ih => exact ih (sound_submitOne hs hr.1 skipRequeue) hr.2

private theorem sound_submitItem {skipRequeue : Bool} {last : Nat → String → Bool}
    {item : Nat × TaskSubmission} {s : Store} (hs : s.FlagsSound)
    (hr : last item.1 (item.2.effectiveKey sha256) = true → item.2.RaisesFlags sha256 s) :
    (submitItem sha256 skipRequeue last now item s).2.FlagsSound := by
  rw [submitItem]
  split
  · rename_i hlast
    exact sound_submitOne hs (hr hlast) skipRequeue
  · exact hs

private theorem sound_submitItems {skipRequeue : Bool} {last : Nat → String → Bool}
    (chunk : List (Nat × TaskSubmission)) {s : Store} (hs : s.FlagsSound)
    (hr : Along (fun σ item => (submitItem sha256 skipRequeue last now item σ).2)
      (fun σ item => last item.1 (item.2.effectiveKey sha256) = true → item.2.RaisesFlags sha256 σ) s chunk) :
    (Txn.mapList (submitItem sha256 skipRequeue last now) chunk s).2.FlagsSound := by
  induction chunk generalizing s with
  | nil => exact hs
  | cons item chunk ih =>
    have hitem : (submitItem sha256 skipRequeue last now item s).2.FlagsSound := sound_submitItem hs hr.1
    refine Txn.bind_state (fun e s' h => ?_) fun a s' h => ?_
    · rw [h] at hitem
      exact hitem
    · rw [h] at hitem
      have hrest := hr.2
      dsimp only at hrest
      rw [h] at hrest
      rw [Txn.bind_pure_state]
      exact ih hitem hrest

end Up

/-! ### The other steps leave the flags alone -/

section Fixed

variable {flags : Bool × Bool × Bool} {T : Prop} {now : Int}

/-- The flags of the store are these, and under `T` there are no tags. -/
private structure Store.Fixed (flags : Bool × Bool × Bool) (T : Prop) (s : Store) : Prop where
  flags : (s.hasTags, s.hasHierarchy, s.hasRunning) = flags
  tags : T → s.taskTags = []

private def Fixes {α : Type} (flags : Bool × Bool × Bool) (T : Prop) (x : Sql α) : Prop :=
  Txn.Triple (Store.Fixed flags T) x (fun _ => Store.Fixed flags T) fun _ => Store.Fixed flags T

private theorem Store.Fixed.delete {s : Store} (h : s.Fixed flags T) (id : Int) : (s.delete id).Fixed flags T := by
  refine ⟨h.flags, fun ht => ?_⟩
  show s.taskTags.filter _ = []
  rw [h.tags ht]
  rfl

private theorem fixes_transaction {α : Type} {x : Sql α} (hx : Fixes flags T x) : Fixes flags T (transaction x) :=
  hx.atomically fun _ _ _ hs he => ⟨he.flags, hs.tags⟩

private theorem fixes_insertHistory {task : TaskRecord} {status : HistoryStatus} {metrics : IoBudget}
    {durationMs : Option Int} {lastError : Option String} {skipTags : Bool} :
    Fixes flags T (insertHistory task status metrics durationMs lastError skipTags now) := by
  intro s hs
  refine ⟨fun a s' h => ?_, fun e s' h => ?_⟩
  · obtain ⟨tags, rfl⟩ := insertHistory_leaves h
    exact ⟨hs.flags, hs.tags⟩
  · obtain ⟨tags, rfl⟩ := insertHistory_leaves h
    exact ⟨hs.flags, hs.tags⟩

private theorem fixes_insertTags {id : Int} {tags : List (String × String)} (hnil : T → tags = []) :
    Fixes flags T (insertTags id tags) := by
  intro s hs
  have hend : (insertTags id tags s).2.Fixed flags T := by
    obtain ⟨tt, h⟩ := insertTags_state id tags s
    rw [h]
    refine ⟨hs.flags, fun ht => ?_⟩
    rw [hnil ht] at h
    have hsame : s = s.withTags tt := h
    rw [← hsame]
    exact hs.tags ht
  refine ⟨fun a s' h => ?_, fun e s' h => ?_⟩
  · rw [h] at hend
    exact hend
  · rw [h] at hend
    exact hend

private theorem fixes_insertTask {row : TaskRow} : Fixes flags T (insertTask row) := by
  intro s hs
  rw [insertTask]
  split
  · exact Txn.Triple.ends_error hs
  · exact Txn.Triple.ends_ok ⟨hs.flags, hs.tags⟩

private theorem fixes_pure {α : Type} {a : α} : Fixes flags T (pure a : Sql α) := .pure fun _ h => h

private theorem fixes_modify {f : Store → Store} (hf : ∀ s : Store, s.Fixed flags T → (f s).Fixed flags T) :
    Fixes flags T (Txn.modify f : Sql Unit) := .modify hf

private theorem fixes_read {α : Type} {g : Store → α} : Fixes flags T (g <$> Txn.get : Sql α) := .map_get fun _ h => h

private theorem fixes_resolveDependentsInner {id : Int} : Fixes flags T (resolveDependentsInner id now) := by
  have hedges : Fixes flags T (deleteEdgesTo id) := .of_ok (fun _ _ => rfl) fun s hs => ⟨hs.flags, hs.tags⟩
  have hunblock : ∀ ids, Fixes flags T (unblock ids) :=
    fun ids => .of_ok (fun _ _ => rfl) fun s hs => ⟨hs.flags, hs.tags⟩
  refine hedges.bind fun dependents => ?_
  split
  · exact fixes_pure
  · exact (hunblock _).bind fun unblocked =>
        Txn.Triple.bind (Q := fun _ => Store.Fixed flags T) (.modify fun s hs => ⟨hs.flags, hs.tags⟩) fun _ =>
          fixes_pure

private theorem fixes_createNextInstance {task : TaskRecord} {saved : List (String × String)} {interval : Int}
    (hnil : T → saved = []) : Fixes flags T (createNextInstance task saved interval now) := by
  refine Txn.Triple.get_bind fun t => ?_
  split
  · exact fixes_pure
  · refine fixes_insertTask.bind fun id => (fixes_insertTags hnil).bind fun _ => fixes_read.bind fun paused => ?_
    refine (fixes_modify fun s hs => ?_).bind fun _ => fixes_pure
    split
    · exact ⟨hs.flags, hs.tags⟩
    · exact hs

private theorem fixes_completeInner {task : TaskRecord} {metrics : IoBudget} {skipTags : Bool} :
    Fixes flags T (completeInner task metrics skipTags now) := by
  refine fixes_insertHistory.bind fun _ => ?_
  refine Txn.Triple.bind (Q := fun saved s => Store.Fixed flags T s ∧ (T → saved = []))
    (.map_get fun s hs => ⟨hs, fun ht => ?_⟩) fun saved => ?_
  · rw [Store.tagsOf, hs.tags ht]
    rfl
  · have hsaved {α : Type} {x : Sql α} (h : (T → saved = []) → Fixes flags T x) :
        Txn.Triple (fun s => Store.Fixed flags T s ∧ (T → saved = [])) x (fun _ => Store.Fixed flags T)
          (fun _ => Store.Fixed flags T) := fun s hs => h hs.2 s hs.1
    have hdelete : Fixes flags T (deleteCompleted task.id) := .of_ok (fun _ _ => rfl) fun s hs => ⟨hs.flags, hs.tags⟩
    refine hsaved fun hnone => hdelete.bind fun deleted => ?_
    split
    · exact Txn.Triple.bind (Q := fun _ => Store.Fixed flags T) (.modify fun s hs => ⟨hs.flags, hs.tags⟩) fun _ =>
        fixes_pure
    · refine Txn.Triple.bind (Q := fun _ => Store.Fixed flags T) (.modify fun s hs => ?_) fun _ => ?_
      · split
        · exact hs
        · refine ⟨hs.flags, fun ht => ?_⟩
          show s.taskTags.filter _ = []
          rw [hs.tags ht]
          rfl
      · split
        · exact fixes_pure
        · exact fixes_createNextInstance hnone

private theorem fixes_completeAndResolve {item : TaskRecord × IoBudget} {skipTags : Bool} :
    Fixes flags T (completeAndResolve skipTags now item) :=
  fixes_completeInner.bind fun _ => fixes_resolveDependentsInner.bind fun _ => fixes_pure

private theorem fixes_resets (ids : List Int) {s : Store} (hs : s.Fixed flags T) :
    (ids.foldl Store.resetRequeued s).Fixed flags T := by
  induction ids generalizing s with
  | nil => exact hs
  | cons id ids ih => exact ih ⟨hs.flags, hs.tags⟩

private theorem fixes_filterTags {s : Store} (hs : s.Fixed flags T) (p : Int × String × String → Bool) :
    ({ s with taskTags := s.taskTags.filter p } : Store).Fixed flags T := by
  refine ⟨hs.flags, fun ht => ?_⟩
  show s.taskTags.filter p = []
  rw [hs.tags ht]
  rfl

private theorem fixes_completeBatchFast {items : List (TaskRecord × IoBudget)} {skipTags : Bool} :
    Fixes flags T (completeBatchFast skipTags now items) := by
  have hdelete : ∀ ids, Fixes flags T (deleteCompletedBatch ids) := fun ids =>
    .of_ok (fun _ _ => rfl) fun s hs => ⟨hs.flags, hs.tags⟩
  have hedges : ∀ ids, Fixes flags T (deleteEdgesToAll ids) := fun ids =>
    .of_ok (fun _ _ => rfl) fun s hs => ⟨hs.flags, hs.tags⟩
  have hunblock : ∀ ids, Fixes flags T (unblock ids) :=
    fun ids => .of_ok (fun _ _ => rfl) fun s hs => ⟨hs.flags, hs.tags⟩
  refine (Txn.Triple.mapList fun item _ => fixes_insertHistory).bind fun _ => (hdelete _).bind fun deleted => ?_
  refine (fixes_modify fun s hs => fixes_resets _ hs).bind fun _ => ?_
  refine Txn.Triple.bind (Q := fun _ => Store.Fixed flags T) (.modify fun s hs => ?_) fun _ =>
    (hedges _).bind fun dependents => ?_
  · split
    · exact hs
    · exact fixes_filterTags hs _
  · split
    · exact fixes_pure
    · exact (hunblock _).bind fun unblocked =>
        Txn.Triple.bind (Q := fun _ => Store.Fixed flags T) (.modify fun s hs => ⟨hs.flags, hs.tags⟩) fun _ =>
          fixes_pure

private theorem fixes_failInner {task : TaskRecord} {error : String} {retryable : Bool} {maxRetries : Int}
    {metrics : IoBudget} {backoff : FailBackoff} :
    Fixes flags T (failInner task error retryable maxRetries metrics backoff now) := by
  unfold failInner
  split
  · exact fixes_modify fun s hs => ⟨hs.flags, hs.tags⟩
  · exact fixes_insertHistory.bind fun _ => fixes_modify fun s hs => hs.delete task.id

private theorem fixes_failBatchBody {items : List FailureItem} {skipTags : Bool} :
    Fixes flags T (failBatchBody skipTags items now) := by
  refine (Txn.Triple.mapList fun item _ => fixes_insertHistory).bind fun _ => ?_
  refine Txn.Triple.bind (Q := fun _ => Store.Fixed flags T) (.modify fun s hs => ⟨hs.flags, hs.tags⟩) fun _ => ?_
  refine fixes_modify fun s hs => ?_
  split
  · exact hs
  · exact fixes_filterTags hs _

private theorem fixes_remove {s : Store} (hs : s.Fixed flags T) (id : Int) :
    (((s.deleteEdgesFrom id).deleteTaskTags id).deleteTasks (·.id == id)).Fixed flags T :=
  Store.Fixed.delete (s := s.deleteEdgesFrom id) ⟨hs.flags, hs.tags⟩ id

private theorem fixes_cancelInner {task : TaskRecord} : Fixes flags T (cancelInner task now) :=
  fixes_insertHistory.bind fun _ => fixes_modify fun _ hs => fixes_remove hs task.id

private theorem fixes_expireRow (row : TaskRow) : Fixes flags T (expireRow row now) :=
  .get_bind fun _ => fixes_insertHistory.bind fun _ =>
    (fixes_modify fun _ hs => hs.delete row.id).bind fun _ => fixes_pure

private theorem fixes_expireWithChildren (row : TaskRow) : Fixes flags T (expireWithChildren now row) := by
  refine .get_bind fun _ => fixes_insertHistory.bind fun _ => fixes_read.bind fun children => ?_
  refine (Txn.Triple.mapList fun child _ => fixes_expireRow child).bind fun _ => ?_
  exact (fixes_modify fun _ hs => fixes_remove hs row.id).bind fun _ => fixes_pure

private theorem fixes_failDependentsInner {fuel : Nat} {id : Int} :
    Fixes flags T (failDependentsInner now fuel id) := by
  induction fuel generalizing id with
  | zero => exact fixes_pure
  | succ fuel ih =>
    have hedges : Fixes flags T (deleteEdgesTo id) := .of_ok (fun _ _ => rfl) fun s hs => ⟨hs.flags, hs.tags⟩
    refine hedges.bind fun dependents => (Txn.Triple.mapList fun depId _ => ?_).bind fun _ => fixes_pure
    refine fixes_read.bind fun row => ?_
    have hremove : ∀ task : TaskRow, Fixes flags T (dependencyFail id task now) := fun task =>
      fixes_insertHistory.bind fun _ => fixes_modify fun _ hs => fixes_remove hs task.id
    have hrelease : Fixes flags T (releaseDependent depId now) := by
      intro s hs
      rw [releaseDependent]
      split
      · exact Txn.Triple.ends_ok hs
      · split
        · exact Txn.Triple.ends_ok ⟨hs.flags, hs.tags⟩
        · exact Txn.Triple.ends_ok hs
    cases row with
    | none => exact fixes_pure
    | some task =>
      dsimp only
      split
      · exact (hremove task).bind fun _ => ih.bind fun _ => fixes_pure
      · exact (hremove task).bind fun _ => ih.bind fun _ => fixes_pure
      · exact hrelease.bind fun _ => fixes_pure

/-- The steps that neither submit nor claim. -/
def Action.plain : Action → Bool
  | .submitDirect .. | .processSubmitBatch .. | .submitChunk .. | .claimTask .. | .popNextBatch .. => false
  | _ => true

private theorem fixed_exec (sha256 : List UInt8 → String) {s : Store} {a : Action} (ha : a.plain = true)
    (hs : s.Fixed flags T) :
    (a.exec sha256 s).Fixed flags T := by
  cases a with
  | submitDirect | processSubmitBatch | submitChunk | claimTask | popNextBatch => cases ha
  | update u =>
    rw [Action.exec, u.exec_update]
    exact ⟨hs.flags, hs.tags⟩
  | popById id now => exact ⟨hs.flags, hs.tags⟩
  | complete id metrics now =>
    refine (fixes_transaction fun t ht => ?_).state hs
    dsimp only
    cases t.taskById id with
    | none => exact Txn.Triple.ends_ok ht
    | some row => exact fixes_completeInner.bind_pure t ht
  | completeWithRecord task metrics now => exact (fixes_transaction fun t ht => fixes_completeInner t ht).state hs
  | completeBatch items now =>
    obtain _ | ⟨⟨task, metrics⟩, _ | ⟨second, rest⟩⟩ := items
    · exact hs
    · have hone : Fixes flags T (completeAndResolveTx task metrics now) :=
        fixes_transaction fun t ht => fixes_completeAndResolve t ht
      have hbatch : Fixes flags T (completeBatchTx [(task, metrics)] now) := hone.bind_pure
      exact hbatch.state hs
    · have hbatch : Fixes flags T (completeBatchTx ((task, metrics) :: second :: rest) now) := by
        rw [completeBatchTx.eq_def]
        dsimp only
        split
        · exact fixes_transaction fun t ht => (Txn.Triple.mapList fun item _ => fixes_completeAndResolve) t ht
        · have hfast : Fixes flags T
              (transaction fun s => completeBatchFast (!s.hasTags) now ((task, metrics) :: second :: rest) s) :=
            fixes_transaction fun t ht => fixes_completeBatchFast t ht
          exact hfast.bind_pure
      exact hbatch.state hs
  | resolveDependents id now => exact (fixes_transaction fixes_resolveDependentsInner).state hs
  | fail id error retryable maxRetries metrics backoff now =>
    refine (fixes_transaction fun t ht => ?_).state hs
    cases t.taskById id with
    | none => exact Txn.Triple.ends_ok ht
    | some row => exact fixes_failInner t ht
  | failWithRecord task error retryable maxRetries metrics backoff now =>
    exact (fixes_transaction fixes_failInner).state hs
  | failBatch items now =>
    obtain _ | ⟨first, _ | ⟨second, rest⟩⟩ := items
    · exact hs
    · exact (fixes_transaction fixes_failInner).state hs
    · rw [Action.exec, failBatchTx_several (by simp)]
      exact (fixes_transaction fun t ht => fixes_failBatchBody t ht).state hs
  | failDependents id now => exact (fixes_transaction fun t ht => fixes_failDependentsInner t ht).state hs
  | cancelToHistory id now =>
    refine (fixes_transaction fun t ht => ?_).state hs
    cases t.taskById id with
    | none => exact Txn.Triple.ends_ok ht
    | some row => exact fixes_cancelInner.bind_pure t ht
  | cancelToHistoryWithRecord task now => exact (fixes_transaction fixes_cancelInner).state hs
  | cancelChildren parent read now =>
    have hx : Fixes flags T (cancelChildrenTx parent read now) := by
      unfold cancelChildrenTx
      split
      · exact fixes_pure
      · refine fixes_transaction ((Txn.Triple.mapList fun row _ => fixes_insertHistory).bind fun _ => ?_)
        exact fixes_modify fun s hs => ⟨hs.flags, hs.tags⟩
    exact hx.state hs
  | expireTasks now =>
    have hx : Fixes flags T (expireTasksTx now) :=
      fixes_transaction (fixes_read.bind fun rows =>
        (Txn.Triple.mapList fun row _ => fixes_expireWithChildren row).bind fun _ => fixes_pure)
    exact hx.state hs
  | expireSingle id now =>
    refine (fixes_transaction fun t ht => ?_).state hs
    cases t.tasks.find? fun r => r.id == id && r.past now && r.pendingOrPaused with
    | none => exact Txn.Triple.ends_ok ht
    | some row => exact (fixes_expireRow row).bind_pure t ht
  | pauseGroupState group resumeAt now =>
    rw [Action.exec, Store.pauseGroupState]
    split
    · exact hs
    · exact ⟨hs.flags, hs.tags⟩
  | resumeGroupState group => exact ⟨hs.flags, hs.tags⟩
  | delete id => exact hs.delete id
  | deleteHistory historyId => exact ⟨hs.flags, hs.tags⟩
  | pruneHistoryByAge days now => exact ⟨hs.flags, hs.tags⟩
  | pruneHistoryByCount keep => exact ⟨hs.flags, hs.tags⟩
  | maybePrune now =>
    rw [Action.exec, Store.maybePrune]
    split
    · exact hs
    · dsimp only
      split
      · exact ⟨hs.flags, hs.tags⟩
      · split
        · exact ⟨hs.flags, hs.tags⟩
        · exact ⟨hs.flags, hs.tags⟩
  | recoverRunning now =>
    rw [Action.exec, Store.recoverRunning]
    split
    · exact ⟨hs.flags, hs.tags⟩
    · exact ⟨hs.flags, hs.tags⟩

end Fixed

/-! ### One step -/

section Step

variable {sha256 : List UInt8 → String} {s : Store} {a : Action}

/-- No step gives a row a parent while the flag is down. -/
private theorem orphans_exec (hschema : s.Schema) (hplain : a.plain = true) (ha : a.RaisesFlags sha256 s)
    (hdown : s.hasHierarchy = false) (hrows : ∀ r ∈ s.tasks, r.parentId = none) :
    ∀ r ∈ (a.exec sha256 s).tasks, r.parentId = none := by
  have hnext (task : TaskRecord) (h : task.RaisesFlags s) (interval now : Int) (hrec : task.recurs = some interval)
      (id : Int) (inst : Nat) :
      (if s.groupPaused task.groupKey then
          { task.nextInstance interval now with id := id, inst := inst }.pauseFor .group now
        else { task.nextInstance interval now with id := id, inst := inst }).parentId = none := by
    have hparent : task.parentId = none := by
      by_contra hsome
      have hup := (h (by rw [hrec]; rfl)).1 (Option.isSome_iff_ne_none.2 hsome)
      rw [hdown] at hup
      cases hup
    split
    · exact hparent
    · exact hparent
  refine a.rows_exec sha256 (P := fun r => r.parentId = none) hschema hrows ?_
  cases a with
  | submitDirect | processSubmitBatch | submitChunk | claimTask | popNextBatch => cases hplain
  | update u =>
    intro r hr _
    have hsame : (u.change r).parentId = r.parentId := by
      cases u <;> rfl
    rw [hsame]
    exact hrows r hr
  | popById id now => exact fun r hr _ _ => hrows r hr
  | complete id metrics now =>
    intro row hrow
    refine ⟨fun r hr _ _ _ _ => hr, fun task htask interval hrec id inst _ => ?_⟩
    rw [List.mem_singleton.1 htask] at hrec ⊢
    exact hnext _ (ha row hrow) interval now hrec id inst
  | completeWithRecord task metrics now =>
    refine ⟨fun r hr _ _ _ _ => hr, fun task' htask interval hrec id inst _ => ?_⟩
    rw [List.mem_singleton.1 htask] at hrec ⊢
    exact hnext _ ha interval now hrec id inst
  | completeBatch items now =>
    refine ⟨⟨fun r hr _ _ _ _ => hr, fun task htask interval hrec id inst _ => ?_⟩, fun r hr _ => ?_⟩
    · obtain ⟨item, hitem, rfl⟩ := List.mem_map.1 htask
      exact hnext _ (ha.1 item hitem) interval now hrec id inst
    · rw [Store.freeRow]
      split
      · exact hr
      · exact hr
  | resolveDependents id now | failDependents id now =>
    intro r hr _
    rw [Store.freeRow]
    split
    · exact hr
    · exact hr
  | fail id error retryable maxRetries metrics backoff now =>
    exact fun r hr _ => hrows r (List.mem_of_find?_eq_some hr)
  | failWithRecord task error retryable maxRetries metrics backoff now => exact fun _ r hr _ => hrows r hr
  | recoverRunning now => exact ⟨fun r hr _ => hrows r hr, fun r hr _ _ => hrows r hr, fun r hr _ _ _ => hrows r hr⟩
  | _ => trivial

theorem TaskRow.unstarted_iff {r : TaskRow} : r.unstarted = true ↔ r.status = .pending ∨ r.status = .blocked := by
  simp [TaskRow.unstarted]

/-- The single `UPDATE`s that are not pauses leave rows that cannot be requeued. -/
private theorem RowUpdate.change_unstarted {u : RowUpdate} {r : TaskRow}
    (hpauses : u.pausesRows = true → u.selects r = false) (hr : r.unstarted = true) (hsel : u.selects r = true) :
    (u.change r).unstarted = true := by
  rw [TaskRow.unstarted_iff] at hr
  cases u with
  | requeue | requeueForRetry | resume | resumeSole => rfl
  | setRunAfter | incrementRetry | clearBit | addGroupBit | setRecurringPaused => exact TaskRow.unstarted_iff.2 hr
  | pause | pausePendingInGroup | pausePendingByTypePrefix =>
    rw [hpauses rfl] at hsel
    cases hsel
  | setWaiting id memo =>
    have hst : r.status = .running := by
      simp only [RowUpdate.selects, Bool.and_eq_true, beq_iff_eq] at hsel
      exact hsel.2
    simp [hst] at hr
  | setRunningForFinalize id now =>
    have hst : r.status = .waiting := by
      simp only [RowUpdate.selects, Bool.and_eq_true, beq_iff_eq] at hsel
      exact hsel.2
    simp [hst] at hr

/-- The row cannot be requeued, and if it is unblocked it still cannot. -/
private def Store.Unrequeueable (s : Store) (r : TaskRow) : Prop :=
  r.unstarted = true ∧ (r.status = .blocked → s.groupPaused r.groupKey = false)

/-- Before the first claim no step makes a row running or paused. -/
private theorem unstarted_exec (hschema : s.Schema) (hplain : a.plain = true) (ha : a.RaisesFlags sha256 s)
    (hdown : s.hasRunning = false) (hrows : ∀ r ∈ s.tasks, r.unstarted = true) :
    ∀ r ∈ (a.exec sha256 s).tasks, r.unstarted = true := by
  have hnext (task : TaskRecord) (h : task.RaisesFlags s) (interval now : Int) (hrec : task.recurs = some interval)
      (id : Int) (inst : Nat) :
      s.Unrequeueable (if s.groupPaused task.groupKey then
          { task.nextInstance interval now with id := id, inst := inst }.pauseFor .group now
        else { task.nextInstance interval now with id := id, inst := inst }) := by
    have hgroup : ¬ s.groupPaused task.groupKey = true := by
      intro hpaused
      have hup := (h (by rw [hrec]; rfl)).2 hpaused
      rw [hdown] at hup
      cases hup
    rw [if_neg hgroup]
    exact ⟨rfl, fun hst => by cases hst⟩
  have hfree (now : Int) (r : TaskRow) (hr : s.Unrequeueable r) (hst : r.status = .blocked) :
      s.Unrequeueable (s.freeRow now r) := by
    rw [Store.freeRow, hr.2 hst]
    exact ⟨rfl, fun h => by cases h⟩
  have hidle (hout : s.BlockedOutside) : s.Rows s.Unrequeueable := fun r hr => ⟨hrows r hr, hout hdown r hr⟩
  cases a with
  | submitDirect | processSubmitBatch | submitChunk | claimTask | popNextBatch => cases hplain
  | completeBatch items now =>
    have hkeep : (Action.completeBatch items now).KeepsRows sha256 s.Unrequeueable s := by
      refine ⟨⟨fun r hr _ _ _ _ => ⟨rfl, fun h => by cases h⟩, fun task htask interval hrec id inst _ => ?_⟩,
        hfree now⟩
      obtain ⟨item, hitem, rfl⟩ := List.mem_map.1 htask
      exact hnext _ (ha.1 item hitem) interval now hrec id inst
    exact fun r hr => (Action.rows_exec sha256 hschema (hidle ha.2) _ hkeep r hr).1
  | resolveDependents id now =>
    exact fun r hr => (Action.rows_exec sha256 hschema (hidle ha) (.resolveDependents id now) (hfree now) r hr).1
  | failDependents id now =>
    exact fun r hr => (Action.rows_exec sha256 hschema (hidle ha) (.failDependents id now) (hfree now) r hr).1
  | update u =>
    exact Action.rows_exec sha256 (P := fun r => r.unstarted = true) hschema hrows _ fun r hr hsel =>
      u.change_unstarted (fun hpauses => ha hpauses hdown r hr) (hrows r hr) hsel
  | popById id now =>
    refine Action.rows_exec sha256 (P := fun r => r.unstarted = true) hschema hrows _ fun r hr hid hst => ?_
    exact absurd ⟨hid, hst⟩ (ha hdown r hr)
  | complete id metrics now =>
    refine Action.rows_exec sha256 (P := fun r => r.unstarted = true) hschema hrows _ fun row hrow => ?_
    refine ⟨fun r hr _ _ _ _ => rfl, fun task htask interval hrec id inst _ => ?_⟩
    rw [List.mem_singleton.1 htask] at hrec ⊢
    exact (hnext _ (ha row hrow) interval now hrec id inst).1
  | completeWithRecord task metrics now =>
    refine Action.rows_exec sha256 (P := fun r => r.unstarted = true) hschema hrows _ ?_
    refine ⟨fun r hr _ _ _ _ => rfl, fun task' htask interval hrec id inst _ => ?_⟩
    rw [List.mem_singleton.1 htask] at hrec ⊢
    exact (hnext _ ha interval now hrec id inst).1
  | fail id error retryable maxRetries metrics backoff now =>
    exact Action.rows_exec sha256 (P := fun r => r.unstarted = true) hschema hrows _ fun r _ _ => rfl
  | failWithRecord task error retryable maxRetries metrics backoff now =>
    exact Action.rows_exec sha256 (P := fun r => r.unstarted = true) hschema hrows _ fun _ r _ _ => rfl
  | recoverRunning now =>
    refine Action.rows_exec sha256 (P := fun r => r.unstarted = true) hschema hrows _ ?_
    exact ⟨fun r _ _ => rfl, fun r hr _ _ => hrows r hr, fun r _ _ _ _ => rfl⟩
  | _ => exact Action.rows_exec sha256 (P := fun r => r.unstarted = true) hschema hrows _ trivial

/-- Claims raise the flag for what runs. -/
private theorem sound_claimRows {p : TaskRow → Bool} {now : Int} (hs : s.FlagsSound) :
    ((s.updateTasks p (TaskRow.claim now)).noteRunning
      !((s.tasks.filter p).map (TaskRow.claim now)).isEmpty).FlagsSound where
  tags hdown := hs.tags hdown
  hierarchy hdown r' hr' := by
    obtain ⟨r, hr, rfl⟩ := List.mem_map.1 hr'
    split
    · exact hs.hierarchy hdown r hr
    · exact hs.hierarchy hdown r hr
  running hdown r' hr' := by
    have hflags : s.hasRunning = false ∧ (!((s.tasks.filter p).map (TaskRow.claim now)).isEmpty) = false :=
      Bool.or_eq_false_iff.1 hdown
    obtain ⟨r, hr, rfl⟩ := List.mem_map.1 hr'
    have hp : ¬ p r = true := by
      intro hp
      have hmem : r.claim now ∈ (s.tasks.filter p).map (TaskRow.claim now) :=
        List.mem_map_of_mem (List.mem_filter.2 ⟨hr, hp⟩)
      have hnil : (s.tasks.filter p).map (TaskRow.claim now) = [] := by simpa using hflags.2
      rw [hnil] at hmem
      cases hmem
    rw [if_neg hp]
    exact hs.running hflags.1 r hr

/-- A step that raises the flags, or finds them raised, leaves them sound. -/
theorem flagsSound_exec (hschema : s.Schema) (hs : s.FlagsSound) (ha : a.RaisesFlags sha256 s) :
    (a.exec sha256 s).FlagsSound := by
  by_cases hplain : a.plain = true
  · have hfixed : (a.exec sha256 s).Fixed (s.hasTags, s.hasHierarchy, s.hasRunning) (s.hasTags = false) :=
      fixed_exec sha256 hplain ⟨rfl, hs.tags⟩
    have hflags := hfixed.flags
    simp only [Prod.mk.injEq] at hflags
    refine ⟨fun hdown => hfixed.tags (hflags.1.symm.trans hdown), fun hdown => ?_, fun hdown => ?_⟩
    · rw [hflags.2.1] at hdown
      exact orphans_exec hschema hplain ha hdown (hs.hierarchy hdown)
    · rw [hflags.2.2] at hdown
      exact unstarted_exec hschema hplain ha hdown (hs.running hdown)
  · cases a with
    | submitDirect sub now =>
      exact sound_transaction (x := fun s => submitOne sha256 sub (!s.hasRunning) now s) hs
        (sound_submitOne hs ha _) (submitOne_flags s)
    | processSubmitBatch skipRequeue batch => exact sound_submitEach batch hs ha.2
    | submitChunk skipRequeue last now chunk =>
      exact sound_transaction hs (sound_submitItems chunk hs ha.2)
        (Txn.Always.mapList Store.FlagsUp.refl Store.FlagsUp.trans (fun item => submitItem_flags) chunk s)
    | claimTask id now => exact sound_claimRows hs
    | popNextBatch limit aging now =>
      rw [Action.exec, popNextBatch.eq_def]
      split
      · exact hs
      · exact sound_claimRows hs
      · exact sound_claimRows hs
    | _ => exact absurd rfl hplain

end Step

/-! ### Skipping -/

section Skipping

variable {sha256 : List UInt8 → String} {sub : TaskSubmission} {now : Int} {skipTags : Bool} {s : Store}

private theorem updateByKey_idle {p : TaskRow → Bool} {f : TaskRow → TaskRow} (h : ∀ r ∈ s.tasks, p r = false) :
    updateByKey p f s = (.ok none, s) := by
  have hfind : s.tasks.find? p = none := by
    rw [List.find?_eq_none]
    intro r hr hp
    rw [h r hr] at hp
    cases hp
  have hsame : (s.tasks.map fun r => if p r then f r else r) = s.tasks := by
    refine (List.map_congr_left fun r hr => ?_).trans (List.map_id s.tasks)
    rw [h r hr]
    rfl
  rw [updateByKey, hfind, Store.updateTasks, hsame]
  rfl

/-- There is nothing for the requeue `UPDATE` to find. -/
theorem skipExisting_idle (hrows : ∀ r ∈ s.tasks, r.unstarted = true) (key : String) (priority : Priority)
    (skipRequeue : Bool) :
    skipExisting key priority skipRequeue s = skipExisting key priority false s := by
  cases skipRequeue with
  | false => rfl
  | true =>
    have hupgrade : Txn.Triple (E := fun _ _ => True) (fun s : Store => ∀ r ∈ s.tasks, r.unstarted = true)
        (updateByKey (fun r => r.key == key && (r.status == .pending || r.status == .paused) && priority < r.priority)
          fun r => { r with priority := priority }) fun _ s => ∀ r ∈ s.tasks, r.unstarted = true :=
      .of_ok (fun _ _ => rfl) fun s hs => Store.Rows.update hs fun r hr _ => hs r hr
    refine hupgrade.bind_congr hrows rfl fun upgraded s' hs' => ?_
    cases upgraded with
    | some id => rfl
    | none =>
      -- neither running nor paused
      have hnone : ∀ r ∈ s'.tasks, (r.key == key && (r.status == .running || r.status == .paused) &&
          (!r.requeue || r.requeuePriority.any (priority < ·))) = false := by
        intro r hr
        rcases TaskRow.unstarted_iff.1 (hs' r hr) with hst | hst
        · simp [hst]
        · simp [hst]
      show _ = (updateByKey _ _ >>= fun requeued => _) s'
      rw [Txn.bind_of_ok (updateByKey_idle hnone)]
      rfl

theorem submitOne_idle (hrows : ∀ r ∈ s.tasks, r.unstarted = true) (skipRequeue : Bool) :
    submitOne sha256 sub skipRequeue now s = submitOne sha256 sub false now s := by
  cases hv : sub.validate with
  | error e => rw [submitOne_invalid hv, submitOne_invalid hv]
  | ok u =>
    cases hk : s.taskByKey (sub.effectiveKey sha256) with
    | none => rw [submitOne_fresh hv hk, submitOne_fresh hv hk]
    | some row =>
      rw [submitOne_duplicate hv hk, submitOne_duplicate hv hk]
      cases sub.onDuplicate with
      | reject => rfl
      | supersede => rfl
      | skip => exact skipExisting_idle hrows _ _ skipRequeue

/-- While nothing was claimed, the messages of a batch do not need the requeue `UPDATE`. -/
private theorem submitEach_idle (batch : List (TaskSubmission × Int)) (hs : s.FlagsSound)
    (hdown : s.hasRunning = false)
    (ha : Along (fun σ m => (submitOne sha256 m.1 true m.2 σ).2) (fun σ m => m.1.RaisesFlags sha256 σ) s batch) :
    submitEach sha256 true batch s = submitEach sha256 false batch s := by
  induction batch generalizing s with
  | nil => rfl
  | cons message batch ih =>
    have hhead : submitOne sha256 message.1 true message.2 s = submitOne sha256 message.1 false message.2 s :=
      submitOne_idle (hs.running hdown) true
    have hrest := ih (sound_submitOne hs ha.1 true) ((submitOne_flags s).running.trans hdown) ha.2
    rw [submitEach, submitEach, ← hhead]
    dsimp only
    rw [hrest]

private theorem submitItems_idle {last : Nat → String → Bool} (chunk : List (Nat × TaskSubmission))
    (hs : s.FlagsSound) (hdown : s.hasRunning = false)
    (ha : Along (fun σ item => (submitItem sha256 true last now item σ).2)
      (fun σ item => last item.1 (item.2.effectiveKey sha256) = true → item.2.RaisesFlags sha256 σ) s chunk) :
    Txn.mapList (submitItem sha256 true last now) chunk s =
      Txn.mapList (submitItem sha256 false last now) chunk s := by
  induction chunk generalizing s with
  | nil => rfl
  | cons item chunk ih =>
    have hhead : submitItem sha256 true last now item s = submitItem sha256 false last now item s := by
      rw [submitItem, submitItem]
      split
      · exact submitOne_idle (hs.running hdown) true
      · rfl
    have hup : s.FlagsUp (submitItem sha256 true last now item s).2 := submitItem_flags s
    have hrest := ih (sound_submitItem hs ha.1) (hup.running.trans hdown) ha.2
    rw [Txn.mapList, Txn.mapList, Txn.bind_apply, Txn.bind_apply, ← hhead]
    split
    · rename_i outcome s' h
      rw [h] at hrest
      rw [Txn.bind_apply, Txn.bind_apply, hrest]
    · rfl

private theorem filterTags_nil (hs : s.taskTags = []) (p : Int × String × String → Bool) :
    ({ s with taskTags := s.taskTags.filter p } : Store) = s := by
  have hsame : s.taskTags.filter p = s.taskTags := by
    rw [hs]
    rfl
  rw [hsame]

/-- There are no tags to be copied. -/
private theorem insertHistory_untagged (hs : s.taskTags = []) (task : TaskRecord) (status : HistoryStatus)
    (metrics : IoBudget) (durationMs : Option Int) (lastError : Option String) (skipTags : Bool) :
    insertHistory task status metrics durationMs lastError skipTags now s =
      insertHistory task status metrics durationMs lastError false now s := by
  have hnone : s.tagsOf task.id = [] := by
    rw [Store.tagsOf, hs]
    rfl
  have hclash : s.historyTagClash task.id = false := by
    rw [Store.historyTagClash, hnone]
    rfl
  have hcopied : s.copiedTags skipTags task.id = s.copiedTags false task.id := by
    rw [Store.copiedTags, Store.copiedTags, hnone]
    cases skipTags with
    | false => rfl
    | true => rfl
  rw [insertHistory_apply, insertHistory_apply, hclash, hcopied]
  simp

/-- The store has no tags, whatever its flags are. -/
private theorem Store.Fixed.untagged {flags : Bool × Bool × Bool} (h : s.Fixed flags True) :
    s.taskTags = [] := h.tags trivial

private theorem fixed_untagged (hs : s.taskTags = []) : s.Fixed (s.hasTags, s.hasHierarchy, s.hasRunning) True :=
  ⟨rfl, fun _ => hs⟩

theorem completeInner_untagged (hs : s.taskTags = []) (task : TaskRecord) (metrics : IoBudget) (skipTags : Bool) :
    completeInner task metrics skipTags now s = completeInner task metrics false now s := by
  refine Txn.Triple.bind_congr fixes_insertHistory (fixed_untagged hs) (insertHistory_untagged hs ..)
    fun _ s₁ hs₁ => ?_
  refine Txn.Triple.bind_congr fixes_read hs₁ rfl fun saved s₂ hs₂ => ?_
  have hdelete : Fixes (s.hasTags, s.hasHierarchy, s.hasRunning) True (deleteCompleted task.id) :=
    .of_ok (fun _ _ => rfl) fun s hs => ⟨hs.flags, hs.tags⟩
  refine hdelete.bind_congr hs₂ rfl fun deleted s₃ hs₃ => ?_
  split
  · rfl
  · have htags : (if skipTags = true then s₃ else s₃.deleteTaskTags task.id) = s₃ := by
      split
      · rfl
      · exact filterTags_nil hs₃.untagged _
    rw [Txn.modify_bind_apply, Txn.modify_bind_apply, htags, if_neg (by simp), Store.deleteTaskTags,
      filterTags_nil hs₃.untagged]

private theorem completeAndResolve_untagged (hs : s.taskTags = []) (item : TaskRecord × IoBudget) (skipTags : Bool) :
    completeAndResolve skipTags now item s = completeAndResolve false now item s :=
  Txn.Triple.bind_congr fixes_completeInner (fixed_untagged hs) (completeInner_untagged hs ..) fun _ _ _ => rfl

private theorem Fixes.ensures {flags : Bool × Bool × Bool} {α : Type} {x : Sql α} (h : Fixes flags True x) :
    Txn.Ensures (Store.Fixed flags True) x fun _ => Store.Fixed flags True := fun s hs a s' hx => (h s hs).1 a s' hx

theorem completeEach_untagged (hs : s.taskTags = []) (items : List (TaskRecord × IoBudget)) (skipTags : Bool) :
    Txn.mapList (completeAndResolve skipTags now) items s = Txn.mapList (completeAndResolve false now) items s :=
  Txn.mapList_congr (fun item _ _ ht => completeAndResolve_untagged ht.untagged item skipTags)
    (fun _ _ => fixes_completeAndResolve.ensures) (fixed_untagged hs)

/-- The history rows of a batch. -/
private theorem insertEach_untagged {α : Type} (hs : s.taskTags = []) {f g : α → Sql Unit} {items : List α}
    (hf : ∀ item flags, Fixes flags True (f item)) (hfg : ∀ item s, s.taskTags = [] → f item s = g item s) :
    Txn.mapList f items s = Txn.mapList g items s :=
  Txn.mapList_congr (fun item _ t ht => hfg item t ht.untagged) (fun item _ => (hf item _).ensures)
    (fixed_untagged hs)

theorem completeBatchFast_untagged (hs : s.taskTags = []) (items : List (TaskRecord × IoBudget)) (skipTags : Bool) :
    completeBatchFast skipTags now items s = completeBatchFast false now items s := by
  have hinsert : Txn.mapList (insertCompleted skipTags now) items s =
      Txn.mapList (insertCompleted false now) items s :=
    insertEach_untagged hs (fun _ _ => fixes_insertHistory) fun _ _ ht => insertHistory_untagged ht ..
  refine Txn.Triple.bind_congr (Txn.Triple.mapList fun item _ => fixes_insertHistory) (fixed_untagged hs) hinsert
    fun _ s₁ hs₁ => ?_
  have hdelete : Fixes (s.hasTags, s.hasHierarchy, s.hasRunning) True (deleteCompletedBatch (items.map (·.1.id))) :=
    .of_ok (fun _ _ => rfl) fun s hs => ⟨hs.flags, hs.tags⟩
  refine hdelete.bind_congr hs₁ rfl fun deleted s₂ hs₂ => ?_
  refine Txn.Triple.bind_congr (fixes_modify fun s hs => fixes_resets _ hs) hs₂ rfl fun _ s₃ hs₃ => ?_
  have htags : ∀ skip : Bool, (if skip || deleted.isEmpty then s₃
      else { s₃ with taskTags := s₃.taskTags.filter fun t => !deleted.contains t.1 } : Store) = s₃ := by
    intro skip
    split
    · rfl
    · exact filterTags_nil hs₃.untagged _
  rw [Txn.modify_bind_apply, Txn.modify_bind_apply, htags, htags]

theorem failBatchBody_untagged (hs : s.taskTags = []) (items : List FailureItem) (skipTags : Bool) :
    failBatchBody skipTags items now s = failBatchBody false items now s := by
  have hinsert : Txn.mapList (insertFailed skipTags now) items s = Txn.mapList (insertFailed false now) items s :=
    insertEach_untagged hs (fun _ _ => fixes_insertHistory) fun _ _ ht => insertHistory_untagged ht ..
  refine Txn.Triple.bind_congr (Txn.Triple.mapList fun item _ => fixes_insertHistory) (fixed_untagged hs) hinsert
    fun _ s₁ hs₁ => ?_
  have htags : ∀ (skip : Bool) (t : Store), t.taskTags = [] → (if skip then t
      else { t with taskTags := t.taskTags.filter fun t => !(items.map (·.task.id)).contains t.1 } : Store) = t := by
    intro skip t ht
    split
    · rfl
    · exact filterTags_nil ht _
  have hdeleted : (s₁.deleteTasks fun r => (items.map (·.task.id)).contains r.id).taskTags = [] := hs₁.untagged
  rw [Txn.modify_bind_apply, Txn.modify_bind_apply, Txn.modify_apply, Txn.modify_apply, htags _ _ hdeleted,
    htags _ _ hdeleted]

end Skipping

/-- What the flags skip changes nothing while they are sound. -/
theorem Store.FlagsSound.harmless {sha256 : List UInt8 → String} {s : Store} (h : s.FlagsSound) :
    s.FlagsHarmless sha256 fun a => a.RaisesFlags sha256 s where
  tags := h.tags
  hierarchy := h.hierarchy
  requeue key priority := by
    cases hrunning : s.hasRunning with
    | true => rfl
    | false => exact skipExisting_idle (h.running hrunning) key priority _
  submit sub now := by
    cases hrunning : s.hasRunning with
    | true => rfl
    | false => exact submitOne_idle (h.running hrunning) _
  submits skipRequeue batch ha := by
    cases skipRequeue with
    | false => rfl
    | true => exact submitEach_idle batch h (ha.1 rfl) ha.2
  chunks skipRequeue last now chunk ha := by
    cases skipRequeue with
    | false => rfl
    | true =>
      have hitems := submitItems_idle chunk h (ha.1 rfl) ha.2
      rw [submitChunk, submitChunk, transaction, transaction, Txn.atomically, Txn.atomically, hitems]
  populate row := by
    unfold Store.populateTags
    split
    · rfl
    · rename_i hdown
      rw [Store.tagsOf, h.tags (by simpa using hdown)]
      rfl
  complete task metrics now := by
    cases htags : s.hasTags with
    | true => rfl
    | false => exact completeInner_untagged (h.tags htags) task metrics _
  completes items now := by
    cases htags : s.hasTags with
    | true => rfl
    | false => exact completeEach_untagged (h.tags htags) items _
  batch items now := by
    cases htags : s.hasTags with
    | true => rfl
    | false => exact completeBatchFast_untagged (h.tags htags) items _
  fails items now := by
    cases htags : s.hasTags with
    | true => rfl
    | false => exact failBatchBody_untagged (h.tags htags) items _
  children hdown id := by
    rw [Store.activeChildrenCount, List.countP_eq_zero]
    intro r hr
    rw [h.hierarchy hdown r hr]
    simp

/-- In every run in which the writers raise the flags. -/
theorem flags_harmless (sha256 : List UInt8 → String) (s : Store)
    (h : ReachableVia sha256 (fun s a => a.RaisesFlags sha256 s) s) : s.FlagsHarmless sha256 fun a =>
      a.RaisesFlags sha256 s := by
  have hsound : s.Schema ∧ s.FlagsSound := by
    refine h.invariant (I := fun s => s.Schema ∧ s.FlagsSound)
        (fun s hs => ⟨hs.schema, fun _ => hs.taskTags, fun _ r hr => ?_, fun _ r hr => ?_⟩) fun s a hs ha =>
      ⟨hs.1.steps (a.steps sha256 s), flagsSound_exec hs.1 hs.2 ha⟩
    · rw [hs.tasks] at hr
      cases hr
    · rw [hs.tasks] at hr
      cases hr
  exact hsound.2.harmless

private def labelledA : TaskSubmission :=
  { TaskSubmission.new "a" with tags := ⟨[("owner", "ops")], Tags.nodup_single "owner" "ops"⟩ }

/-- A task without tags is superseded, claimed and paused. -/
private def untaggedRun : List Action :=
  [.submitDirect (.new "a") 0, .submitDirect { TaskSubmission.new "a" with onDuplicate := .supersede } 1,
    .claimTask 1 2, .update (.pause 1 .preemption 3)]

theorem untaggedRun_harmless : (execAll sampleSha256 openMemory untaggedRun).hasTags = false ∧
    (execAll sampleSha256 openMemory untaggedRun).hasRunning = true ∧
    (execAll sampleSha256 openMemory untaggedRun).FlagsHarmless sampleSha256
      fun a => a.RaisesFlags sampleSha256 (execAll sampleSha256 openMemory untaggedRun) := by
  refine ⟨by decide +kernel, by decide +kernel,
    flags_harmless sampleSha256 _ (Runs.list (.start openMemory_fresh) untaggedRun ⟨?_, ?_, trivial, ?_, trivial⟩)⟩
  · intro hpaused
    cases hpaused
  · intro _
    exact ⟨fun hne => absurd rfl hne, fun _ hparent => by cases hparent⟩
  · intro _ hdown
    cases hdown

/-- A task without tags is superseded by one with a tag. -/
private def relabelRun : List Action :=
  [.submitDirect (.new "a") 0, .submitDirect { labelledA with onDuplicate := .supersede } 1]

/-- `supersede_existing` inserts tags and does not raise the flag. -/
theorem superseded_tags_unflagged :
    ¬ ∀ (sha256 : List UInt8 → String) (s : Store), Reachable sha256 s → s.FlagsHarmless sha256 fun _ => True := by
  intro h
  have hflags := h sampleSha256 (execAll sampleSha256 openMemory relabelRun)
    (Runs.list (.start openMemory_fresh) relabelRun (.of_forall fun _ _ => trivial))
  have hdown : (execAll sampleSha256 openMemory relabelRun).hasTags = false := by decide +kernel
  have htags : (execAll sampleSha256 openMemory relabelRun).taskTags = [(1, "owner", "ops")] := by decide +kernel
  have hnil := hflags.tags hdown
  rw [htags] at hnil
  cases hnil

end Taskmill
