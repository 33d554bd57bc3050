import Taskmill.Schema
import Taskmill.SubmitCases

/-!
# Coalesced submissions

`process_submit_batch` runs the submissions of several callers in one transaction and commits it whatever their
results are; `submit_direct` gives each caller a transaction of its own.  A submission that fails before its first
statement leaves nothing behind either way.  One that fails later is rolled back by `submit_direct` only: the
coalesced path commits the row it inserted, or the history row of the task it wanted to supersede.

The rows and history rows that a submission adds are determined by its result unless it fails late, in which case the
coalesced path adds one more than the other.  Later submissions with equal results cannot make up for it.
-/

namespace Taskmill

open Transact

/-- `submit_direct` for one message after the other. -/
def submitSequentially (sha256 : List UInt8 → String) :
    List (TaskSubmission × Int) → Store → List (Except StoreError SubmitOutcome) × Store
  | [], s => ([], s)
  | (sub, now) :: rest, s =>
    let (r, s₁) := submitDirect sha256 sub now s
    let (rs, s₂) := submitSequentially sha256 rest s₁
    (r :: rs, s₂)

/-- The columns of the schema. -/
def TaskRow.columns (r : TaskRow) : TaskRow := { r with inst := 0 }

def TaskHistoryRow.columns (h : TaskHistoryRow) : TaskHistoryRow := { h with inst := 0 }

/-- The same contents of all tables. -/
structure Store.SameTables (s s' : Store) : Prop where
  tasks : s.tasks.map TaskRow.columns = s'.tasks.map TaskRow.columns
  taskTags : s.taskTags = s'.taskTags
  taskDeps : s.taskDeps = s'.taskDeps
  taskHistory : s.taskHistory.map TaskHistoryRow.columns = s'.taskHistory.map TaskHistoryRow.columns
  taskHistoryTags : s.taskHistoryTags = s'.taskHistoryTags
  pausedGroups : s.pausedGroups = s'.pausedGroups

/-! ### Late failures -/

/-- The dependencies of the row `taskId` are refused: they are too many for a query, one failed or is unknown, or an
edge would be there twice or close a cycle. -/
def Store.RefusesDeps (s : Store) (taskId : Int) (deps : List Int) (policy : DependencyFailurePolicy) : Prop :=
  match s.activeDeps policy deps with
  | .error _ => True
  | .ok active =>
    ¬ s.TakesEdges taskId active ∨ maxCompoundSelect ≤ active.length ∨
      ∃ dep ∈ active, Relation.ReflTransGen (Edge s.taskDeps) dep taskId

/-- The submission fails after its first statement: the new row meets tags that an earlier owner of its id left or its
dependencies are refused, or the task to be superseded has a tag that clashes with those of a pruned history row. -/
def TaskSubmission.FailsLate (sub : TaskSubmission) (sha256 : List UInt8 → String) (now : Int) (s : Store) : Prop :=
  sub.validate = .ok () ∧
    match s.taskByKey (sub.effectiveKey sha256) with
    | none =>
      s.TagLeft s.nextTaskId sub.tags.entries ∨
        (s.addTask (sub.newRow (sub.effectiveKey sha256) now)).RefusesDeps s.nextTaskId sub.dependencies
          sub.onDependencyFailure
    | some row =>
      sub.onDuplicate = .supersede ∧
        (s.historyTagClash row.id = true ∨
          (row.status = .running ∨ row.status = .waiting) ∧
            (s.delete row.id).TagLeft (s.delete row.id).nextTaskId sub.tags.entries)

/-- The number of rows and history rows. -/
def Store.size (s : Store) : Nat := s.tasks.length + s.taskHistory.length

/-- How many of them a submission with this result adds. -/
def SubmitOutcome.adds : SubmitOutcome → Nat
  | .inserted .. | .superseded .. => 1
  | .upgraded _ | .requeued _ | .duplicate | .rejected => 0

private theorem size_updateTasks (s : Store) (p : TaskRow → Bool) (f : TaskRow → TaskRow) :
    (s.updateTasks p f).size = s.size := by
  simp [Store.size]

private theorem size_addTask (s : Store) (row : TaskRow) : (s.addTask row).size = s.size + 1 := by
  simp only [Store.size, Store.addTask_tasks, Store.addTask_taskHistory, List.length_append, List.length_singleton]
  omega

/-- Without the one row of a task, there is one row less. -/
private theorem size_delete {s : Store} (hschema : s.Schema) {row : TaskRow} (hrow : row ∈ s.tasks) :
    (s.delete row.id).size + 1 = s.size := by
  have hone : s.ids.count row.id = 1 := List.count_eq_one_of_mem hschema.ids (List.mem_map_of_mem hrow)
  have hcount : s.tasks.countP (·.id == row.id) = 1 := by
    rw [← hone, Store.ids, List.count, List.countP_map]
    rfl
  have hsplit := List.length_eq_countP_add_countP (fun r : TaskRow => r.id == row.id) (l := s.tasks)
  have hdel : (s.delete row.id).tasks.length = s.tasks.countP fun r => !(r.id == row.id) := by
    rw [List.countP_eq_length_filter]
    rfl
  have hhist : (s.delete row.id).taskHistory = s.taskHistory := rfl
  simp only [Bool.not_eq_true, Bool.decide_eq_false] at hsplit
  rw [Store.size, Store.size, hdel, hhist]
  omega

/-- What one submission does: it fails late and leaves something, or fails early and leaves nothing, or succeeds. -/
private def SubmitEnds (s : Store) (late : Prop) (r : Except StoreError SubmitOutcome × Store) : Prop :=
  (late ∧ ∃ e s', r = (.error e, s') ∧ s'.size = s.size + 1) ∨
  (¬ late ∧ ∃ e, r = (.error e, s)) ∨
  (¬ late ∧ ∃ outcome s', r = (.ok outcome, s') ∧ s'.size = s.size + outcome.adds ∧ s'.hasRunning = s.hasRunning)

section OneSubmission

variable {sha256 : List UInt8 → String} {sub : TaskSubmission} {skipRequeue : Bool} {now : Int} {s : Store}

/-- `attach_dependencies` succeeds unless the dependencies are refused. -/
private theorem attachDependencies_ends (taskId : Int) (deps : List Int)
    (policy : DependencyFailurePolicy) (s : Store) :
    (s.RefusesDeps taskId deps policy ∧ ∃ e s', attachDependencies taskId deps policy s = (.error e, s') ∧
      s'.size = s.size) ∨
    (¬ s.RefusesDeps taskId deps policy ∧
      ∃ s', attachDependencies taskId deps policy s = (.ok (), s') ∧ s'.size = s.size ∧
        s'.hasRunning = s.hasRunning) := by
  rw [attachDependencies_apply, Store.RefusesDeps]
  cases s.activeDeps policy deps with
  | error e => exact .inl ⟨trivial, e, s, rfl, rfl⟩
  | ok active =>
    dsimp only
    by_cases hempty : active = []
    · subst hempty
      rw [if_pos rfl]
      refine .inr ⟨?_, s, rfl, rfl, rfl⟩
      rintro (h | h | ⟨dep, hdep, _⟩)
      · exact h ⟨Nat.zero_le _, List.nodup_nil, by simp⟩
      · cases h
      · cases hdep
    · rw [if_neg hempty]
      by_cases hins : s.TakesEdges taskId active
      · rw [if_pos hins]
        by_cases hc : (s.addEdges (edgesFrom taskId active)).RefusesSeeds taskId active
        · rw [if_pos hc]
          exact .inl ⟨.inr (refusesSeeds_edgesFrom.1 hc), _, _, rfl, rfl⟩
        · rw [if_neg hc]
          refine .inr ⟨?_, _, rfl, size_updateTasks _ _ _, rfl⟩
          rintro (h | h)
          · exact h hins
          · exact hc (refusesSeeds_edgesFrom.2 h)
      · rw [if_neg hins]
        exact .inl ⟨.inl hins, _, _, rfl, rfl⟩

private theorem size_pauseNew (s : Store) (taskId : Int) (group : Option String) (now : Int) :
    (s.pauseNew taskId group now).size = s.size ∧ (s.pauseNew taskId group now).hasRunning = s.hasRunning := by
  rw [Store.pauseNew]
  split
  · exact ⟨size_updateTasks _ _ _, rfl⟩
  · exact ⟨rfl, rfl⟩

/-- A new key. -/
private theorem submitOne_fresh_ends (hv : sub.validate = .ok ())
    (hk : s.taskByKey (sub.effectiveKey sha256) = none) :
    SubmitEnds s (sub.FailsLate sha256 now s) (submitOne sha256 sub skipRequeue now s) := by
  have hlate : sub.FailsLate sha256 now s ↔ s.TagLeft s.nextTaskId sub.tags.entries ∨
      (s.addTask (sub.newRow (sub.effectiveKey sha256) now)).RefusesDeps s.nextTaskId sub.dependencies
        sub.onDependencyFailure := by
    rw [TaskSubmission.FailsLate, hk]
    simp [hv]
  rw [submitOne_fresh hv hk]
  have hsize := size_addTask s (sub.newRow (sub.effectiveKey sha256) now)
  rw [hlate]
  generalize hs₀ : s.addTask (sub.newRow (sub.effectiveKey sha256) now) = s₀ at hsize
  have htags₀ : s₀.taskTags = s.taskTags := by rw [← hs₀]; rfl
  have hrun₀ : s₀.hasRunning = s.hasRunning := by rw [← hs₀]; rfl
  obtain ⟨tags, hierarchy, hasTags, ⟨hins, h⟩ | ⟨hins, hrest⟩⟩ := finishInsert_cases sub s.nextTaskId now s₀
  · -- the tags clash
    have hleft : s.TagLeft s.nextTaskId sub.tags.entries := by
      by_contra hfree
      have hfree' : ¬ (s₀.tagged s₀.taskTags hierarchy hasTags).TagLeft s.nextTaskId sub.tags.entries := by
        rintro ⟨t, ht, hrest⟩
        exact hfree ⟨t, by rw [← htags₀]; exact ht, hrest⟩
      rw [insertTags_free sub.tags.nodup hfree'] at hins
      cases hins
    exact .inl ⟨.inl hleft, _, _, h, hsize⟩
  · have hfree : ¬ s.TagLeft s.nextTaskId sub.tags.entries := by
      rintro ⟨t, ht, hrest⟩
      have hleft : (s₀.tagged s₀.taskTags hierarchy hasTags).TagLeft s.nextTaskId sub.tags.entries :=
        ⟨t, by rw [Store.tagged_taskTags, htags₀]; exact ht, hrest⟩
      obtain ⟨tt, herr⟩ := insertTags_refused (.inr hleft)
      rw [herr] at hins
      cases hins
    have hends := attachDependencies_ends s.nextTaskId sub.dependencies sub.onDependencyFailure
      (s₀.tagged tags hierarchy hasTags)
    have hrefuse : (s₀.tagged tags hierarchy hasTags).RefusesDeps s.nextTaskId sub.dependencies
      sub.onDependencyFailure ↔
        s₀.RefusesDeps s.nextTaskId sub.dependencies sub.onDependencyFailure := by
      have hact : (s₀.tagged tags hierarchy hasTags).activeDeps sub.onDependencyFailure sub.dependencies =
          s₀.activeDeps sub.onDependencyFailure sub.dependencies := by
        apply activeDeps_congr
        · rfl
        · rfl
      rw [Store.RefusesDeps, Store.RefusesDeps, hact]
      rfl
    rcases hends with ⟨href, e, s₂, hatt, hs₂⟩ | ⟨href, s₂, hatt, hs₂, hrun⟩
    · refine .inl ⟨.inr (hrefuse.1 href), ?_⟩
      rcases hrest with ⟨e', s₂', hatt', h⟩ | ⟨s₂', hatt', h⟩
      · rw [hatt] at hatt'
        cases hatt'
        exact ⟨e, s₂, h, hs₂.trans hsize⟩
      · rw [hatt] at hatt'
        cases hatt'
    · have hnot : ¬ (s.TagLeft s.nextTaskId sub.tags.entries ∨
          s₀.RefusesDeps s.nextTaskId sub.dependencies sub.onDependencyFailure) := by
        rintro (h | h)
        · exact hfree h
        · exact href (hrefuse.2 h)
      refine .inr (.inr ⟨hnot, ?_⟩)
      rcases hrest with ⟨e', s₂', hatt', h⟩ | ⟨s₂', hatt', h⟩
      · rw [hatt] at hatt'
        cases hatt'
      · rw [hatt] at hatt'
        cases hatt'
        obtain ⟨hp, hr⟩ := size_pauseNew s₂ s.nextTaskId sub.groupKey now
        exact ⟨_, _, h, hp.trans (hs₂.trans hsize), hr.trans (hrun.trans hrun₀)⟩

/-- A duplicate that is skipped always succeeds and adds nothing. -/
private theorem skipExisting_ends (key : String) (priority : Priority) (skipRequeue : Bool) (s : Store) :
    ∃ outcome s', skipExisting key priority skipRequeue s = (.ok outcome, s') ∧ s'.size = s.size + outcome.adds ∧
      s'.hasRunning = s.hasRunning := by
  have hupdate : ∀ (p : TaskRow → Bool) (f : TaskRow → TaskRow) (s : Store),
      ∃ found s', updateByKey p f s = (.ok found, s') ∧ s'.size = s.size ∧ s'.hasRunning = s.hasRunning :=
    fun p f s => ⟨_, _, rfl, size_updateTasks s p f, rfl⟩
  obtain ⟨upgraded, s₁, h₁, hsize₁, hrun₁⟩ := hupdate
    (fun r => r.key == key && (r.status == .pending || r.status == .paused) && priority < r.priority)
    (fun r => { r with priority := priority }) s
  rw [skipExisting, Txn.bind_of_ok h₁]
  cases upgraded with
  | some id => exact ⟨_, _, rfl, hsize₁, hrun₁⟩
  | none =>
    dsimp only
    split
    · exact ⟨_, _, rfl, hsize₁, hrun₁⟩
    · obtain ⟨requeued, s₂, h₂, hsize₂, hrun₂⟩ := hupdate
        (fun r => r.key == key && (r.status == .running || r.status == .paused) &&
          (!r.requeue || r.requeuePriority.any (priority < ·)))
        (fun r => { r with requeue := true, requeuePriority := some priority }) s₁
      rw [Txn.bind_of_ok h₂]
      cases requeued with
      | some id => exact ⟨_, _, rfl, hsize₂.trans hsize₁, hrun₂.trans hrun₁⟩
      | none => exact ⟨_, _, rfl, hsize₂.trans hsize₁, hrun₂.trans hrun₁⟩

/-- The tags of the row itself are deleted first, so superseding in place succeeds. -/
private theorem supersedeInPlace_ends (sub : TaskSubmission) (now id : Int) (s : Store) :
    ∃ s', supersedeInPlace sub id now s = (.ok (.superseded id id), s') ∧ s'.size = s.size ∧
      s'.hasRunning = s.hasRunning := by
  rw [supersedeInPlace, Txn.modify_bind_apply, Txn.modify_bind_apply]
  generalize hs₁ : Store.deleteTaskTags _ id = s₁
  have hfree : ¬ s₁.TagLeft id sub.tags.entries := by
    rintro ⟨t, ht, hid, _⟩
    rw [← hs₁] at ht
    have := (List.mem_filter.1 ht).2
    simp [hid] at this
  rw [Txn.bind_of_ok (insertTags_free sub.tags.nodup hfree)]
  refine ⟨_, rfl, ?_, ?_⟩
  · rw [← hs₁]
    exact size_updateTasks s _ _
  · rw [← hs₁]
    rfl

/-- The key is free once the row is deleted, so only leftover tags of the new id stop the replacement. -/
private theorem supersedeReplace_ends (sub : TaskSubmission) (now : Int) {key : String} {row : TaskRow}
    (hschema : s.Schema) (hrow : s.taskByKey key = some row) :
    ((s.delete row.id).TagLeft (s.delete row.id).nextTaskId sub.tags.entries ∧
      ∃ e s', supersedeReplace sub key row.id now s = (.error e, s') ∧ s'.size = s.size) ∨
    (¬ (s.delete row.id).TagLeft (s.delete row.id).nextTaskId sub.tags.entries ∧
      ∃ id s', supersedeReplace sub key row.id now s = (.ok (.superseded id row.id), s') ∧ s'.size = s.size ∧
        s'.hasRunning = s.hasRunning) := by
  have hsize : ((s.delete row.id).addTask (sub.baseRow key now)).size = s.size := by
    rw [size_addTask]
    exact size_delete hschema (List.mem_of_find?_eq_some hrow)
  rw [supersedeReplace_apply sub now hschema hrow]
  by_cases hleft : (s.delete row.id).TagLeft (s.delete row.id).nextTaskId sub.tags.entries
  · obtain ⟨tt, herr⟩ := insertTags_refused (s := (s.delete row.id).addTask (sub.baseRow key now)) (.inr hleft)
    exact .inl ⟨hleft, _, _, Txn.bind_of_error herr, hsize⟩
  · refine .inr ⟨hleft, _, _, Txn.bind_of_ok (insertTags_free sub.tags.nodup ?_), hsize, rfl⟩
    exact hleft

/-- A duplicate that supersedes. -/
private theorem supersedeExisting_ends {row : TaskRow} (hschema : s.Schema) (hv : sub.validate = .ok ())
    (hk : s.taskByKey (sub.effectiveKey sha256) = some row) (hdup : sub.onDuplicate = .supersede) :
    SubmitEnds s (sub.FailsLate sha256 now s) (supersedeExisting sub (sub.effectiveKey sha256) now s) := by
  have hlate : sub.FailsLate sha256 now s ↔ s.historyTagClash row.id = true ∨
      (row.status = .running ∨ row.status = .waiting) ∧
        (s.delete row.id).TagLeft (s.delete row.id).nextTaskId sub.tags.entries := by
    rw [TaskSubmission.FailsLate, hk]
    simp [hv, hdup]
  have hget : ((fun s => s.taskByKey (sub.effectiveKey sha256)) <$> Txn.get : Sql (Option TaskRow)) s =
      (.ok (some row), s) := by
    rw [← hk]
    rfl
  unfold supersedeExisting
  rw [hlate, Txn.bind_of_ok hget]
  dsimp only
  rw [Txn.bind_apply, insertHistory_apply]
  generalize historyRow s.nextHistoryId (rowToTaskRecord row) .superseded {} (row.startedAt.map (now - ·))
    none now = entry
  have hlog : ∀ tags, (s.log entry tags).size = s.size + 1 := by
    intro tags
    simp only [Store.size, Store.log_tasks, Store.log_taskHistory, List.length_append, List.length_singleton]
    omega
  have hid : (rowToTaskRecord row).id = row.id := rfl
  rw [hid]
  by_cases hclash : s.historyTagClash row.id = true
  · rw [if_pos (by simpa using hclash)]
    exact .inl ⟨.inl hclash, _, _, rfl, hlog _⟩
  · rw [if_neg (by simpa using hclash)]
    dsimp only
    generalize s.taskHistoryTags ++ s.copiedTags false row.id = tags
    have hschema' : (s.log entry tags).Schema := hschema.stmt (b := false) (.history s _ tags)
    have hk' : (s.log entry tags).taskByKey (sub.effectiveKey sha256) = some row := hk
    have hplace : row.status ≠ .running ∧ row.status ≠ .waiting →
        SubmitEnds s (s.historyTagClash row.id = true ∨ (row.status = .running ∨ row.status = .waiting) ∧
          (s.delete row.id).TagLeft (s.delete row.id).nextTaskId sub.tags.entries)
          (supersedeInPlace sub row.id now (s.log entry tags)) := by
      intro hst
      obtain ⟨s', h, hsize, hrun⟩ := supersedeInPlace_ends sub now row.id (s.log entry tags)
      refine .inr (.inr ⟨?_, _, s', h, hsize.trans (hlog tags), hrun⟩)
      rintro (h | ⟨h | h, _⟩)
      · exact hclash h
      · exact hst.1 h
      · exact hst.2 h
    have hreplace : row.status = .running ∨ row.status = .waiting →
        SubmitEnds s (s.historyTagClash row.id = true ∨ (row.status = .running ∨ row.status = .waiting) ∧
          (s.delete row.id).TagLeft (s.delete row.id).nextTaskId sub.tags.entries)
          (supersedeReplace sub (sub.effectiveKey sha256) row.id now (s.log entry tags)) := by
      intro hst
      rcases supersedeReplace_ends sub now hschema'
        hk' with ⟨hleft, e, s', h, hsize⟩ | ⟨hfree, id, s', h, hsize, hrun⟩
      · exact .inl ⟨.inr ⟨hst, hleft⟩, e, s', h, hsize.trans (hlog tags)⟩
      · refine .inr (.inr ⟨?_, _, s', h, hsize.trans (hlog tags), hrun⟩)
        rintro (h | ⟨_, h⟩)
        · exact hclash h
        · exact hfree h
    cases hst : row.status with
    | pending => simpa only [hst] using hplace (by simp [hst])
    | paused => simpa only [hst] using hplace (by simp [hst])
    | blocked => simpa only [hst] using hplace (by simp [hst])
    | running => simpa only [hst] using hreplace (.inl hst)
    | waiting => simpa only [hst] using hreplace (.inr hst)

private theorem submitOne_ends (hschema : s.Schema) :
    SubmitEnds s (sub.FailsLate sha256 now s) (submitOne sha256 sub skipRequeue now s) := by
  cases hv : sub.validate with
  | error e =>
    rw [submitOne_invalid hv]
    refine .inr (.inl ⟨?_, e, rfl⟩)
    rintro ⟨h, _⟩
    rw [hv] at h
    cases h
  | ok u =>
    cases hk : s.taskByKey (sub.effectiveKey sha256) with
    | none => exact submitOne_fresh_ends hv hk
    | some row =>
      have hkeep : sub.onDuplicate ≠ .supersede → ¬ sub.FailsLate sha256 now s := by
        rintro hdup ⟨_, hlate⟩
        rw [hk] at hlate
        exact hdup hlate.1
      rw [submitOne_duplicate hv hk]
      cases hdup : sub.onDuplicate with
      | skip =>
        obtain ⟨outcome, s', h⟩ := skipExisting_ends (sub.effectiveKey sha256) sub.priority skipRequeue s
        exact .inr (.inr ⟨hkeep (by simp [hdup]), outcome, s', h⟩)
      | supersede => exact supersedeExisting_ends hschema hv hk hdup
      | reject => exact .inr (.inr ⟨hkeep (by simp [hdup]), _, s, rfl, rfl, rfl⟩)

end OneSubmission

/-! ### Batches -/

section Batches

variable {sha256 : List UInt8 → String} {sub : TaskSubmission} {now : Int} {s : Store}

private def addedBy : Except StoreError SubmitOutcome → Nat
  | .ok outcome => outcome.adds
  | .error _ => 0

/-- In the shared transaction a submission adds at least what its result says. -/
private theorem submitOne_size (skipRequeue : Bool) (hschema : s.Schema) :
    s.size + addedBy (submitOne sha256 sub skipRequeue now s).1 ≤
      (submitOne sha256 sub skipRequeue now s).2.size := by
  have hends : SubmitEnds s (sub.FailsLate sha256 now s) (submitOne sha256 sub skipRequeue now s) :=
    submitOne_ends hschema
  rcases hends with ⟨_, e, s', h, hsize⟩ | ⟨_, e, h⟩ | ⟨_, outcome, s', h, hsize, _⟩
  · rw [h]
    simp only [addedBy]
    omega
  · rw [h]
    simp only [addedBy]
    omega
  · rw [h]
    exact Nat.le_of_eq hsize.symm

/-- In a transaction of its own it adds exactly that. -/
private theorem submitDirect_size (hschema : s.Schema) :
    (submitDirect sha256 sub now s).2.size = s.size + addedBy (submitDirect sha256 sub now s).1 := by
  have hends : SubmitEnds s (sub.FailsLate sha256 now s) (submitOne sha256 sub (!s.hasRunning) now s) :=
    submitOne_ends hschema
  rcases h : submitDirect sha256 sub now s with ⟨e | outcome, s'⟩
  · obtain ⟨s₁, _, rfl⟩ := transaction_error h
    rfl
  · have hok := transaction_ok h
    rcases hends with ⟨_, e, s₁, h₁, _⟩ | ⟨_, e, h₁⟩ | ⟨_, outcome', s₁, h₁, hsize, _⟩
    · cases h₁.symm.trans hok
    · cases h₁.symm.trans hok
    · cases h₁.symm.trans hok
      exact hsize

/-- Once the coalesced run holds more, equal results keep it ahead. -/
private theorem size_lt_of_results (skipRequeue : Bool) (batch : List (TaskSubmission × Int)) {c s : Store}
    (hc : c.Schema) (hs : s.Schema) (hlt : s.size < c.size)
    (hres : (submitEach sha256 skipRequeue batch c).1 = (submitSequentially sha256 batch s).1) :
    (submitSequentially sha256 batch s).2.size < (submitEach sha256 skipRequeue batch c).2.size := by
  induction batch generalizing c s with
  | nil => exact hlt
  | cons m batch ih =>
    have hres' : (submitOne sha256 m.1 skipRequeue m.2 c).1 :: (submitEach sha256 skipRequeue batch
          (submitOne sha256 m.1 skipRequeue m.2 c).2).1 =
        (submitDirect sha256 m.1 m.2 s).1 ::
          (submitSequentially sha256 batch (submitDirect sha256 m.1 m.2 s).2).1 := hres
    obtain ⟨hhead, htail⟩ := List.cons.inj hres'
    have hc₁ : c.size + addedBy (submitOne sha256 m.1 skipRequeue m.2 c).1 ≤
        (submitOne sha256 m.1 skipRequeue m.2 c).2.size := submitOne_size skipRequeue hc
    have hs₁ : (submitDirect sha256 m.1 m.2 s).2.size = s.size + addedBy (submitDirect sha256 m.1 m.2 s).1 :=
      submitDirect_size hs
    rw [hhead] at hc₁
    refine ih (hc.steps (steps_submitOne c)) (hs.steps ((Action.submitDirect m.1 m.2).steps sha256 s)) ?_ htail
    show (submitDirect sha256 m.1 m.2 s).2.size < (submitOne sha256 m.1 skipRequeue m.2 c).2.size
    omega

private theorem Store.SameTables.size_eq {s s' : Store} (h : s.SameTables s') : s.size = s'.size := by
  have htasks := congrArg List.length h.tasks
  have hhist := congrArg List.length h.taskHistory
  simp only [List.length_map] at htasks hhist
  rw [Store.size, Store.size, htasks, hhist]

/-- As long as no submission fails late, both runs go through the same stores. -/
private theorem submitEach_eq (batch : List (TaskSubmission × Int)) {s : Store} (hschema : s.Schema)
    (h : Along (fun s m => (submitDirect sha256 m.1 m.2 s).2) (fun s m => ¬ m.1.FailsLate sha256 m.2 s) s batch) :
    submitEach sha256 (!s.hasRunning) batch s = submitSequentially sha256 batch s := by
  induction batch generalizing s with
  | nil => rfl
  | cons m batch ih =>
    have hends : SubmitEnds s (m.1.FailsLate sha256 m.2 s) (submitOne sha256 m.1 (!s.hasRunning) m.2 s) :=
      submitOne_ends hschema
    have hrest := ih (hschema.steps ((Action.submitDirect m.1 m.2).steps sha256 s)) h.2
    rw [submitEach, submitSequentially]
    rcases hends with ⟨hlate, _⟩ | ⟨_, e, hone⟩ | ⟨_, outcome, s', hone, _, hrun⟩
    · exact absurd hlate h.1
    · have hdirect : submitDirect sha256 m.1 m.2 s = (.error e, s) := Txn.atomically_of_error hone
      have hexec : (Action.submitDirect m.1 m.2).exec sha256 s = s := congrArg Prod.snd hdirect
      rw [hexec] at hrest
      rw [hone, hdirect]
      dsimp only
      rw [hrest]
    · have hdirect : submitDirect sha256 m.1 m.2 s = (.ok outcome, s') := Txn.atomically_of_ok hone
      have hexec : (Action.submitDirect m.1 m.2).exec sha256 s = s' := congrArg Prod.snd hdirect
      rw [hexec, hrun] at hrest
      rw [hone, hdirect]
      dsimp only
      rw [hrest]

/-- A late failure leaves a row or a history row in the shared transaction only. -/
private theorem not_late_of_same (batch : List (TaskSubmission × Int)) {s : Store} (hschema : s.Schema)
    (hres : (submitEach sha256 (!s.hasRunning) batch s).1 = (submitSequentially sha256 batch s).1)
    (hsize : (submitEach sha256 (!s.hasRunning) batch s).2.size = (submitSequentially sha256 batch s).2.size) :
    Along (fun s m => (submitDirect sha256 m.1 m.2 s).2) (fun s m => ¬ m.1.FailsLate sha256 m.2 s) s batch := by
  induction batch generalizing s with
  | nil => trivial
  | cons m batch ih =>
    have hends : SubmitEnds s (m.1.FailsLate sha256 m.2 s) (submitOne sha256 m.1 (!s.hasRunning) m.2 s) :=
      submitOne_ends hschema
    have hschema₁ := hschema.steps ((Action.submitDirect m.1 m.2).steps sha256 s)
    have hres' := (List.cons.inj (show (submitOne sha256 m.1 (!s.hasRunning) m.2 s).1 :: (submitEach sha256
        (!s.hasRunning) batch (submitOne sha256 m.1 (!s.hasRunning) m.2 s).2).1 =
      (submitDirect sha256 m.1 m.2 s).1 :: (submitSequentially sha256 batch (submitDirect sha256 m.1 m.2 s).2).1
        from hres)).2
    have hsize' : (submitEach sha256 (!s.hasRunning) batch (submitOne sha256 m.1 (!s.hasRunning) m.2 s).2).2.size =
      (submitSequentially sha256 batch (submitDirect sha256 m.1 m.2 s).2).2.size := hsize
    rcases hends with ⟨_, e, s', hone, hs'⟩ | ⟨hnot, e, hone⟩ | ⟨hnot, outcome, s', hone, _, hrun⟩
    · -- the coalesced run is ahead from here on
      have hdirect : submitDirect sha256 m.1 m.2 s = (.error e, s.rollback s') := Txn.atomically_of_error hone
      have hexec : (Action.submitDirect m.1 m.2).exec sha256 s = s.rollback s' := congrArg Prod.snd hdirect
      have hc : s'.Schema := by
        have hsteps : Steps true s (submitOne sha256 m.1 (!s.hasRunning) m.2 s).2 := steps_submitOne s
        rw [hone] at hsteps
        exact hschema.steps hsteps
      rw [hone, hdirect] at hres' hsize'
      rw [hexec] at hschema₁
      have hahead : (s.rollback s').size < s'.size := by
        have hkeep : (s.rollback s').size = s.size := rfl
        omega
      exact absurd hsize' (Nat.ne_of_gt (size_lt_of_results (!s.hasRunning) batch hc hschema₁ hahead hres'))
    · have hdirect : submitDirect sha256 m.1 m.2 s = (.error e, s) := Txn.atomically_of_error hone
      have hexec : (Action.submitDirect m.1 m.2).exec sha256 s = s := congrArg Prod.snd hdirect
      rw [hone, hdirect] at hres' hsize'
      refine ⟨hnot, ?_⟩
      show Along _ _ ((Action.submitDirect m.1 m.2).exec sha256 s) batch
      rw [hexec]
      exact ih hschema hres' hsize'
    · have hdirect : submitDirect sha256 m.1 m.2 s = (.ok outcome, s') := Txn.atomically_of_ok hone
      have hexec : (Action.submitDirect m.1 m.2).exec sha256 s = s' := congrArg Prod.snd hdirect
      rw [hexec] at hschema₁
      rw [hone, hdirect, ← hrun] at hres' hsize'
      refine ⟨hnot, ?_⟩
      show Along _ _ ((Action.submitDirect m.1 m.2).exec sha256 s) batch
      rw [hexec]
      exact ih hschema₁ hres' hsize'

private theorem not_late_of_ok {skipRequeue : Bool} {outcome : SubmitOutcome} (hschema : s.Schema)
    (h : (submitOne sha256 sub skipRequeue now s).1 = .ok outcome) : ¬ sub.FailsLate sha256 now s := by
  have hends : SubmitEnds s (sub.FailsLate sha256 now s) (submitOne sha256 sub skipRequeue now s) :=
    submitOne_ends hschema
  rcases hends with ⟨_, e, s', hone, _⟩ | ⟨hnot, _⟩ | ⟨hnot, _⟩
  · rw [hone] at h
    cases h
  · exact hnot
  · exact hnot

end Batches

/-- The coalesced path gives every caller the result of `submit_direct` and commits the same tables exactly when no
submission, at its turn in the sequential run, fails after its first statement.  Nobody claims a task meanwhile, so
`has_running` is what it is when the batch is taken. -/
theorem coalesced_eq_sequential_iff (sha256 : List UInt8 → String) (batch : List (TaskSubmission × Int)) (s : Store)
    (hschema : s.Schema) :
    ((processSubmitBatch sha256 (!s.hasRunning) batch s).1 = (submitSequentially sha256 batch s).1 ∧
        (processSubmitBatch sha256 (!s.hasRunning) batch s).2.SameTables (submitSequentially sha256 batch s).2) ↔
      Along (fun s m => (submitDirect sha256 m.1 m.2 s).2) (fun s m => ¬ m.1.FailsLate sha256 m.2 s) s batch := by
  constructor
  · rintro ⟨hres, hsame⟩
    exact not_late_of_same batch hschema hres hsame.size_eq
  · intro h
    rw [processSubmitBatch, submitEach_eq batch hschema h]
    exact ⟨rfl, rfl, rfl, rfl, rfl, rfl, rfl⟩

/-- Two callers, one of which names a dependency that does not exist. -/
def refusedBatch : List (TaskSubmission × Int) :=
  [({ TaskSubmission.new "a" with dependencies := [99] }, 0), (.new "b", 0)]

/-- The refused caller leaves a row behind if its submission is coalesced. -/
theorem refusedBatch_leaves_row :
    ¬ ((processSubmitBatch sampleSha256 true refusedBatch openMemory).1 =
          (submitSequentially sampleSha256 refusedBatch openMemory).1 ∧
        (processSubmitBatch sampleSha256 true refusedBatch openMemory).2.SameTables
          (submitSequentially sampleSha256 refusedBatch openMemory).2) := by
  rintro ⟨_, hsame⟩
  have hrows : (processSubmitBatch sampleSha256 true refusedBatch openMemory).2.tasks.length = 2 ∧
      (submitSequentially sampleSha256 refusedBatch openMemory).2.tasks.length = 1 := by decide
  have hlen := congrArg List.length hsame.tasks
  simp only [List.length_map] at hlen
  omega

/-- Two callers that succeed, the second one depending on the first. -/
def acceptedBatch : List (TaskSubmission × Int) :=
  [(.new "a", 0), ({ TaskSubmission.new "b" with dependencies := [1] }, 0)]

theorem acceptedBatch_same_tables :
    openMemory.Schema ∧
      (processSubmitBatch sampleSha256 true acceptedBatch openMemory).2.taskDeps = [(2, 1)] ∧
      (processSubmitBatch sampleSha256 true acceptedBatch openMemory).1 =
          (submitSequentially sampleSha256 acceptedBatch openMemory).1 ∧
        (processSubmitBatch sampleSha256 true acceptedBatch openMemory).2.SameTables
          (submitSequentially sampleSha256 acceptedBatch openMemory).2 := by
  refine ⟨openMemory_fresh.schema, by decide, ?_⟩
  refine (coalesced_eq_sequential_iff sampleSha256 acceptedBatch openMemory openMemory_fresh.schema).2
    ⟨?_, ?_, trivial⟩
  · have hfirst : (submitOne sampleSha256 (.new "a") true 0 openMemory).1 = .ok (.inserted 1 false) := by rfl
    exact not_late_of_ok openMemory_fresh.schema hfirst
  · have hsecond : (submitOne sampleSha256 { TaskSubmission.new "b" with dependencies := [1] } true 0
        (submitDirect sampleSha256 (.new "a") 0 openMemory).2).1 = .ok (.inserted 2 false) := by rfl
    exact not_late_of_ok (openMemory_fresh.schema.steps
      ((Action.submitDirect (.new "a") 0).steps sampleSha256 openMemory)) hsecond

end Taskmill
