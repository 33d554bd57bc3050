import Taskmill.Schema
import Taskmill.SubmitCases

/-!
# Completions written out

What one completion does to the tables, as functions of the store: the history row (`logCompleted`), the row of the
task (`finishRow`), the next instance of a recurring task (`createNextInstance_apply`) and the dependents (`release`).
-/

namespace Taskmill

open Transact

/-! ### The history row -/

/-- A history row for the task `id`, given up to its row id, and its tags. -/
@[simps!] def Store.logTask (s : Store) (skipTags : Bool) (entry : Int → TaskHistoryRow) (id : Int) : Store :=
  s.log (entry s.nextHistoryId) (s.taskHistoryTags ++ s.copiedTags skipTags id)

/-- The history row of a completed task and its tags. -/
def Store.logCompleted (s : Store) (skipTags : Bool) (now : Int) (item : TaskRecord × IoBudget) : Store :=
  s.logTask skipTags
    (fun hid => historyRow hid item.1 .completed item.2 (computeDurationMs now item.1) item.1.lastError now) item.1.id

/-- A history row cannot get the tags of its task. -/
def Store.LogFails (s : Store) (skipTags : Bool) (taskId : Int) : Prop :=
  skipTags = false ∧ s.historyTagClash taskId = true

instance (s : Store) (skipTags : Bool) (taskId : Int) : Decidable (s.LogFails skipTags taskId) :=
  inferInstanceAs (Decidable (_ ∧ _))

theorem insertHistory_fails {task : TaskRecord} {skipTags : Bool} {s : Store} (hf : s.LogFails skipTags task.id)
    (status : HistoryStatus) (metrics : IoBudget) (durationMs : Option Int) (lastError : Option String) (now : Int) :
    ∃ s', insertHistory task status metrics durationMs lastError skipTags now s =
      (.error taskHistoryTagsError, s') := by
  rw [insertHistory_apply, if_pos]
  · exact ⟨_, rfl⟩
  · simp [hf.1, hf.2]

theorem insertHistory_logs {task : TaskRecord} {skipTags : Bool} {s : Store} (hf : ¬ s.LogFails skipTags task.id)
    (status : HistoryStatus) (metrics : IoBudget) (durationMs : Option Int) (lastError : Option String) (now : Int) :
    insertHistory task status metrics durationMs lastError skipTags now s =
      (.ok (), s.logTask skipTags
        (fun hid => historyRow hid task status metrics durationMs lastError now) task.id) := by
  rw [insertHistory_apply, if_neg, Store.logTask]
  rw [Bool.and_eq_true, Bool.not_eq_true']
  exact hf

/-! ### The row of the task -/

/-- There is a row that a completion deletes. -/
def Store.deletable (s : Store) (id : Int) : Bool := s.tasks.any fun r => r.id == id && !r.requeue

/-- The row goes with its tags, or is reset if it is to be requeued. -/
def Store.finishRow (s : Store) (skipTags : Bool) (id : Int) : Store :=
  if s.deletable id then
    if skipTags then s.deleteTasks fun r => r.id == id && !r.requeue
    else (s.deleteTasks fun r => r.id == id && !r.requeue).deleteTaskTags id
  else s.resetRequeued id

theorem Store.deleteTasks_eq_self {s : Store} {p : TaskRow → Bool} (h : ∀ r ∈ s.tasks, p r = false) :
    s.deleteTasks p = s := by
  have htasks : s.tasks.filter (fun r => !p r) = s.tasks := by
    rw [List.filter_eq_self]
    intro r hr
    rw [h r hr]
    rfl
  rw [Store.deleteTasks, htasks]

/-! ### The next instance of a recurring task -/

/-- The store with the next instance, before a pause of its group is looked at. -/
def Store.addInstance (s : Store) (task : TaskRecord) (tags : List (String × String)) (interval now : Int) : Store :=
  (s.addTask (task.nextInstance interval now)).withTags (s.taskTags ++ tags.map fun tag => (s.nextTaskId, tag))

/-- The next instance of a task in a paused group is paused. -/
def Store.pauseInstance (s : Store) (id : Int) (group : Option String) (now : Int) : Store :=
  if s.groupPaused group then s.updateTasks (·.id == id) fun r => r.pauseFor .group now else s

/-- A pending row with the key of the task is there already. -/
def Store.piledUp (s : Store) (key : String) : Bool := s.tasks.any fun r => r.key == key && r.status == .pending

theorem createNextInstance_piledUp {task : TaskRecord} {tags : List (String × String)}
    {interval now : Int} {s : Store} (h : s.piledUp task.key = true) :
    createNextInstance task tags interval now s = (.ok none, s) := by
  rw [Store.piledUp] at h
  rw [createNextInstance, Txn.get_bind_apply, if_pos h]
  rfl

theorem createNextInstance_ok {task : TaskRecord} {tags : List (String × String)} {interval now : Int} {s : Store}
    (hp : s.piledUp task.key = false) (hk : s.taskByKey task.key = none) (ht : ¬ s.TagsRefused s.nextTaskId tags) :
    createNextInstance task tags interval now s =
      (.ok (some (now + interval * 1000, task.recurringExecutionCount + 1)),
        (s.addInstance task tags interval now).pauseInstance s.nextTaskId task.groupKey now) := by
  have hins : insertTask (task.nextInstance interval now) s =
      (.ok s.nextTaskId, s.addTask (task.nextInstance interval now)) := by
    rw [insertTask, if_neg]
    show ¬ (s.taskByKey task.key).isSome = true
    rw [hk]
    simp
  have htags : insertTags s.nextTaskId tags (s.addTask (task.nextInstance interval now)) =
      (.ok (), s.addInstance task tags interval now) := by
    rw [Store.TagsRefused, not_or, not_not] at ht
    exact insertTags_free ht.1 ht.2
  rw [createNextInstance, Txn.get_bind_apply, if_neg (by simpa [Store.piledUp] using hp), Txn.bind_of_ok hins,
    Txn.bind_of_ok htags]
  rfl

theorem createNextInstance_tagsRefused {task : TaskRecord} {tags : List (String × String)}
    {interval now : Int} {s : Store} (hp : s.piledUp task.key = false) (hk : s.taskByKey task.key = none)
    (ht : s.TagsRefused s.nextTaskId tags) :
    ∃ s', createNextInstance task tags interval now s = (.error taskTagsError, s') := by
  have hins : insertTask (task.nextInstance interval now) s =
      (.ok s.nextTaskId, s.addTask (task.nextInstance interval now)) := by
    rw [insertTask, if_neg]
    show ¬ (s.taskByKey task.key).isSome = true
    rw [hk]
    simp
  have href : (s.addTask (task.nextInstance interval now)).TagsRefused s.nextTaskId tags := ht
  obtain ⟨tt, herr⟩ := insertTags_refused href
  rw [createNextInstance, Txn.get_bind_apply, if_neg (by simpa [Store.piledUp] using hp), Txn.bind_of_ok hins]
  exact ⟨_, Txn.bind_of_error herr⟩

theorem createNextInstance_keyTaken {task : TaskRecord} {tags : List (String × String)}
    {interval now : Int} {s : Store} (hp : s.piledUp task.key = false) (hk : s.taskByKey task.key ≠ none) :
    createNextInstance task tags interval now s = (.error taskKeyError, s) := by
  have hins : insertTask (task.nextInstance interval now) s = (.error taskKeyError, s) := by
    rw [insertTask, if_pos]
    show (s.taskByKey task.key).isSome = true
    exact Option.isSome_iff_ne_none.2 hk
  rw [createNextInstance, Txn.get_bind_apply, if_neg (by simpa [Store.piledUp] using hp), Txn.bind_of_error hins]

theorem createNextInstance_error {task : TaskRecord} {tags : List (String × String)} {interval now : Int} {s : Store}
    (hp : s.piledUp task.key = false) (h : s.taskByKey task.key ≠ none ∨ s.TagsRefused s.nextTaskId tags) :
    ∃ e s', createNextInstance task tags interval now s = (.error e, s') := by
  by_cases hk : s.taskByKey task.key = none
  · obtain ⟨s', herr⟩ : ∃ s', createNextInstance task tags interval now s = (.error taskTagsError, s') :=
      createNextInstance_tagsRefused hp hk (h.resolve_left (not_not.2 hk))
    exact ⟨_, s', herr⟩
  · exact ⟨_, _, createNextInstance_keyTaken hp hk⟩

/-! ### `complete_inner` -/

/-- The tables after the history row and the row of a completed task are written. -/
def Store.completeRow (s : Store) (skipTags : Bool) (now : Int) (item : TaskRecord × IoBudget) : Store :=
  (s.logCompleted skipTags now item).finishRow skipTags item.1.id

/-- `complete_inner` with the failure of its history row, its own row and the next instance taken apart. -/
theorem completeInner_apply (task : TaskRecord) (metrics : IoBudget) (skipTags : Bool) (now : Int) (s : Store)
    (hlog : ¬ s.LogFails skipTags task.id) :
    completeInner task metrics skipTags now s =
      match task.recurs with
      | none => (.ok none, s.completeRow skipTags now (task, metrics))
      | some interval =>
        if s.deletable task.id then
          createNextInstance task (s.tagsOf task.id) interval now (s.completeRow skipTags now (task, metrics))
        else (.ok none, s.completeRow skipTags now (task, metrics)) := by
  have hstart : completeInner task metrics skipTags now s =
      (do
        let savedTags ← (fun s => s.tagsOf task.id) <$> Txn.get
        let deleted ← deleteCompleted task.id
        if deleted == 0 then
          Txn.modify fun s => s.resetRequeued task.id
          pure none
        else
          Txn.modify fun s => if skipTags then s else s.deleteTaskTags task.id
          match task.recurs with
          | none => pure none
          | some interval => createNextInstance task savedTags interval now : Sql (Option (Int × Int)))
      (s.logCompleted skipTags now (task, metrics)) := by
    rw [completeInner]
    exact Txn.bind_of_ok (insertHistory_logs hlog ..)
  have hdel : s.deletable task.id = (s.logCompleted skipTags now (task, metrics)).deletable task.id := rfl
  have htags : s.tagsOf task.id = (s.logCompleted skipTags now (task, metrics)).tagsOf task.id := rfl
  rw [hstart, hdel, htags, Store.completeRow]
  generalize s.logCompleted skipTags now (task, metrics) = s₁
  by_cases hd : s₁.deletable task.id = true
  · have hcount : ¬ ((s₁.tasks.countP fun r => r.id == task.id && !r.requeue) == 0) = true := by
      rw [beq_iff_eq, List.countP_eq_zero]
      intro hnone
      obtain ⟨r, hr, hp⟩ := List.any_eq_true.1 hd
      exact hnone r hr hp
    show (if (s₁.tasks.countP fun r => r.id == task.id && !r.requeue) == 0 then _ else _ : Sql (Option (Int × Int)))
      _ = _
    rw [if_neg hcount, Txn.modify_bind_apply, Store.finishRow, if_pos hd]
    cases task.recurs with
    | none => rfl
    | some interval =>
      dsimp only
      rw [if_pos hd]
  · have hnone : ∀ r ∈ s₁.tasks, (r.id == task.id && !r.requeue) = false := by
      intro r hr
      by_contra hp
      exact hd (List.any_eq_true.2 ⟨r, hr, by simpa using hp⟩)
    have hcount : ((s₁.tasks.countP fun r => r.id == task.id && !r.requeue) == 0) = true := by
      rw [beq_iff_eq, List.countP_eq_zero]
      intro r hr
      simp [hnone r hr]
    show (if (s₁.tasks.countP fun r => r.id == task.id && !r.requeue) == 0 then _ else _ : Sql (Option (Int × Int)))
      (s₁.deleteTasks fun r => r.id == task.id && !r.requeue) = _
    rw [if_pos hcount, Store.deleteTasks_eq_self hnone, Txn.modify_bind_apply, Store.finishRow, if_neg hd]
    cases task.recurs with
    | none => rfl
    | some interval =>
      dsimp only
      rw [if_neg hd]
      rfl

/-- The next instance cannot be inserted: another row has its key, or its tags are refused. -/
def Store.InstanceFails (s : Store) (task : TaskRecord) (tags : List (String × String)) : Prop :=
  s.piledUp task.key = false ∧ (s.taskByKey task.key ≠ none ∨ s.TagsRefused s.nextTaskId tags)

/-- A completion fails: its history row does, or the next instance of a recurring task. -/
def Store.CompletionFails (s : Store) (skipTags : Bool) (task : TaskRecord) : Prop :=
  s.LogFails skipTags task.id ∨
    (task.recurs ≠ none ∧ s.deletable task.id = true ∧
      (s.finishRow skipTags task.id).InstanceFails task (s.tagsOf task.id))

theorem completeInner_log_fails {task : TaskRecord} {metrics : IoBudget} {skipTags : Bool} {now : Int} {s : Store}
    (h : s.LogFails skipTags task.id) : ∃ e s', completeInner task metrics skipTags now s = (.error e, s') := by
  obtain ⟨s', herr⟩ := insertHistory_fails h .completed metrics (computeDurationMs now task) task.lastError now
  exact ⟨_, s', Txn.bind_of_error herr⟩

/-- The next instance fails for the same reasons with and without the history row. -/
private theorem instanceFails_completeRow {task : TaskRecord} {metrics : IoBudget} {skipTags : Bool} {now : Int}
    {s : Store} {tags : List (String × String)} :
    (s.completeRow skipTags now (task, metrics)).InstanceFails task tags ↔
      (s.finishRow skipTags task.id).InstanceFails task tags := by
  have hdel : (s.logCompleted skipTags now (task, metrics)).deletable task.id = s.deletable task.id := rfl
  rw [Store.completeRow, Store.finishRow, Store.finishRow]
  dsimp only
  rw [hdel]
  split
  · split
    · exact Iff.rfl
    · exact Iff.rfl
  · exact Iff.rfl

theorem createNextInstance_fails_iff {task : TaskRecord} {tags : List (String × String)}
    {interval now : Int} {s : Store} :
    (∃ e s', createNextInstance task tags interval now s = (.error e, s')) ↔ s.InstanceFails task tags := by
  constructor
  · rintro ⟨e, s', h⟩
    by_contra hnot
    by_cases hp : s.piledUp task.key = true
    · rw [createNextInstance_piledUp hp] at h
      cases h
    · rw [Bool.not_eq_true] at hp
      rw [Store.InstanceFails, not_and, not_or, ne_eq, not_not] at hnot
      obtain ⟨hk, ht⟩ := hnot hp
      rw [createNextInstance_ok hp hk ht] at h
      cases h
  · rintro ⟨hp, h⟩
    exact createNextInstance_error hp h

theorem completeInner_fails_iff {task : TaskRecord} {metrics : IoBudget} {skipTags : Bool} {now : Int} {s : Store} :
    (∃ e s', completeInner task metrics skipTags now s = (.error e, s')) ↔ s.CompletionFails skipTags task := by
  by_cases hlog : s.LogFails skipTags task.id
  · exact ⟨fun _ => .inl hlog, fun _ => completeInner_log_fails hlog⟩
  · rw [completeInner_apply _ _ _ _ _ hlog, Store.CompletionFails]
    cases hrec : task.recurs with
    | none => simp [hlog]
    | some interval =>
      dsimp only
      by_cases hd : s.deletable task.id = true
      · rw [if_pos hd, createNextInstance_fails_iff, instanceFails_completeRow]
        simp [hlog, hd]
      · rw [if_neg hd]
        simp [hlog, hd]

/-- The statements of a resolution cannot fail. -/
theorem resolveDependentsInner_ok (id now : Int) (s : Store) :
    ∃ unblocked s', resolveDependentsInner id now s = (.ok unblocked, s') ∧ s'.taskHistory = s.taskHistory := by
  have hdel : deleteEdgesTo id s = (.ok ((s.taskDeps.filter fun e => e.2 == id).map Prod.fst),
    { s with taskDeps := s.taskDeps.filter fun e => !(e.2 == id) }) := rfl
  rw [resolveDependentsInner, Txn.bind_of_ok hdel]
  split
  · exact ⟨_, _, rfl, rfl⟩
  · exact ⟨_, _, rfl, rfl⟩

theorem completeAndResolve_fails_iff {item : TaskRecord × IoBudget} {skipTags : Bool} {now : Int} {s : Store} :
    (∃ e s', completeAndResolve skipTags now item s = (.error e, s')) ↔ s.CompletionFails skipTags item.1 := by
  rw [← completeInner_fails_iff]
  constructor
  · rintro ⟨e, s', h⟩
    rcases Txn.bind_error h with h | ⟨recurring, s₁, _, h⟩
    · exact ⟨e, s', h⟩
    · obtain ⟨unblocked, s₂, h₂, _⟩ := resolveDependentsInner_ok item.1.id now s₁
      rw [Txn.bind_of_ok h₂] at h
      cases h
  · rintro ⟨e, s', h⟩
    exact ⟨e, s', Txn.bind_of_error h⟩

/-- A completion that succeeds leaves the completed row behind it, and a next instance at most. -/
theorem completeInner_cases {task : TaskRecord} {metrics : IoBudget} {skipTags : Bool} {now : Int} {s s' : Store}
    {result : Option (Int × Int)} (h : completeInner task metrics skipTags now s = (.ok result, s')) :
    s' = s.completeRow skipTags now (task, metrics) ∨
    ∃ interval, task.recurs = some interval ∧
      (s.completeRow skipTags now (task, metrics)).taskByKey task.key = none ∧
      s' = ((s.completeRow skipTags now (task, metrics)).addInstance task (s.tagsOf task.id) interval
        now).pauseInstance
        (s.completeRow skipTags now (task, metrics)).nextTaskId task.groupKey now := by
  have hlog : ¬ s.LogFails skipTags task.id := by
    intro hf
    obtain ⟨e, s₁, herr⟩ : ∃ e s₁, completeInner task metrics skipTags now s = (.error e, s₁) :=
      completeInner_log_fails hf
    rw [herr] at h
    cases h
  rw [completeInner_apply _ _ _ _ _ hlog] at h
  generalize s.completeRow skipTags now (task, metrics) = s₁ at h ⊢
  cases hrec : task.recurs with
  | none =>
    rw [hrec] at h
    cases h
    exact .inl rfl
  | some interval =>
    rw [hrec] at h
    dsimp only at h
    split at h
    · by_cases hp : s₁.piledUp task.key = true
      · rw [createNextInstance_piledUp hp] at h
        cases h
        exact .inl rfl
      · rw [Bool.not_eq_true] at hp
        by_cases hf : s₁.InstanceFails task (s.tagsOf task.id)
        · obtain ⟨e, s₂, herr⟩ : ∃ e s₂, createNextInstance task (s.tagsOf task.id) interval now s₁ =
              (.error e, s₂) :=
            createNextInstance_fails_iff.2 hf
          rw [herr] at h
          cases h
        · rw [Store.InstanceFails, not_and, not_or, ne_eq, not_not] at hf
          obtain ⟨hk, ht⟩ := hf hp
          rw [createNextInstance_ok hp hk ht] at h
          cases h
          exact .inr ⟨interval, rfl, hk, rfl⟩
    · cases h
      exact .inl rfl

/-- A completion that succeeds writes one history row. -/
theorem completeInner_history {task : TaskRecord} {metrics : IoBudget} {skipTags : Bool} {now : Int} {s s' : Store}
    {result : Option (Int × Int)} (h : completeInner task metrics skipTags now s = (.ok result, s')) :
    s'.taskHistory = (s.logCompleted skipTags now (task, metrics)).taskHistory := by
  have hfinish : (s.completeRow skipTags now (task, metrics)).taskHistory =
      (s.logCompleted skipTags now (task, metrics)).taskHistory := by
    rw [Store.completeRow, Store.finishRow]
    split
    · split
      · rfl
      · rfl
    · rfl
  rw [← hfinish]
  rcases completeInner_cases h with rfl | ⟨interval, _, _, rfl⟩
  · rfl
  · rw [Store.pauseInstance]
    split
    · rfl
    · rfl

/-! ### A failure that is not retried -/

theorem willRetry_zero (task : TaskRecord) (retryable : Bool) : task.willRetry retryable 0 = false := by
  rw [TaskRecord.willRetry]
  cases retryable with
  | false => rfl
  | true =>
    have : ¬ ((task.retryCount : Int) < 0) := by omega
    simp [this]

/-! ### The dependents -/

/-- A blocked row whose edges all lead to `ids`, and there is one. -/
def Store.frees (s : Store) (ids : List Int) (r : TaskRow) : Bool :=
  r.status == .blocked && (s.taskDeps.any fun e => e.1 == r.id && ids.contains e.2) &&
    !(s.taskDeps.any fun e => e.1 == r.id && !ids.contains e.2)

/-- It becomes pending, or paused if its group is. -/
def Store.freeRow (s : Store) (now : Int) (r : TaskRow) : TaskRow :=
  if s.groupPaused r.groupKey then { r with status := .pending }.pauseFor .group now
    else { r with status := .pending }

theorem Store.freeRow_inst (s : Store) (now : Int) (r : TaskRow) : (s.freeRow now r).inst = r.inst := by
  rw [Store.freeRow]
  split
  · rfl
  · rfl

/-- The edges to `ids` are deleted and the rows they held back are free. -/
@[simps] def Store.release (s : Store) (ids : List Int) (now : Int) : Store :=
  { s with
    tasks := s.tasks.map fun r => if s.frees ids r then s.freeRow now r else r
    taskDeps := s.taskDeps.filter fun e => !ids.contains e.2 }

/-- The ids of the rows that become free. -/
def Store.freed (s : Store) (ids : List Int) : List Int := (s.tasks.filter (s.frees ids)).map (·.id)

theorem Store.frees_iff {s : Store} {ids : List Int} {r : TaskRow} :
    s.frees ids r = true ↔
      r.status = .blocked ∧ (∃ e ∈ s.taskDeps, e.1 = r.id ∧ e.2 ∈ ids) ∧ ∀ e ∈ s.taskDeps, e.1 = r.id →
        e.2 ∈ ids := by
  simp only [Store.frees, Bool.and_eq_true, beq_iff_eq, List.any_eq_true, List.contains_iff_mem, Bool.not_eq_true',
    List.any_eq_false, not_and, and_assoc]
  refine and_congr_right fun _ => and_congr_right fun _ => ?_
  refine forall₂_congr fun e _ => imp_congr_right fun _ => ?_
  simp

/-- The statements after the deletion of the edges to `ids`. -/
theorem releaseTail_apply {s : Store} (hids : s.ids.Nodup) (ids : List Int) (now : Int) :
    (if ((s.taskDeps.filter fun e => ids.contains e.2).map Prod.fst).isEmpty then pure [] else do
        let unblocked ← unblock ((s.taskDeps.filter fun e => ids.contains e.2).map Prod.fst)
        Txn.modify fun s => s.pauseUnblocked unblocked now
        pure unblocked : Sql (List Int)) { s with taskDeps := s.taskDeps.filter fun e => !ids.contains e.2 } =
      (.ok (s.freed ids), s.release ids now) := by
  set dependents := (s.taskDeps.filter fun e => ids.contains e.2).map Prod.fst with hdep
  set s₁ : Store := { s with taskDeps := s.taskDeps.filter fun e => !ids.contains e.2 } with hs₁
  -- the rows that the `UPDATE` selects are the freed ones
  have hsel : ∀ r, s₁.unblockable dependents r = s.frees ids r := by
    intro r
    rw [Bool.eq_iff_iff, Store.frees_iff]
    simp only [Store.unblockable, Bool.and_eq_true, beq_iff_eq, List.contains_iff_mem, Bool.not_eq_true',
      List.any_eq_false, hdep, hs₁, List.mem_map, List.mem_filter, and_assoc]
    refine and_congr_right fun _ => and_congr ?_ ?_
    · constructor
      · rintro ⟨e, he, hin, hid⟩
        exact ⟨e, he, hid, hin⟩
      · rintro ⟨e, he, hid, hin⟩
        exact ⟨e, he, hin, hid⟩
    · constructor
      · intro h e he hid
        by_contra hin
        exact h e ⟨he, by simpa using hin⟩ hid
      · rintro h e ⟨he, hin⟩ hid
        simp [h e he hid] at hin
  have hfreed : (s₁.tasks.filter (s₁.unblockable dependents)).map (·.id) = s.freed ids := by
    rw [Store.freed]
    exact congrArg _ (List.filter_congr fun r _ => hsel r)
  split
  · -- no edge leads to `ids`, so nothing is freed
    rename_i hempty
    have hnone : ∀ r ∈ s.tasks, s.frees ids r = false := by
      intro r _
      rw [← hsel, Store.unblockable]
      rw [List.isEmpty_iff] at hempty
      simp [hempty]
    have hlist : s.freed ids = [] := by
      rw [Store.freed, List.map_eq_nil_iff, List.filter_eq_nil_iff]
      intro r hr
      simp [hnone r hr]
    have hstore : s.release ids now = s₁ := by
      have htasks : (s.tasks.map fun r => if s.frees ids r then s.freeRow now r else r) = s.tasks := by
        conv_rhs => rw [← List.map_id s.tasks]
        refine List.map_congr_left fun r hr => ?_
        simp [hnone r hr]
      rw [Store.release, htasks]
    rw [hlist, hstore]
    rfl
  · show (Except.ok ((s₁.tasks.filter (s₁.unblockable dependents)).map (·.id)),
      (s₁.updateTasks (s₁.unblockable dependents) fun r => { r with status := .pending }).pauseUnblocked
        ((s₁.tasks.filter (s₁.unblockable dependents)).map (·.id)) now) = _
    rw [hfreed]
    refine congrArg (Prod.mk _) ?_
    have htasks : ((s₁.updateTasks (s₁.unblockable dependents) fun r => { r with status := .pending }).pauseUnblocked
        (s.freed ids) now).tasks = (s.release ids now).tasks := by
      rw [Store.pauseUnblocked, Store.updateTasks_tasks, Store.updateTasks_tasks, List.map_map, Store.release_tasks]
      refine List.map_congr_left fun r hr => ?_
      have hgroup : ∀ g, (s₁.updateTasks (s₁.unblockable dependents) fun r =>
        { r with status := .pending }).groupPaused g = s.groupPaused g := fun g => rfl
      simp only [Function.comp_apply, hsel, hgroup]
      by_cases hf : s.frees ids r = true
      · have hmem : r.id ∈ s.freed ids := List.mem_map.2 ⟨r, List.mem_filter.2 ⟨hr, hf⟩, rfl⟩
        rw [if_pos hf, if_pos hf, Store.freeRow]
        simp [hmem]
      · have hmem : r.id ∉ s.freed ids := by
          intro hm
          obtain ⟨r', hr', hid⟩ := List.mem_map.1 hm
          obtain ⟨hr', hf'⟩ := List.mem_filter.1 hr'
          rw [List.inj_on_of_nodup_map hids hr hr' hid.symm] at hf
          exact hf hf'
        rw [if_neg hf, if_neg hf]
        simp [hmem]
    simpa [Store.pauseUnblocked, Store.updateTasks, Store.release, hs₁] using htasks

theorem resolveDependentsInner_apply {s : Store} (hids : s.ids.Nodup) (id now : Int) :
    resolveDependentsInner id now s = (.ok (s.freed [id]), s.release [id] now) := by
  rw [← releaseTail_apply hids [id] now]
  have hto : ∀ x : Int, [id].contains x = (x == id) := by
    intro x
    rw [List.contains_cons, List.contains_nil, Bool.or_false]
  simp only [hto]
  rfl

end Taskmill
