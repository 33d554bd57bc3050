import Taskmill.SubmitCases
import Taskmill.Schema
import Taskmill.Transact.Triple

/-!
# Tags

The rows of `task_tags` and `task_history_tags` point to rows of `tasks` and `task_history` by their ids.  There are
no foreign keys, so every statement that deletes a row has to delete its tags, and ids are given out again: a tag
that is left behind becomes a tag of the next owner of the id, or makes the insertion of its tags fail.

`cancel_children` and the two prunings delete rows and not their tags, and the batches trust `has_tags`
(`Action.SparesTags`); everything else keeps the tables intact (`Action.tags_exec`).
-/

namespace Taskmill

open Transact

theorem Tags.nodup_single (key value : String) : ([(key, value)].map Prod.fst).Nodup := List.nodup_singleton key

/-- Every tag belongs to a row that is there, and no two tags of a task have the same key. -/
structure Store.TagsIntact (s : Store) : Prop where
  tasks : ∀ t ∈ s.taskTags, t.1 ∈ s.ids
  history : s.HistoryTagsOwned
  keys : (s.taskTags.map fun t => (t.1, t.2.1)).Nodup

/-- A primary key of a tag table is violated. -/
def StoreError.ofTags (e : StoreError) : Prop := e = taskTagsError ∨ e = taskHistoryTagsError

def errorOf {α : Type} : Except StoreError α → Option StoreError
  | .error e => some e
  | .ok _ => none

/-- The errors that the callers of the step get. -/
def Action.errors (sha256 : List UInt8 → String) (s : Store) : Action → List StoreError
  | .submitDirect sub now => (errorOf (Taskmill.submitDirect sha256 sub now s).1).toList
  | .processSubmitBatch skipRequeue batch =>
    (Taskmill.processSubmitBatch sha256 skipRequeue batch s).1.filterMap errorOf
  | .submitChunk skipRequeue last now chunk =>
    (errorOf (Taskmill.submitChunk sha256 skipRequeue last now chunk s).1).toList
  | .complete id metrics now => (errorOf (completeTx id metrics now s).1).toList
  | .completeWithRecord task metrics now => (errorOf (completeWithRecordTx task metrics now s).1).toList
  | .completeBatch items now => (errorOf (completeBatchTx items now s).1).toList
  | .resolveDependents id now => (errorOf (Taskmill.resolveDependents id now s).1).toList
  | .fail id error retryable maxRetries metrics backoff now =>
    (errorOf (failTx id error retryable maxRetries metrics backoff now s).1).toList
  | .failWithRecord task error retryable maxRetries metrics backoff now =>
    (errorOf (failWithRecordTx task error retryable maxRetries metrics backoff now s).1).toList
  | .failBatch items now => (errorOf (failBatchTx items now s).1).toList
  | .failDependents id now => (errorOf (Taskmill.failDependents id now s).1).toList
  | .cancelToHistory id now => (errorOf (cancelToHistoryTx id now s).1).toList
  | .cancelToHistoryWithRecord task now => (errorOf (cancelToHistoryWithRecordTx task now s).1).toList
  | .cancelChildren parent read now => (errorOf (cancelChildrenTx parent read now s).1).toList
  | .expireTasks now => (errorOf (expireTasksTx now s).1).toList
  | .expireSingle id now => (errorOf (Taskmill.expireSingle id now s).1).toList
  | _ => []

/-- The history rows that are kept by `prune_history_by_count`. -/
def Store.latestHistory (s : Store) (keepLatest : Int) : List Int :=
  let latest := s.taskHistory.insertionSort fun a b => b.completedAt ≤ a.completedAt
  (if keepLatest < 0 then latest else latest.take keepLatest.toNat).map (·.id)

/-- No history row with tags is too old. -/
def Store.YoungTags (s : Store) (maxAgeDays now : Int) : Prop :=
  ∀ t ∈ s.taskHistoryTags, ∀ h ∈ s.taskHistory, h.id = t.1 → ¬ h.completedAt < now - maxAgeDays * 86400000

/-- All history rows with tags are among the latest. -/
def Store.LateTags (s : Store) (keepLatest : Int) : Prop := ∀ t ∈ s.taskHistoryTags, t.1 ∈ s.latestHistory keepLatest

/-- If `has_tags` is not set, the tasks whose outcome is recorded have no tags. -/
def Store.FlagHolds (s : Store) (ids : List Int) : Prop := s.hasTags = false → ∀ t ∈ s.taskTags, t.1 ∉ ids

/-- No row is deleted without its tags. -/
def Action.SparesTags (s : Store) : Action → Prop
  | .cancelChildren parent _ _ => ∀ r ∈ s.cancellableChildren parent, ∀ t ∈ s.taskTags, t.1 ≠ r.id
  | .pruneHistoryByAge days now => s.YoungTags days now
  | .pruneHistoryByCount keep => s.LateTags keep
  | .maybePrune now =>
    match s.retentionPolicy with
    | none => True
    | some policy => s.maybePrunePanics = false → s.completionCount % s.pruneInterval = 0 →
      match policy with
      | .maxCount n => s.LateTags n
      | .maxAgeDays days => s.YoungTags days now
  | .complete id _ _ => s.FlagHolds [id]
  | .completeWithRecord task _ _ => s.FlagHolds [task.id]
  | .completeBatch items _ => s.FlagHolds (items.map (·.1.id))
  | .failBatch items _ => 2 ≤ items.length → s.FlagHolds (items.map (·.task.id))
  | _ => True

/-! ### The tables -/

/-- The tables are intact, and if the tags are skipped there are none for the tasks in question. -/
structure Store.Tidy (skip : Bool) (ids : List Int) (s : Store) : Prop where
  intact : s.TagsIntact
  skipped : skip = true → ∀ t ∈ s.taskTags, t.1 ∉ ids

/-- The error is none of a tag table, and the tables are intact. -/
def Tidied (skip : Bool) (ids : List Int) (e : StoreError) (s : Store) : Prop := s.Tidy skip ids ∧ ¬ e.ofTags

theorem Store.TagsIntact.tidy {s : Store} (h : s.TagsIntact) : s.Tidy false [] := ⟨h, nofun⟩

section Tables

variable {skip : Bool} {ids : List Int} {s s' : Store}

theorem mem_tagsOf {id : Int} {tag : String × String} : tag ∈ s.tagsOf id ↔ (id, tag) ∈ s.taskTags := by
  rw [Store.tagsOf, List.mem_map]
  constructor
  · rintro ⟨t, ht, rfl⟩
    obtain ⟨ht, hid⟩ := List.mem_filter.1 ht
    rw [beq_iff_eq] at hid
    rw [← hid]
    exact ht
  · intro h
    exact ⟨(id, tag), List.mem_filter.2 ⟨h, by simp⟩, rfl⟩

/-- The keys of the tags of one task are different. -/
theorem Store.TagsIntact.tagsOf_nodup (h : s.TagsIntact) (id : Int) : ((s.tagsOf id).map Prod.fst).Nodup := by
  have hkeys : ((s.taskTags.filter (·.1 == id)).map fun t => (t.1, t.2.1)).Nodup :=
    h.keys.sublist (List.filter_sublist.map _)
  have heq : (s.taskTags.filter (·.1 == id)).map (fun t => (t.1, t.2.1)) =
      ((s.tagsOf id).map Prod.fst).map fun k => (id, k) := by
    rw [Store.tagsOf, List.map_map, List.map_map]
    refine List.map_congr_left fun t ht => ?_
    have hid : t.1 = id := by simpa using (List.mem_filter.1 ht).2
    simp [hid]
  rw [heq] at hkeys
  exact hkeys.of_map _

/-- Neither the tags nor the ids nor the history change. -/
theorem Store.Tidy.of_same (h : s.Tidy skip ids) (hids : s'.ids = s.ids) (htags : s'.taskTags = s.taskTags)
    (hhistory : s'.taskHistory = s.taskHistory) (hhtags : s'.taskHistoryTags = s.taskHistoryTags) :
    s'.Tidy skip ids where
  intact :=
    { tasks := by rw [htags, hids]; exact h.intact.tasks
      history := by rw [Store.HistoryTagsOwned, hhtags, hhistory]; exact h.intact.history
      keys := by rw [htags]; exact h.intact.keys }
  skipped := by rw [htags]; exact h.skipped

/-- Tags are deleted, and rows whose tags are gone. -/
theorem Store.Tidy.of_sublist (h : s.Tidy skip ids) (htags : s'.taskTags.Sublist s.taskTags)
    (hids : ∀ t ∈ s'.taskTags, t.1 ∈ s.ids → t.1 ∈ s'.ids) (hhistory : s'.taskHistory = s.taskHistory)
    (hhtags : s'.taskHistoryTags = s.taskHistoryTags) : s'.Tidy skip ids where
  intact :=
    { tasks := fun t ht => hids t ht (h.intact.tasks t (htags.subset ht))
      history := by rw [Store.HistoryTagsOwned, hhtags, hhistory]; exact h.intact.history
      keys := h.intact.keys.sublist (htags.map _) }
  skipped := fun hskip t ht => h.skipped hskip t (htags.subset ht)

theorem Store.Tidy.updateTasks (h : s.Tidy skip ids) {p : TaskRow → Bool} {f : TaskRow → TaskRow}
    (hf : ∀ r, (f r).id = r.id) :
    (s.updateTasks p f).Tidy skip ids := h.of_same (s.ids_updateTasks p hf) rfl rfl rfl

private theorem mem_ids_deleteTasks {id : Int} {p : TaskRow → Bool} (h : id ∈ s.ids)
    (hp : ∀ r ∈ s.tasks, r.id = id → p r = false) : id ∈ (s.deleteTasks p).ids := by
  obtain ⟨r, hr, rfl⟩ := List.mem_map.1 h
  exact List.mem_map.2 ⟨r, List.mem_filter.2 ⟨hr, by rw [hp r hr rfl]; rfl⟩, rfl⟩

/-- A row is deleted with its tags. -/
theorem Store.Tidy.delete (h : s.Tidy skip ids) (id : Int) : (s.delete id).Tidy skip ids := by
  refine h.of_sublist List.filter_sublist (fun t ht hid => ?_) rfl rfl
  have hne : t.1 ≠ id := by simpa using (List.mem_filter.1 ht).2
  refine mem_ids_deleteTasks (s := s.deleteTaskTags id) hid fun r _ hr => ?_
  rw [hr]
  simpa using hne

theorem Store.Tidy.deleteEdgesFrom (h : s.Tidy skip ids) (id : Int) : (s.deleteEdgesFrom id).Tidy skip ids :=
  h.of_same rfl rfl rfl rfl

theorem Store.Tidy.addTask (h : s.Tidy skip ids) (row : TaskRow) : (s.addTask row).Tidy skip ids where
  intact :=
    { tasks := fun t ht => by
        rw [Store.ids, Store.addTask_tasks, List.map_append]
        exact List.mem_append_left _ (h.intact.tasks t ht)
      history := h.intact.history
      keys := h.intact.keys }
  skipped := h.skipped

/-- No tag is left for the id of the next row. -/
theorem Store.TagsIntact.free (h : s.TagsIntact) {t : Int × String × String} (ht : t ∈ s.taskTags) :
    t.1 ≠ s.nextTaskId := by
  intro heq
  have hmem := h.tasks t ht
  rw [heq] at hmem
  exact nextRowid_not_mem _ hmem

theorem Store.TagsIntact.tagsOf_nextTaskId (h : s.TagsIntact) : s.tagsOf s.nextTaskId = [] := by
  rw [Store.tagsOf, List.filter_eq_nil_iff.2, List.map_nil]
  intro t ht hid
  exact h.free ht (by simpa using hid)

theorem Store.Tidy.resetRequeued (h : s.Tidy skip ids) (id : Int) : (s.resetRequeued id).Tidy skip ids :=
  h.of_same (s.ids_updateTasks _ fun _ => rfl) rfl rfl rfl

end Tables

/-! ### The statements -/

section Statements

variable {skip : Bool} {ids : List Int} {now : Int}

private theorem not_ofTags_taskKey : ¬ taskKeyError.ofTags := by
  rintro (h | h)
  · exact absurd h (by decide)
  · exact absurd h (by decide)

private theorem tidy_transaction {α : Type} {x : Sql α} {Q : α → Store → Prop}
    (hx : Txn.Triple (Store.Tidy skip ids) x Q (Tidied skip ids)) :
    Txn.Triple (Store.Tidy skip ids) (transaction x) Q (Tidied skip ids) :=
  hx.atomically fun _ _ _ hs he => ⟨hs.of_same rfl rfl rfl rfl, he.2⟩

/-- `insert_history` does not fail; what is known about the rows and their tags stays. -/
private theorem tidy_insertHistory_with (K : List TaskRow → List (Int × String × String) → Prop) {task : TaskRecord}
    {status : HistoryStatus} {metrics : IoBudget} {durationMs : Option Int} {lastError : Option String}
    {skipTags : Bool} :
    Txn.Triple (fun s => s.Tidy skip ids ∧ K s.tasks s.taskTags)
      (insertHistory task status metrics durationMs lastError skipTags now)
      (fun _ s => s.Tidy skip ids ∧ K s.tasks s.taskTags) (Tidied skip ids) := by
  intro s hs
  obtain ⟨_, s', hok, howned⟩ := insertHistory_total s hs.1.intact.history
  obtain ⟨tags, hs'⟩ := insertHistory_leaves hok
  rw [hok]
  subst hs'
  exact Txn.Triple.ends_ok ⟨⟨⟨hs.1.intact.tasks, howned, hs.1.intact.keys⟩, hs.1.skipped⟩, hs.2⟩

private theorem tidy_insertHistory {task : TaskRecord} {status : HistoryStatus} {metrics : IoBudget}
    {durationMs : Option Int} {lastError : Option String} {skipTags : Bool} :
    Txn.Triple (Store.Tidy skip ids) (insertHistory task status metrics durationMs lastError skipTags now)
      (fun _ => Store.Tidy skip ids) (Tidied skip ids) :=
  (tidy_insertHistory_with fun _ _ => True).conseq (fun _ hs => ⟨hs, trivial⟩) (fun _ _ hs => hs.1) fun _ _ he => he

/-- A row that is there and has no tags gets some. -/
private structure Store.Bare (skip : Bool) (ids : List Int) (id : Int) (s : Store) : Prop where
  tidy : s.Tidy skip ids
  mem : id ∈ s.ids
  bare : ∀ t ∈ s.taskTags, t.1 ≠ id

private theorem tidy_insertTags {id : Int} {tags : List (String × String)} (hn : (tags.map Prod.fst).Nodup)
    (hskip : skip = true → tags = []) :
    Txn.Triple (Store.Bare skip ids id) (insertTags id tags)
      (fun _ s => s.Tidy skip ids) (Tidied skip ids) := by
  refine .of_ok (fun s hs => insertTags_free hn fun ⟨t, ht, hid, _⟩ => hs.bare t ht hid) fun s hs => ?_
  refine ⟨⟨fun t ht => ?_, hs.tidy.intact.history, ?_⟩, fun htrue t ht => ?_⟩
  · rcases List.mem_append.1 ht with ht | ht
    · exact hs.tidy.intact.tasks t ht
    · obtain ⟨tag, _, rfl⟩ := List.mem_map.1 ht
      exact hs.mem
  · rw [Store.withTags_taskTags, List.map_append, List.nodup_append]
    refine ⟨hs.tidy.intact.keys, ?_, fun x hx y hy hxy => ?_⟩
    · have hpair : (tags.map fun tag => (id, tag)).map (fun t => (t.1, t.2.1)) =
          (tags.map Prod.fst).map fun k => (id, k) := by
        simp [Function.comp_def]
      rw [hpair]
      exact hn.map fun a b hab => (Prod.mk.inj hab).2
    · obtain ⟨t, ht, rfl⟩ := List.mem_map.1 hx
      obtain ⟨t', ht', rfl⟩ := List.mem_map.1 hy
      obtain ⟨tag, _, rfl⟩ := List.mem_map.1 ht'
      exact hs.bare t ht (Prod.mk.inj hxy).1
  · rw [hskip htrue] at ht
    exact hs.tidy.skipped htrue t (by simpa using ht)

/-- A new row has no tags. -/
private theorem tidy_insertTask {row : TaskRow} :
    Txn.Triple (Store.Tidy skip ids) (insertTask row) (fun id s => s.Bare skip ids id) (Tidied skip ids) := by
  intro s hs
  refine ⟨fun id s' hok => ?_, fun e s' herr => ?_⟩
  · obtain ⟨rfl, rfl⟩ := insertTask_ok hok
    refine ⟨hs.addTask row, ?_, fun t ht => hs.intact.free ht⟩
    rw [Store.ids, Store.addTask_tasks, List.map_append]
    exact List.mem_append_right _ (List.mem_singleton_self _)
  · obtain rfl := insertTask_error herr
    refine ⟨hs, ?_⟩
    rw [insertTask] at herr
    split at herr
    · cases herr
      exact not_ofTags_taskKey
    · cases herr

private theorem tidy_updates {s : Store} (hs : s.Tidy skip ids) (unblocked : List Int) :
    (s.pauseUnblocked unblocked now).Tidy skip ids := hs.updateTasks fun _ => rfl

private theorem tidy_deleteEdgesTo {id : Int} :
    Txn.Triple (Store.Tidy skip ids) (deleteEdgesTo id) (fun _ => Store.Tidy skip ids) (Tidied skip ids) :=
  .of_ok (fun _ _ => rfl) fun _ hs => hs.of_same rfl rfl rfl rfl

private theorem tidy_unblock {unblocked : List Int} :
    Txn.Triple (Store.Tidy skip ids) (unblock unblocked) (fun _ => Store.Tidy skip ids) (Tidied skip ids) :=
  .of_ok (fun _ _ => rfl) fun _ hs => hs.updateTasks fun _ => rfl

private theorem tidy_resolveDependentsInner {id : Int} :
    Txn.Triple (Store.Tidy skip ids) (resolveDependentsInner id now) (fun _ => Store.Tidy skip ids)
    (Tidied skip ids) := by
  refine tidy_deleteEdgesTo.bind fun dependents => ?_
  split
  · exact .pure fun _ hs => hs
  · exact tidy_unblock.bind fun unblocked => (Txn.Triple.modify fun _ hs => tidy_updates hs unblocked).bind fun _ =>
      .pure fun _ hs => hs

end Statements

/-! ### Completion and failure -/

section Outcomes

variable {skip : Bool} {ids : List Int} {now : Int} {task : TaskRecord} {metrics : IoBudget}

private theorem tidy_createNextInstance {saved : List (String × String)} (interval : Int)
    (hn : (saved.map Prod.fst).Nodup) (hskip : skip = true → saved = []) :
    Txn.Triple (Store.Tidy skip ids) (createNextInstance task saved interval now) (fun _ => Store.Tidy skip ids)
      (Tidied skip ids) := by
  refine Txn.Triple.get_bind fun t => ?_
  split
  · exact .pure fun s hs => hs
  · refine tidy_insertTask.bind fun id => ?_
    refine (tidy_insertTags hn hskip).bind fun _ => ?_
    refine Txn.Triple.bind (Q := fun _ => Store.Tidy skip ids) (.map_get fun _ hs => hs) fun paused => ?_
    refine (Txn.Triple.modify fun s hs => ?_).bind fun _ => .pure fun _ hs => hs
    split
    · exact hs.updateTasks fun _ => rfl
    · exact hs

/-- After the `DELETE` of a completed row its tags are still there. -/
private theorem tidy_deleteCompleted (id : Int) {s : Store} (hs : s.Tidy skip ids) (hid : id ∈ ids) :
    ((s.tasks.countP fun r => r.id == id && !r.requeue) = 0 →
      (s.deleteTasks fun r => r.id == id && !r.requeue).Tidy skip ids) ∧
    (if skip then s.deleteTasks fun r => r.id == id && !r.requeue
      else (s.deleteTasks fun r => r.id == id && !r.requeue).deleteTaskTags id).Tidy skip ids := by
  constructor
  · intro hzero
    have hsame : s.tasks.filter (fun r => !(r.id == id && !r.requeue)) = s.tasks := by
      refine List.filter_eq_self.2 fun r hr => ?_
      have hnone := Bool.eq_false_of_not_eq_true (List.countP_eq_zero.1 hzero r hr)
      rw [hnone]
      rfl
    refine hs.of_same ?_ rfl rfl rfl
    rw [Store.ids, Store.deleteTasks_tasks, hsame]
    rfl
  · split
    · rename_i hskip
      refine hs.of_sublist (List.Sublist.refl _) (fun t ht hmem => ?_) rfl rfl
      refine mem_ids_deleteTasks hmem fun r _ hr => ?_
      have hne : r.id ≠ id := fun heq => hs.skipped hskip t ht (by rw [← hr, heq]; exact hid)
      simp [hne]
    · refine hs.of_sublist List.filter_sublist (fun t ht hmem => ?_) rfl rfl
      have hne : t.1 ≠ id := by simpa using (List.mem_filter.1 ht).2
      refine mem_ids_deleteTasks hmem fun r _ hr => ?_
      simp [hr, hne]

private theorem tidy_completeInner (hid : task.id ∈ ids) :
    Txn.Triple (Store.Tidy skip ids) (completeInner task metrics skip now) (fun _ => Store.Tidy skip ids)
    (Tidied skip ids) := by
  refine tidy_insertHistory.bind fun _ => ?_
  refine Txn.Triple.bind (Q := fun saved s =>
    s.Tidy skip ids ∧ (saved.map Prod.fst).Nodup ∧ (skip = true → saved = []))
    (.map_get fun s hs => ⟨hs, hs.intact.tagsOf_nodup task.id, fun hskip => ?_⟩) fun saved => ?_
  · refine List.eq_nil_iff_forall_not_mem.2 fun tag htag => ?_
    exact hs.skipped hskip _ (mem_tagsOf.1 htag) hid
  · refine Txn.Triple.bind (Q := fun deleted s => ((saved.map Prod.fst).Nodup ∧ (skip = true → saved = [])) ∧
        (deleted = 0 → s.Tidy skip ids) ∧ (if skip then s else s.deleteTaskTags task.id).Tidy skip ids)
      (.of_ok (fun _ _ => rfl) fun s hs => ⟨hs.2, tidy_deleteCompleted task.id hs.1 hid⟩) fun deleted => ?_
    by_cases hzero : deleted = 0
    · rw [if_pos (beq_iff_eq.2 hzero)]
      exact (Txn.Triple.modify fun s hs => (hs.2.1 hzero).resetRequeued task.id).bind fun _ => .pure fun _ hs => hs
    · rw [if_neg fun h => hzero (beq_iff_eq.1 h)]
      refine Txn.Triple.bind (Q := fun _ s =>
        ((saved.map Prod.fst).Nodup ∧ (skip = true → saved = [])) ∧ Store.Tidy skip ids s)
        (.modify fun s hs => ⟨hs.1, hs.2.2⟩) fun _ => ?_
      split
      · exact .pure fun _ hs => hs.2
      · intro s hs
        exact tidy_createNextInstance _ hs.1.1 hs.1.2 s hs.2

theorem tidy_completeAndResolve {item : TaskRecord × IoBudget} (hid : item.1.id ∈ ids) :
    Txn.Triple (Store.Tidy skip ids) (completeAndResolve skip now item) (fun _ => Store.Tidy skip ids)
    (Tidied skip ids) :=
  (tidy_completeInner hid).bind fun _ => tidy_resolveDependentsInner.bind fun _ => .pure fun _ hs => hs

/-- Rows have been deleted, and their tags have not. -/
private structure Store.Untied (skip : Bool) (ids deleted : List Int) (s : Store) : Prop where
  tasks : ∀ t ∈ s.taskTags, t.1 ∈ s.ids ∨ t.1 ∈ deleted
  history : s.HistoryTagsOwned
  keys : (s.taskTags.map fun t => (t.1, t.2.1)).Nodup
  skipped : skip = true → ∀ t ∈ s.taskTags, t.1 ∉ ids
  subset : ∀ id ∈ deleted, id ∈ ids

private theorem untied_deleteTasks {s : Store} (hs : s.Tidy skip ids) {p : TaskRow → Bool} {deleted : List Int}
    (hdel : ∀ r ∈ s.tasks, p r = true → r.id ∈ deleted) (hsub : ∀ id ∈ deleted, id ∈ ids) :
    (s.deleteTasks p).Untied skip ids deleted where
  tasks t ht := by
    obtain ⟨r, hr, hid⟩ := List.mem_map.1 (hs.intact.tasks t ht)
    cases hp : p r with
    | true => exact .inr (hid ▸ hdel r hr hp)
    | false => exact .inl (List.mem_map.2 ⟨r, List.mem_filter.2 ⟨hr, by rw [hp]; rfl⟩, hid⟩)
  history := hs.intact.history
  keys := hs.intact.keys
  skipped := hs.skipped
  subset := hsub

/-- The tags of the deleted rows are deleted, or there are none. -/
private theorem untied_deleteTags {s : Store} {deleted : List Int} (h : s.Untied skip ids deleted) {c : Bool}
    (hc : c = true → skip = true ∨ deleted = []) :
    (if c then s else { s with taskTags := s.taskTags.filter fun t => !deleted.contains t.1 }).Tidy skip ids := by
  split
  · rename_i hcond
    refine ⟨⟨fun t ht => ?_, h.history, h.keys⟩, h.skipped⟩
    rcases h.tasks t ht with hmem | hmem
    · exact hmem
    · rcases hc hcond with hskip | hnil
      · exact absurd (h.subset _ hmem) (h.skipped hskip t ht)
      · rw [hnil] at hmem
        cases hmem
  · refine ⟨⟨fun t ht => ?_, h.history, h.keys.sublist (List.filter_sublist.map _)⟩, fun hskip t ht => ?_⟩
    · obtain ⟨ht, hnot⟩ := List.mem_filter.1 ht
      rcases h.tasks t ht with hmem | hmem
      · exact hmem
      · simp [hmem] at hnot
    · exact h.skipped hskip t (List.mem_filter.1 ht).1

private theorem untied_resets {deleted : List Int} (resets : List Int) {s : Store} (h : s.Untied skip ids deleted) :
    (resets.foldl Store.resetRequeued s).Untied skip ids deleted := by
  induction resets generalizing s with
  | nil => exact h
  | cons id resets ih =>
    have hids : (s.resetRequeued id).ids = s.ids := s.ids_updateTasks _ fun _ => rfl
    refine ih ⟨?_, h.history, h.keys, h.skipped, h.subset⟩
    rw [hids]
    exact h.tasks

private theorem tidy_completeBatchFast {items : List (TaskRecord × IoBudget)} (hids : items.map (·.1.id) = ids) :
    Txn.Triple (Store.Tidy skip ids) (completeBatchFast skip now items) (fun _ => Store.Tidy skip ids)
    (Tidied skip ids) := by
  subst hids
  refine (Txn.Triple.mapList fun item _ => tidy_insertHistory).bind fun _ => ?_
  refine Txn.Triple.bind (Q := fun deleted s => s.Untied skip (items.map (·.1.id)) deleted)
    (.of_ok (fun _ _ => rfl) fun s hs => ?_) fun deleted => ?_
  · refine untied_deleteTasks hs (fun r hr hp => List.mem_map.2 ⟨r, List.mem_filter.2 ⟨hr, hp⟩, rfl⟩) fun id hid => ?_
    obtain ⟨r, hr, rfl⟩ := List.mem_map.1 hid
    have hsel := (List.mem_filter.1 hr).2
    rw [Bool.and_eq_true] at hsel
    exact List.contains_iff_mem.1 hsel.1
  · refine Txn.Triple.bind (Q := fun _ s => s.Untied skip (items.map (·.1.id)) deleted)
      (.modify fun s hs => untied_resets _ hs) fun _ => ?_
    refine Txn.Triple.bind (Q := fun _ => Store.Tidy skip (items.map (·.1.id)))
      (.modify fun s hs => untied_deleteTags hs fun hc => ?_) fun _ => ?_
    · rw [Bool.or_eq_true, List.isEmpty_iff] at hc
      exact hc
    · have hedges : Txn.Triple (Store.Tidy skip (items.map (·.1.id))) (deleteEdgesToAll (items.map (·.1.id)))
          (fun _ => Store.Tidy skip (items.map (·.1.id))) (Tidied skip (items.map (·.1.id))) := by
        refine .of_ok (fun _ _ => rfl) fun s hs => ?_
        exact Store.Tidy.of_same hs rfl rfl rfl rfl
      refine hedges.bind fun dependents => ?_
      split
      · exact .pure fun _ hs => hs
      · exact tidy_unblock.bind fun unblocked =>
            (Txn.Triple.modify fun _ hs => tidy_updates hs unblocked).bind fun _ =>
          .pure fun _ hs => hs

private theorem tidy_failInner {error : String} {retryable : Bool} {maxRetries : Int} {backoff : FailBackoff} :
    Txn.Triple (Store.Tidy skip ids) (failInner task error retryable maxRetries metrics backoff now)
      (fun _ => Store.Tidy skip ids) (Tidied skip ids) := by
  unfold failInner
  split
  · exact .modify fun s hs => hs.updateTasks fun _ => rfl
  · exact tidy_insertHistory.bind fun _ => .modify fun s hs => hs.delete task.id

/-- What `fail_batch` does in its transaction, if there are several items. -/
def failBatchBody (skipTags : Bool) (items : List FailureItem) (now : Int) : Sql Unit := do
  let _ ← Txn.mapList (insertFailed skipTags now) items
  Txn.modify fun s => s.deleteTasks fun r => (items.map (·.task.id)).contains r.id
  Txn.modify fun s =>
    if skipTags then s else { s with taskTags := s.taskTags.filter fun t => !(items.map (·.task.id)).contains t.1 }

theorem failBatchTx_several {items : List FailureItem} (h : 2 ≤ items.length) (now : Int) :
    failBatchTx items now = transaction fun s => failBatchBody (!s.hasTags) items now s := by
  match items, h with
  | first :: second :: rest, _ => rfl

private theorem tidy_failBatch {items : List FailureItem} (hids : items.map (·.task.id) = ids) :
    Txn.Triple (Store.Tidy skip ids) (failBatchBody skip items now) (fun _ => Store.Tidy skip ids)
    (Tidied skip ids) := by
  subst hids
  refine (Txn.Triple.mapList fun item _ => tidy_insertHistory).bind fun _ => ?_
  refine Txn.Triple.bind (Q := fun _ s => s.Untied skip (items.map (·.task.id)) (items.map (·.task.id)))
    (.modify fun s hs => untied_deleteTasks hs (fun r _ hp => List.contains_iff_mem.1 hp) fun _ h => h) fun _ => ?_
  exact .modify fun s hs => untied_deleteTags hs fun hc => .inl hc

end Outcomes

/-! ### Cancellation, expiry and cascades -/

section Removals

variable {skip : Bool} {ids : List Int} {now : Int}

/-- The history row is written and the row is deleted with its edges and its tags. -/
private theorem tidy_remove {s : Store} (hs : s.Tidy skip ids) (id : Int) :
    (((s.deleteEdgesFrom id).deleteTaskTags id).deleteTasks (·.id == id)).Tidy skip ids :=
  (hs.deleteEdgesFrom id).delete id

private theorem tidy_cancelInner {task : TaskRecord} :
    Txn.Triple (Store.Tidy skip ids) (cancelInner task now) (fun _ => Store.Tidy skip ids) (Tidied skip ids) :=
  tidy_insertHistory.bind fun _ => .modify fun _ hs => tidy_remove hs task.id

private theorem tidy_expireRow (row : TaskRow) :
    Txn.Triple (Store.Tidy skip ids) (expireRow row now) (fun _ => Store.Tidy skip ids) (Tidied skip ids) :=
  .get_bind fun _ => tidy_insertHistory.bind fun _ => (Txn.Triple.modify fun _ hs => hs.delete row.id).bind fun _ =>
    .pure fun _ hs => hs

private theorem tidy_expireWithChildren (row : TaskRow) :
    Txn.Triple (Store.Tidy skip ids) (expireWithChildren now row) (fun _ => Store.Tidy skip ids)
    (Tidied skip ids) := by
  refine .get_bind fun _ => tidy_insertHistory.bind fun _ => ?_
  refine Txn.Triple.bind (Q := fun _ => Store.Tidy skip ids) (.map_get fun _ hs => hs) fun children => ?_
  refine (Txn.Triple.mapList fun child _ => tidy_expireRow child).bind fun _ => ?_
  exact (Txn.Triple.modify fun _ hs => tidy_remove hs row.id).bind fun _ => .pure fun _ hs => hs

private theorem tidy_releaseDependent {id : Int} :
    Txn.Triple (Store.Tidy skip ids) (releaseDependent id now) (fun _ => Store.Tidy skip ids) (Tidied skip ids) := by
  intro s hs
  rw [releaseDependent]
  split
  · exact Txn.Triple.pure (fun _ h => h) s hs
  · split
    · have hpending : (s.updateTasks (fun r => r.id == id && r.status == .blocked) fun r =>
        { r with status := .pending }).Tidy skip ids := hs.updateTasks fun _ => rfl
      exact Txn.Triple.ends_ok (hpending.updateTasks fun _ => rfl)
    · exact Txn.Triple.pure (fun _ h => h) s hs

private theorem tidy_failDependentsInner {fuel : Nat} {id : Int} :
    Txn.Triple (Store.Tidy skip ids) (failDependentsInner now fuel id) (fun _ => Store.Tidy skip ids)
    (Tidied skip ids) := by
  induction fuel generalizing id with
  | zero => exact .pure fun _ hs => hs
  | succ fuel ih =>
    refine tidy_deleteEdgesTo.bind fun dependents => ?_
    refine (Txn.Triple.mapList fun depId _ => ?_).bind fun _ => .pure fun _ hs => hs
    refine Txn.Triple.bind (Q := fun _ => Store.Tidy skip ids) (.map_get fun _ hs => hs) fun row => ?_
    have hremove : ∀ task : TaskRow, Txn.Triple (Store.Tidy skip ids) (dependencyFail id task now)
        (fun _ => Store.Tidy skip ids) (Tidied skip ids) := fun task =>
      tidy_insertHistory.bind fun _ => .modify fun _ hs => tidy_remove hs task.id
    match row with
    | none => exact .pure fun _ hs => hs
    | some task =>
      dsimp only
      split
      · exact (hremove task).bind fun _ => ih.bind fun _ => .pure fun _ hs => hs
      · exact (hremove task).bind fun _ => ih.bind fun _ => .pure fun _ hs => hs
      · exact tidy_releaseDependent.bind fun _ => .pure fun _ hs => hs

/-- The children that `cancel_children` deletes have no tags. -/
private theorem tidy_cancelChildren {parent : Int} {read : List TaskRow} :
    Txn.Triple (fun s => s.Tidy skip ids ∧ ∀ r ∈ s.cancellableChildren parent, ∀ t ∈ s.taskTags, t.1 ≠ r.id)
      (transaction do
        let _ ← Txn.mapList (fun row => insertHistory (rowToTaskRecord row) .cancelled {} none none false now) read
        Txn.modify fun s => s.deleteTasks fun r => r.parentId == some parent && r.pendingOrPaused)
      (fun _ => Store.Tidy skip ids) (Tidied skip ids) := by
  refine Txn.Triple.atomically (E := Tidied skip ids) ?_ fun s e s' hs he => ⟨hs.1.of_same rfl rfl rfl rfl, he.2⟩
  refine (Txn.Triple.mapList fun row _ => tidy_insertHistory_with fun tasks tags =>
    ∀ r ∈ tasks.filter (fun r => r.parentId == some parent && r.pendingOrPaused), ∀ t ∈ tags, t.1 ≠ r.id).bind
      fun _ => ?_
  refine .modify fun s hs => hs.1.of_sublist (List.Sublist.refl _) (fun t ht hid => ?_) rfl rfl
  refine mem_ids_deleteTasks hid fun r hr heq => ?_
  cases hp : r.parentId == some parent && r.pendingOrPaused with
  | false => rfl
  | true => exact absurd heq.symm (hs.2 r (List.mem_filter.2 ⟨hr, hp⟩) t ht)

end Removals

/-! ### Submission -/

section Submission

variable {sub : TaskSubmission} {now : Int}

private theorem validateTags_error {tags : Tags} {e : StoreError} (h : validateTags tags = .error e) :
    ∃ msg, e = .invalidTag msg := by
  rw [validateTags] at h
  split at h
  · cases h
    exact ⟨_, rfl⟩
  · split at h
    · cases h
    · split at h
      · cases h
        exact ⟨_, rfl⟩
      · cases h
        exact ⟨_, rfl⟩

private theorem not_ofTags_invalidTag {msg : String} : ¬ (StoreError.invalidTag msg).ofTags := by
  rintro (h | h)
  · cases h
  · cases h

private theorem not_ofTags_validate {e : StoreError} (h : sub.validate = .error e) : ¬ e.ofTags := by
  rw [TaskSubmission.validate] at h
  split at h
  · cases h
    rintro (h | h)
    · cases h
    · cases h
  · split at h
    · rename_i hv
      cases h
      obtain ⟨msg, rfl⟩ := validateTags_error hv
      exact not_ofTags_invalidTag
    · split at h
      · cases h
        rintro (h | h)
        · exact absurd h (by decide)
        · exact absurd h (by decide)
      · cases h

private theorem not_ofTags_activeDeps {s : Store} {policy : DependencyFailurePolicy} {deps : List Int}
    {e : StoreError} (h : s.activeDeps policy deps = .error e) : ¬ e.ofTags := by
  rcases activeDeps_error h with rfl | ⟨dep, rfl⟩ | ⟨dep, rfl⟩
  · rintro (h | h)
    · exact absurd h (by decide)
    · exact absurd h (by decide)
  · rintro (h | h)
    · cases h
    · cases h
  · rintro (h | h)
    · cases h
    · cases h

private theorem not_ofTags_seedsError {active : List Int} : ¬ (seedsError active).ofTags := by
  rw [seedsError]
  split
  · rintro (h | h)
    · exact absurd h (by decide)
    · exact absurd h (by decide)
  · rintro (h | h)
    · cases h
    · cases h

private theorem not_ofTags_edgesError {active : List Int} : ¬ (edgesError active).ofTags := by
  rw [edgesError]
  split
  · rintro (h | h)
    · exact absurd h (by decide)
    · exact absurd h (by decide)
  · rintro (h | h)
    · exact absurd h (by decide)
    · exact absurd h (by decide)

private theorem tidy_attachDependencies {taskId : Int} {deps : List Int} {policy : DependencyFailurePolicy} :
    Txn.Triple (Store.Tidy false []) (attachDependencies taskId deps policy) (fun _ => Store.Tidy false [])
      (Tidied false []) := by
  intro s hs
  rw [attachDependencies_apply]
  have hedges : ∀ edges, (s.addEdges edges).Tidy false [] := fun edges => hs.of_same rfl rfl rfl rfl
  cases hact : s.activeDeps policy deps with
  | error e => exact Txn.Triple.ends_error ⟨hs, not_ofTags_activeDeps hact⟩
  | ok active =>
    dsimp only
    split
    · exact Txn.Triple.pure (fun _ h => h) s hs
    · split
      · split
        · exact Txn.Triple.ends_error ⟨hedges _, not_ofTags_seedsError⟩
        · exact Txn.Triple.ends_ok ((hedges _).updateTasks fun _ => rfl)
      · exact Txn.Triple.ends_error ⟨hs, not_ofTags_edgesError⟩

private theorem tidy_newTags {id : Int} {tags : Tags} :
    Txn.Triple (Store.Bare false [] id) (insertTags id tags.entries) (fun _ => Store.Tidy false [])
    (Tidied false []) :=
  tidy_insertTags tags.nodup nofun

private theorem tidy_finishInsert {taskId : Int} :
    Txn.Triple (Store.Bare false [] taskId) (finishInsert sub taskId now) (fun _ => Store.Tidy false [])
    (Tidied false []) := by
  refine Txn.Triple.bind (Q := fun _ => Store.Bare false [] taskId) (.modify fun s hs => ⟨?_, hs.mem, hs.bare⟩)
    fun _ => ?_
  · exact Store.Tidy.of_same hs.tidy rfl rfl rfl rfl
  · refine Txn.Triple.bind (Q := fun _ => Store.Tidy false []) ?_ fun _ => ?_
    · refine Txn.Triple.bind (Q := fun _ => Store.Bare false [] taskId) (.modify fun s hs => ⟨?_, hs.mem, hs.bare⟩)
        fun _ => ?_
      · exact Store.Tidy.of_same hs.tidy rfl rfl rfl rfl
      · exact tidy_newTags
    · refine tidy_attachDependencies.bind fun _ => ?_
      refine Txn.Triple.bind (Q := fun _ => Store.Tidy false []) (.map_get fun _ hs => hs) fun paused => ?_
      refine (Txn.Triple.modify fun s hs => ?_).bind fun _ => .pure fun _ hs => hs
      split
      · exact hs.updateTasks fun _ => rfl
      · exact hs

private theorem tidy_skipExisting {key : String} {priority : Priority} {skipRequeue : Bool} :
    Txn.Triple (Store.Tidy false []) (skipExisting key priority skipRequeue) (fun _ => Store.Tidy false [])
    (Tidied false []) := by
  have hupdate : ∀ p f, (∀ r, (f r).id = r.id) →
      Txn.Triple (Store.Tidy false []) (updateByKey p f) (fun _ => Store.Tidy false []) (Tidied false []) :=
          fun p f hf =>
    .of_ok (fun _ _ => rfl) fun _ hs => hs.updateTasks hf
  refine Txn.Triple.bind (Q := fun _ => Store.Tidy false []) ?_ fun upgraded => ?_
  · exact hupdate _ _ fun _ => rfl
  cases upgraded with
  | some id => exact .pure fun _ hs => hs
  | none =>
    dsimp only
    split
    · exact .pure fun _ hs => hs
    · refine Txn.Triple.bind (Q := fun _ => Store.Tidy false []) ?_ fun requeued => ?_
      · exact hupdate _ _ fun _ => rfl
      · cases requeued with
        | some id => exact .pure fun _ hs => hs
        | none => exact .pure fun _ hs => hs

private theorem tidy_supersedeExisting {key : String} :
    Txn.Triple (Store.Tidy false []) (supersedeExisting sub key now) (fun _ => Store.Tidy false [])
    (Tidied false []) := by
  refine Txn.Triple.bind (Q := fun row s => s.Tidy false [] ∧ ∀ r, row = some r → r.id ∈ s.tasks.map (·.id))
    (.map_get fun s hs => ⟨hs, fun r hr => List.mem_map_of_mem (List.mem_of_find?_eq_some hr)⟩) fun row => ?_
  cases row with
  | none => exact .pure fun _ hs => hs.1
  | some existing =>
    refine Txn.Triple.bind (Q := fun _ s => s.Tidy false [] ∧ existing.id ∈ s.tasks.map (·.id)) ?_ fun _ => ?_
    · exact (tidy_insertHistory_with fun tasks _ => existing.id ∈ tasks.map (·.id)).conseq
        (fun s hs => ⟨hs.1, hs.2 existing rfl⟩) (fun _ _ hs => hs) fun _ _ he => he
    · have hinPlace : Txn.Triple (fun s : Store => s.Tidy false [] ∧ existing.id ∈ s.tasks.map (·.id))
          (supersedeInPlace sub existing.id now) (fun _ => Store.Tidy false []) (Tidied false []) := by
        refine Txn.Triple.bind (Q := fun _ s => s.Tidy false [] ∧ existing.id ∈ s.tasks.map (·.id))
          (.modify fun s hs => ?_) fun _ => ?_
        · have hids := s.ids_updateTasks (fun r => r.id == existing.id) (f := sub.supersedeRow s.nextInst now)
            fun _ => rfl
          refine ⟨Store.Tidy.of_same hs.1 hids rfl rfl rfl, ?_⟩
          show existing.id ∈ Store.ids (s.updateTasks _ _)
          rw [hids]
          exact hs.2
        · refine Txn.Triple.bind (Q := fun _ => Store.Bare false [] existing.id)
            (.modify fun s hs => ⟨?_, hs.2, fun t ht => ?_⟩)
            fun _ => tidy_newTags.bind fun _ => .pure fun _ hs => hs
          · exact hs.1.of_sublist List.filter_sublist (fun _ _ h => h) rfl rfl
          · simpa using (List.mem_filter.1 ht).2
      have hreplace : Txn.Triple (fun s : Store => s.Tidy false [] ∧ existing.id ∈ s.tasks.map (·.id))
          (supersedeReplace sub key existing.id now) (fun _ => Store.Tidy false []) (Tidied false []) := by
        refine Txn.Triple.bind (Q := fun _ => Store.Tidy false []) (.modify fun s hs => hs.1.delete existing.id)
          fun _ => ?_
        exact tidy_insertTask.bind fun id => tidy_newTags.bind fun _ => .pure fun _ hs => hs
      split
      · exact hinPlace
      · exact hinPlace
      · exact hinPlace
      · exact hreplace
      · exact hreplace

private theorem tidy_submitOne {sha256 : List UInt8 → String} {skipRequeue : Bool} :
    Txn.Triple (Store.Tidy false []) (submitOne sha256 sub skipRequeue now) (fun _ => Store.Tidy false [])
    (Tidied false []) := by
  intro s hs
  cases hv : sub.validate with
  | error e =>
    rw [submitOne_invalid hv]
    exact Txn.Triple.ends_error ⟨hs, not_ofTags_validate hv⟩
  | ok u =>
    cases hk : s.taskByKey (sub.effectiveKey sha256) with
    | none =>
      rw [submitOne_fresh hv hk]
      refine tidy_finishInsert _ ⟨hs.addTask _, ?_, fun t ht => hs.intact.free ht⟩
      rw [Store.ids, Store.addTask_tasks, List.map_append]
      exact List.mem_append_right _ (List.mem_singleton_self _)
    | some row =>
      rw [submitOne_duplicate hv hk]
      cases sub.onDuplicate with
      | reject => exact Txn.Triple.pure (fun _ h => h) s hs
      | supersede => exact tidy_supersedeExisting s hs
      | skip => exact tidy_skipExisting s hs

private theorem tidy_submitEach {sha256 : List UInt8 → String} {skipRequeue : Bool}
    (batch : List (TaskSubmission × Int)) {s : Store} (hs : s.Tidy false []) :
    (submitEach sha256 skipRequeue batch s).2.Tidy false [] ∧
      ∀ e ∈ (submitEach sha256 skipRequeue batch s).1.filterMap errorOf, ¬ e.ofTags := by
  induction batch generalizing s with
  | nil => exact ⟨hs, fun e he => absurd he List.not_mem_nil⟩
  | cons message batch ih =>
    obtain ⟨sub, now⟩ := message
    have hone : Txn.Triple (Store.Tidy false []) (submitOne sha256 sub skipRequeue now) _ _ := tidy_submitOne
    replace hone := hone s hs
    rw [submitEach]
    rcases hx : submitOne sha256 sub skipRequeue now s with ⟨e | outcome, s₁⟩
    · obtain ⟨hs₁, he⟩ := hone.2 e s₁ hx
      obtain ⟨hrest, herrors⟩ := ih hs₁
      refine ⟨hrest, fun e' he' => ?_⟩
      rcases List.mem_cons.1 he' with rfl | he'
      · exact he
      · exact herrors e' he'
    · exact ih (hone.1 outcome s₁ hx)

end Submission

/-! ### The steps of the store -/

section Steps

variable {sha256 : List UInt8 → String} {s : Store} {skip : Bool} {ids : List Int}

/-- The tag tables are intact after `x`, and it does not fail on them. -/
private def KeepsTags {α : Type} (P : Store → Prop) (x : Sql α) : Prop :=
  Txn.Triple P x (fun _ => Store.TagsIntact) fun e s => s.TagsIntact ∧ ¬ e.ofTags

private theorem keeps_tidy {α : Type} {x : Sql α}
    (hx : Txn.Triple (Store.Tidy skip ids) x (fun _ => Store.Tidy skip ids) (Tidied skip ids)) :
    KeepsTags (Store.Tidy skip ids) x :=
  hx.conseq (fun _ h => h) (fun _ _ h => h.intact) fun _ _ h => ⟨h.1.intact, h.2⟩

/-- The flag is read once, at the beginning of a transaction. -/
private theorem tidy_completeById {id : Int} {metrics : IoBudget} {skip : Bool} :
    Txn.Triple (Store.Tidy skip [id])
      (fun s => match s.taskById id with
        | none => (.ok (), s)
        | some row => (do let _ ← completeInner (rowToTaskRecord row) metrics skip now : Sql Unit) s)
      (fun _ => Store.Tidy skip [id]) (Tidied skip [id]) := by
  intro s hs
  dsimp only
  cases hrow : s.taskById id with
  | none => exact Txn.Triple.pure (fun _ h => h) s hs
  | some row =>
    have hid : row.id = id := by simpa using List.find?_some hrow
    have hinner : Txn.Triple (Store.Tidy skip [id]) (completeInner (rowToTaskRecord row) metrics skip now) _ _ :=
      tidy_completeInner (by simp [rowToTaskRecord, hid])
    exact hinner.bind_pure s hs

private theorem keeps_flag {α : Type} {x : Bool → Sql α} (hx : ∀ skip, Txn.Triple (Store.Tidy skip ids) (x skip)
    (fun _ => Store.Tidy skip ids) (Tidied skip ids)) :
    KeepsTags (fun s => s.TagsIntact ∧ s.FlagHolds ids) (transaction fun s => x (!s.hasTags) s) := by
  intro s hs
  have htidy : s.Tidy (!s.hasTags) ids := ⟨hs.1, fun hskip => hs.2 (by simpa using hskip)⟩
  exact keeps_tidy (tidy_transaction (hx (!s.hasTags))) s htidy

/-- What there is to say about a step once its transaction has been dealt with. -/
private theorem KeepsTags.step {α : Type} {P : Store → Prop} {x : Sql α} (hx : KeepsTags P x) (hs : P s) :
    (x s).2.TagsIntact ∧ ∀ e ∈ (errorOf (x s).1).toList, ¬ e.ofTags := by
  rcases h : x s with ⟨e | a, s'⟩
  · obtain ⟨hs', he⟩ := (hx s hs).2 e s' h
    refine ⟨hs', fun e' he' => ?_⟩
    rw [List.mem_singleton.1 he']
    exact he
  · exact ⟨(hx s hs).1 a s' h, fun _ he => absurd he List.not_mem_nil⟩

private theorem intact_of_quiet {s' : Store} (hs : s.TagsIntact) (hids : s'.ids = s.ids)
    (htags : s'.taskTags = s.taskTags) (hhistory : s'.taskHistory = s.taskHistory)
    (hhtags : s'.taskHistoryTags = s.taskHistoryTags) :
    s'.TagsIntact ∧ ∀ e ∈ ([] : List StoreError), ¬ e.ofTags :=
  ⟨(hs.tidy.of_same hids htags hhistory hhtags).intact, fun _ he => absurd he List.not_mem_nil⟩

private theorem pruneByAge_intact (hs : s.TagsIntact) {days now : Int} (h : s.YoungTags days now) :
    (s.pruneHistoryByAge days now).TagsIntact := by
  refine ⟨hs.tasks, fun t ht => ?_, hs.keys⟩
  obtain ⟨row, hrow, hid⟩ := List.mem_map.1 (hs.history t ht)
  refine List.mem_map.2 ⟨row, List.mem_filter.2 ⟨hrow, ?_⟩, hid⟩
  simpa using h t ht row hrow hid

private theorem pruneByCount_intact (hs : s.TagsIntact) {keep : Int} (h : s.LateTags keep) :
    (s.pruneHistoryByCount keep).TagsIntact := by
  refine ⟨hs.tasks, fun t ht => ?_, hs.keys⟩
  obtain ⟨row, hrow, hid⟩ := List.mem_map.1 (hs.history t ht)
  refine List.mem_map.2 ⟨row, List.mem_filter.2 ⟨hrow, ?_⟩, hid⟩
  have hlate := h t ht
  rw [← hid] at hlate
  exact List.contains_iff_mem.2 hlate

private theorem maybePrune_intact (hs : s.TagsIntact) {now : Int} (h : (Action.maybePrune now).SparesTags s) :
    (s.maybePrune now).TagsIntact := by
  unfold Action.SparesTags at h
  have hcount : ({ s with completionCount := s.completionCount + 1 } : Store).TagsIntact :=
    ⟨hs.tasks, hs.history, hs.keys⟩
  rw [Store.maybePrune]
  split
  · exact hs
  · rename_i policy hpolicy
    rw [hpolicy] at h
    dsimp only at h ⊢
    split
    · exact hcount
    · rename_i hdue
      rw [Bool.or_eq_true, not_or] at hdue
      have hnow := h (Bool.eq_false_of_not_eq_true hdue.1) (by simpa using hdue.2)
      cases policy with
      | maxCount n => exact pruneByCount_intact hcount hnow
      | maxAgeDays days => exact pruneByAge_intact hcount hnow

/-- A step that deletes no row without its tags keeps the tag tables intact, and fails on neither of them. -/
theorem Action.tags_exec (a : Action) (hs : s.TagsIntact) (ha : a.SparesTags s) :
    (a.exec sha256 s).TagsIntact ∧ ∀ e ∈ a.errors sha256 s, ¬ e.ofTags := by
  have hnone : ∀ e ∈ ([] : List StoreError), ¬ e.ofTags := fun e he => absurd he List.not_mem_nil
  cases a with
  | update u =>
    obtain ⟨p, f, hf, _, he⟩ := u.exec_eq s
    rw [Action.exec, he]
    exact intact_of_quiet hs (s.ids_updateTasks p fun r => (hf r).1) rfl rfl rfl
  | submitDirect sub now =>
    have hone : ∀ skipRequeue, Txn.Triple (Store.Tidy false []) (submitOne sha256 sub skipRequeue now) _ _ :=
      fun _ => tidy_submitOne
    exact (keeps_tidy (tidy_transaction fun t => hone (!t.hasRunning) t)).step hs.tidy
  | processSubmitBatch skipRequeue batch =>
    have heach : Store.Tidy false [] (submitEach sha256 skipRequeue batch s).2 ∧ _ := tidy_submitEach batch hs.tidy
    obtain ⟨htidy, herrors⟩ := heach
    exact ⟨htidy.intact, herrors⟩
  | submitChunk skipRequeue last now chunk =>
    refine (keeps_tidy (tidy_transaction (Txn.Triple.mapList fun item _ => ?_))).step hs.tidy
    unfold submitItem
    split
    · exact tidy_submitOne
    · exact .pure fun _ h => h
  | claimTask id now => exact intact_of_quiet hs (s.ids_updateTasks _ fun _ => rfl) rfl rfl rfl
  | popById id now => exact intact_of_quiet hs (s.ids_updateTasks _ fun _ => rfl) rfl rfl rfl
  | popNextBatch limit aging now =>
    rw [Action.exec, popNextBatch.eq_def]
    split
    · exact ⟨hs, hnone⟩
    · exact intact_of_quiet hs (s.ids_updateTasks _ fun _ => rfl) rfl rfl rfl
    · exact intact_of_quiet hs (s.ids_updateTasks _ fun _ => rfl) rfl rfl rfl
  | complete id metrics now =>
    exact (keeps_flag fun skip => tidy_completeById).step ⟨hs, ha⟩
  | completeWithRecord task metrics now =>
    exact (keeps_flag fun skip => tidy_completeInner (List.mem_singleton_self _)).step ⟨hs, ha⟩
  | completeBatch items now =>
    obtain _ | ⟨⟨task, metrics⟩, _ | ⟨second, rest⟩⟩ := items
    · exact ⟨hs, hnone⟩
    · have hone : KeepsTags (fun s => s.TagsIntact ∧ s.FlagHolds [task.id]) (completeAndResolveTx task metrics now) :=
        keeps_flag (x := fun skip => completeAndResolve skip now (task, metrics)) fun skip =>
          tidy_completeAndResolve (List.mem_singleton_self _)
      have hbatch : KeepsTags (fun s => s.TagsIntact ∧ s.FlagHolds [task.id])
          (completeBatchTx [(task, metrics)] now) :=
        hone.bind_pure
      exact hbatch.step ⟨hs, ha⟩
    · have hbatch : KeepsTags (fun s => s.TagsIntact ∧ s.FlagHolds (((task, metrics) :: second :: rest).map (·.1.id)))
          (completeBatchTx ((task, metrics) :: second :: rest) now) := by
        rw [completeBatchTx.eq_def]
        dsimp only
        split
        · exact keeps_flag fun skip => Txn.Triple.mapList fun item hitem =>
            tidy_completeAndResolve (List.mem_map_of_mem (f := fun item : TaskRecord × IoBudget => item.1.id) hitem)
        · exact (keeps_flag fun skip => tidy_completeBatchFast rfl).bind_pure
      exact hbatch.step ⟨hs, ha⟩
  | resolveDependents id now => exact (keeps_tidy (tidy_transaction tidy_resolveDependentsInner)).step hs.tidy
  | fail id error retryable maxRetries metrics backoff now =>
    refine (keeps_tidy (tidy_transaction fun t ht => ?_)).step hs.tidy
    cases t.taskById id with
    | none => exact Txn.Triple.pure (fun _ h => h) t ht
    | some row => exact tidy_failInner t ht
  | failWithRecord task error retryable maxRetries metrics backoff now =>
    exact (keeps_tidy (tidy_transaction tidy_failInner)).step hs.tidy
  | failBatch items now =>
    obtain _ | ⟨first, _ | ⟨second, rest⟩⟩ := items
    · exact ⟨hs, hnone⟩
    · exact (keeps_tidy (tidy_transaction tidy_failInner)).step hs.tidy
    · rw [Action.exec, Action.errors, failBatchTx_several (by simp)]
      exact (keeps_flag fun skip => tidy_failBatch rfl).step ⟨hs, ha (by simp)⟩
  | failDependents id now =>
    exact (keeps_tidy (tidy_transaction fun t ht => tidy_failDependentsInner t ht)).step hs.tidy
  | cancelToHistory id now =>
    refine (keeps_tidy (tidy_transaction fun t ht => ?_)).step hs.tidy
    cases t.taskById id with
    | none => exact Txn.Triple.pure (fun _ h => h) t ht
    | some row => exact tidy_cancelInner.bind_pure t ht
  | cancelToHistoryWithRecord task now => exact (keeps_tidy (tidy_transaction tidy_cancelInner)).step hs.tidy
  | cancelChildren parent read now =>
    have hx : KeepsTags (fun s => s.Tidy false [] ∧ ∀ r ∈ s.cancellableChildren parent, ∀ t ∈ s.taskTags, t.1 ≠ r.id)
        (cancelChildrenTx parent read now) := by
      unfold cancelChildrenTx
      split
      · exact .pure fun _ h => h.1.intact
      · exact tidy_cancelChildren.conseq (fun _ h => h) (fun _ _ h => h.intact) fun _ _ h => ⟨h.1.intact, h.2⟩
    exact hx.step ⟨hs.tidy, ha⟩
  | expireTasks now =>
    refine (keeps_tidy (tidy_transaction ?_)).step hs.tidy
    refine Txn.Triple.bind (Q := fun _ => Store.Tidy false []) (.map_get fun _ h => h) fun rows => ?_
    exact (Txn.Triple.mapList fun row _ => tidy_expireWithChildren row).bind_pure
  | expireSingle id now =>
    refine (keeps_tidy (tidy_transaction fun t ht => ?_)).step hs.tidy
    cases t.tasks.find? fun r => r.id == id && r.past now && r.pendingOrPaused with
    | none => exact Txn.Triple.pure (fun _ h => h) t ht
    | some row => exact (tidy_expireRow row).bind_pure t ht
  | pauseGroupState group resumeAt now =>
    rw [Action.exec, Store.pauseGroupState]
    split
    · exact ⟨hs, hnone⟩
    · exact intact_of_quiet hs rfl rfl rfl rfl
  | resumeGroupState group => exact intact_of_quiet hs rfl rfl rfl rfl
  | delete id => exact ⟨(hs.tidy.delete id).intact, hnone⟩
  | deleteHistory historyId =>
    refine ⟨⟨hs.tasks, fun t ht => ?_, hs.keys⟩, hnone⟩
    obtain ⟨ht, hne⟩ := List.mem_filter.1 ht
    obtain ⟨row, hrow, hid⟩ := List.mem_map.1 (hs.history t ht)
    exact List.mem_map.2 ⟨row, List.mem_filter.2 ⟨hrow, by rw [hid]; exact hne⟩, hid⟩
  | pruneHistoryByAge days now => exact ⟨pruneByAge_intact hs ha, hnone⟩
  | pruneHistoryByCount keep => exact ⟨pruneByCount_intact hs ha, hnone⟩
  | maybePrune now => exact ⟨maybePrune_intact hs ha, hnone⟩
  | recoverRunning now =>
    have hreset : s.resetRunning.Tidy false [] := hs.tidy.updateTasks fun _ => rfl
    have hsettle : (s.resetRunning.settlePauses now).Tidy false [] := hreset.updateTasks fun _ => rfl
    have hclean : (s.resetRunning.settlePauses now).deleteDanglingEdges.Tidy false [] :=
      hsettle.of_same rfl rfl rfl rfl
    refine ⟨?_, hnone⟩
    rw [Action.exec, Store.recoverRunning]
    split
    · exact hclean.intact
    · have hunblock : (s.resetRunning.settlePauses now).deleteDanglingEdges.unblockEdgeless.Tidy false [] :=
        hclean.updateTasks fun _ => rfl
      exact hunblock.intact

end Steps

/-! ### New tasks -/

private theorem attachDependencies_taskTags {taskId : Int} {deps : List Int}
    {policy : DependencyFailurePolicy} {s s' : Store} (h : attachDependencies taskId deps policy s = (.ok (), s')) :
    s'.taskTags = s.taskTags := by
  rw [attachDependencies_apply] at h
  split at h
  · cases h
  · split at h
    · cases h
      rfl
    · split at h
      · split at h
        · cases h
        · cases h
          rfl
      · cases h

/-- A new task has the tags of its submission. -/
theorem submitOne_tags {sha256 : List UInt8 → String} {sub : TaskSubmission} {skipRequeue : Bool}
    {now : Int} {s s' : Store} {outcome : SubmitOutcome} (hs : s.TagsIntact)
    (hk : s.taskByKey (sub.effectiveKey sha256) = none)
    (h : submitOne sha256 sub skipRequeue now s = (.ok outcome, s')) :
    s'.tagsOf s.nextTaskId = sub.tags.entries := by
  cases hv : sub.validate with
  | error e =>
    rw [submitOne_invalid hv] at h
    cases h
  | ok u =>
    rw [submitOne_fresh hv hk] at h
    obtain ⟨tags, hierarchy, hasTags, ⟨_, he⟩ | ⟨htags, ⟨_, _, _, he⟩ | ⟨s₂, hatt, he⟩⟩⟩ :=
      finishInsert_cases sub s.nextTaskId now (s.addTask (sub.newRow (sub.effectiveKey sha256) now))
    · rw [he] at h
      cases h
    · rw [he] at h
      cases h
    · rw [he] at h
      cases h
      have hfree : insertTags s.nextTaskId sub.tags.entries
          ((s.addTask (sub.newRow (sub.effectiveKey sha256) now)).tagged s.taskTags hierarchy hasTags) = _ :=
        insertTags_free sub.tags.nodup fun ⟨t, ht, hid, _⟩ => hs.free ht hid
      have heq : tags = s.taskTags ++ sub.tags.entries.map fun tag => (s.nextTaskId, tag) := by
        have hboth := htags.symm.trans hfree
        exact congrArg (fun x => Store.taskTags x.2) hboth
      have hpause : (s₂.pauseNew s.nextTaskId sub.groupKey now).taskTags = s₂.taskTags := by
        rw [Store.pauseNew]
        split
        · rfl
        · rfl
      rw [Store.tagsOf, hpause, attachDependencies_taskTags hatt, Store.tagged_taskTags, heq, List.filter_append,
        List.map_append]
      have hold : (s.taskTags.filter fun t => t.1 == s.nextTaskId).map Prod.snd = [] := hs.tagsOf_nextTaskId
      rw [hold, List.nil_append, List.filter_eq_self.2, List.map_map]
      · simp [Function.comp_def]
      · intro t ht
        obtain ⟨tag, _, rfl⟩ := List.mem_map.1 ht
        simp

/-! ### Runs -/

/-- The tag tables are intact, a new task has its own tags, and no step among those in question fails on a tag
table. -/
structure Store.TagsSafe (sha256 : List UInt8 → String) (among : Action → Prop) (s : Store) : Prop where
  intact : s.TagsIntact
  own : ∀ (sub : TaskSubmission) (skipRequeue : Bool) (now : Int) (outcome : SubmitOutcome) (s' : Store),
    s.taskByKey (sub.effectiveKey sha256) = none → submitOne sha256 sub skipRequeue now s = (.ok outcome, s') →
      s'.tagsOf s.nextTaskId = sub.tags.entries
  never : ∀ a, among a → ∀ e ∈ a.errors sha256 s, ¬ e.ofTags

/-- In every run whose steps delete no row without its tags. -/
theorem tags_safe (sha256 : List UInt8 → String) (s : Store)
    (h : ReachableVia sha256 (fun s a => a.SparesTags s) s) : s.TagsSafe sha256 fun a => a.SparesTags s := by
  have hintact : s.TagsIntact := by
    refine h.invariant (fun s hs => ?_) fun s a hs ha => (a.tags_exec hs ha).1
    refine ⟨fun t ht => ?_, fun t ht => ?_, ?_⟩
    · rw [hs.taskTags] at ht
      cases ht
    · rw [hs.taskHistoryTags] at ht
      cases ht
    · rw [hs.taskTags]
      exact List.nodup_nil
  exact ⟨hintact, fun sub _ _ _ _ hk hok => submitOne_tags hintact hk hok, fun a ha => (a.tags_exec hintact ha).2⟩

private def ownedA : TaskSubmission := { TaskSubmission.new "a" with tags := ⟨[("owner", "ops")], by decide⟩ }

/-- A task with a tag is completed. -/
private def taggedRun : List Action :=
  [.submitDirect ownedA 0, .popNextBatch 1 none 0, .completeWithRecord dispatchedA {} 1, .submitDirect (.new "b") 2]

theorem taggedRun_safe : (execAll sampleSha256 openMemory taggedRun).taskHistoryTags = [(1, "owner", "ops")] ∧
    (execAll sampleSha256 openMemory taggedRun).TagsSafe sampleSha256
      fun a => a.SparesTags (execAll sampleSha256 openMemory taggedRun) := by
  refine ⟨by decide +kernel, tags_safe sampleSha256 _ (Runs.list (.start openMemory_fresh) taggedRun ?_)⟩
  exact ⟨trivial, trivial, fun hflag => absurd hflag (by decide +kernel), trivial, trivial⟩

/-- A parent with a child that has a tag. -/
private def tagFamily : List Action :=
  [.submitDirect (.new "b") 0, .submitDirect { ownedA with parentId := some 1 } 0]

/-- The children are cancelled. -/
private def orphanRun : List Action :=
  tagFamily ++ [.cancelChildren 1 ((execAll sampleSha256 openMemory tagFamily).cancellableChildren 1) 1]

/-- `cancel_children` leaves the tags of the child behind. -/
theorem orphaned_tags : ¬ ∀ (sha256 : List UInt8 → String) (s : Store), Reachable sha256 s →
    s.TagsSafe sha256 fun _ => True := by
  intro h
  have hsafe := h sampleSha256 (execAll sampleSha256 openMemory orphanRun)
    (Runs.list (.start openMemory_fresh) orphanRun (.of_forall fun _ _ => trivial))
  have htag : (2, "owner", "ops") ∈ (execAll sampleSha256 openMemory orphanRun).taskTags := by decide +kernel
  have hids : (execAll sampleSha256 openMemory orphanRun).ids = [1] := by decide +kernel
  have hmem := hsafe.intact.tasks _ htag
  rw [hids] at hmem
  exact absurd hmem (by decide)

end Taskmill
