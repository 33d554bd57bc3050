import Taskmill.Scheduler.Cancel
import Taskmill.Transact.Triple

/-!
# Module operations and their tasks

The operations of a `ModuleHandle` that select tasks by type (`src/module.rs`, `src/store/query`): `pause`,
`resume`, `cancel_where`, the counts and the tag queries.  In memory they test `task_type.starts_with("{name}::")`,
in the database `task_type LIKE '{name}::%'`, where `_` and `%` in the name are wildcards and ASCII letters match in
either case.

Each operation is given for a selection of types; the code runs it with `likeModule name`, and it should be the same
as with `hasModulePrefix name`.
-/

namespace Taskmill

open Transact

/-! ### Names that overlap -/

/-- Some type that starts with `text` matches the pattern `pattern%`: the two agree up to the end of the shorter one
or the first `%`. -/
def overlaps : List Char → List Char → Bool
  | [], _ => true
  | _ :: _, [] => true
  | x :: pattern, c :: text => x == '%' || ((x == '_' || x.toLower == c.toLower) && overlaps pattern text)

theorem like_append_iff (pattern text : List Char) :
    (∃ rest, like (pattern ++ ['%']) (text ++ rest) = true) ↔ overlaps pattern text = true := by
  induction pattern generalizing text with
  | nil =>
    refine ⟨fun _ => rfl, fun _ => ⟨[], ?_⟩⟩
    exact like_of_prefix [] _
  | cons x pattern ih =>
    cases text with
    | nil => exact ⟨fun _ => rfl, fun _ => ⟨x :: pattern, by simpa using like_of_prefix (x :: pattern) []⟩⟩
    | cons c text =>
      by_cases hx : x = '%'
      · -- the `%` takes the whole text, and the rest can be chosen
        subst hx
        refine ⟨fun _ => rfl, fun _ => ⟨pattern, ?_⟩⟩
        rw [List.cons_append, like.eq_def]
        refine List.any_eq_true.2 ⟨pattern, (List.mem_tails _ _).2 (List.suffix_append _ _), ?_⟩
        simpa using like_of_prefix pattern []
      · have hstep : ∀ rest, like (x :: pattern ++ ['%']) (c :: text ++ rest) =
            ((x = '_' || x.toLower == c.toLower) && like (pattern ++ ['%']) (text ++ rest)) := by
          intro rest
          rw [List.cons_append, List.cons_append, like, if_neg hx]
        simp only [hstep, overlaps, Bool.and_eq_true, Bool.or_eq_true, beq_iff_eq, hx, false_or, decide_eq_true_eq]
        rw [← ih text]
        constructor
        · rintro ⟨rest, hhead, hrest⟩
          exact ⟨hhead, rest, hrest⟩
        · rintro ⟨hhead, rest, hrest⟩
          exact ⟨rest, hhead, hrest⟩

/-- No task of the module `other` is selected by the pattern of the module `name`. -/
def Apart (name other : String) : Prop := overlaps (modulePrefix name) (modulePrefix other) = false

/-- The types of a module that is apart are selected neither in the database nor in memory. -/
theorem Apart.not_like {name other taskType : String} (h : Apart name other)
    (htype : hasModulePrefix other taskType = true) :
    likeModule name taskType = false := by
  obtain ⟨rest, hrest⟩ := List.isPrefixOf_iff_prefix.1 htype
  by_contra hlike
  rw [Bool.not_eq_false, likeModule, ← hrest] at hlike
  rw [Apart, (like_append_iff _ _).1 ⟨rest, hlike⟩] at h
  cases h

/-! ### The operations, for a selection of types -/

/-- `tasks_by_type_prefix` -/
def Store.tasksByTypePrefix (s : Store) (sel : String → Bool) : List TaskRecord :=
  ((s.tasks.filter fun r => sel r.taskType).insertionSort fun a b =>
    a.priority < b.priority ∨ a.priority = b.priority ∧ a.id ≤ b.id).map fun r => s.populateTags (rowToTaskRecord r)

/-- `pending_count_by_prefix` and `paused_count_by_prefix` -/
def Store.countByPrefix (s : Store) (sel : String → Bool) (status : TaskStatus) : Nat :=
  (s.tasks.filter fun r => sel r.taskType && r.status == status).length

/-- The optional condition on the status in the tag queries. -/
def TaskRow.hasStatus (status : Option TaskStatus) (r : TaskRow) : Bool := status.all (r.status == ·)

/-- `task_ids_by_tags_with_prefix`, where its joins are not too many (`Store.joinedIdsWithPrefix`). -/
def Store.taskIdsByTagsWithPrefix (s : Store) (sel : String → Bool) (filters : List (String × String))
    (status : Option TaskStatus) : List Int :=
  (s.tasks.filter fun r =>
    sel r.taskType && filters.all (fun f => s.taskTags.contains (r.id, f)) && r.hasStatus status).map (·.id)

/-- `count_by_tag_with_prefix`, for one value; `tag_values_with_prefix` is the case without a status. -/
def Store.countByTagWithPrefix (s : Store) (sel : String → Bool) (key : String) (status : Option TaskStatus)
    (value : String) :
    Nat :=
  ((s.tasks.filter fun r => sel r.taskType && r.hasStatus status).filter fun r =>
    s.taskTags.contains (r.id, key, value)).length

/-- `key LIKE escape_like_prefix(prefix) ESCAPE '\'`: no wildcards, but ASCII letters match in either case. -/
def likeEscaped (keyPrefix key : String) : Bool :=
  (keyPrefix.toList.map Char.toLower).isPrefixOf (key.toList.map Char.toLower)

/-- `tag_keys_by_prefix_with_prefix` -/
def Store.tagKeysByPrefixWithPrefix (s : Store) (sel : String → Bool) (keyPrefix : String) : List String :=
  (((s.tasks.filter fun r => sel r.taskType).flatMap fun r =>
    (s.tagsOf r.id).map (·.1)).filter (likeEscaped keyPrefix)).dedup.insertionSort (· ≤ ·)

/-- `task_ids_by_tag_key_prefix_with_prefix`; `count_by_tag_key_prefix_with_prefix` counts these. -/
def Store.taskIdsByTagKeyPrefixWithPrefix (s : Store) (sel : String → Bool) (keyPrefix : String)
    (status : Option TaskStatus) :
    List Int :=
  (s.tasks.filter fun r =>
    sel r.taskType && (s.tagsOf r.id).any (fun tag => likeEscaped keyPrefix tag.1) && r.hasStatus status).map (·.id)

/-- `ModuleHandle::pause`; the running tasks are selected in memory. -/
def Control.pauseSelected (σ : Control) (name : String) (sel : String → Bool) (now : Int) : Control :=
  let (drained, active) := σ.active.drainWhere fun task => hasModulePrefix name task.taskType
  { σ with
    modulePaused := Function.update σ.modulePaused name true
    active := active
    store := (σ.store.pauseEach (drained.map (·.id)) .module now).pausePendingByTypePrefix sel now }

/-- `ModuleHandle::resume` -/
def Control.resumeSelected (σ : Control) (name : String) (sel : String → Bool) (now : Int) : Control :=
  { σ with
    modulePaused := Function.update σ.modulePaused name false
    store := if σ.paused then σ.store else σ.store.resumePausedByTypePrefix sel now }

/-- The loop of `cancel_where`. -/
def cancelEach (predicate : TaskRecord → Bool) (now : Int) (tasks : List TaskRecord) : Sched (List Int) := do
  let cancelled ← Txn.mapList (fun task => do
    if predicate task then
      let found ← cancel task.id now
      pure (if found then [task.id] else [])
    else pure []) tasks
  pure cancelled.flatten

/-- `ModuleHandle::cancel_where`; `cancel_all` is the case of the predicate that is always true. -/
def cancelSelected (sel : String → Bool) (predicate : TaskRecord → Bool) (now : Int) : Sched (List Int) := do
  let tasks ← onStore ((fun s => s.tasksByTypePrefix sel) <$> Txn.get)
  cancelEach predicate now tasks

/-! ### Two selections that agree on the rows -/

section Agreement

variable {s : Store} {sel sel' : String → Bool}

private theorem filter_sel (h : ∀ r ∈ s.tasks, sel r.taskType = sel' r.taskType) (p : TaskRow → Bool) :
    (s.tasks.filter fun r => sel r.taskType && p r) = s.tasks.filter fun r => sel' r.taskType && p r :=
  List.filter_congr fun r hr => by rw [h r hr]

private theorem filter_sel_only (h : ∀ r ∈ s.tasks, sel r.taskType = sel' r.taskType) :
    (s.tasks.filter fun r => sel r.taskType) = s.tasks.filter fun r => sel' r.taskType :=
  List.filter_congr fun r hr => h r hr

/-- The queries are the same. -/
structure Store.SameQueries (s : Store) (sel sel' : String → Bool) : Prop where
  tasks : s.tasksByTypePrefix sel = s.tasksByTypePrefix sel'
  count : ∀ status, s.countByPrefix sel status = s.countByPrefix sel' status
  ids : ∀ filters status, s.taskIdsByTagsWithPrefix sel filters status = s.taskIdsByTagsWithPrefix sel' filters status
  values : ∀ key status value, s.countByTagWithPrefix sel key status value =
    s.countByTagWithPrefix sel' key status value
  keys : ∀ keyPrefix, s.tagKeysByPrefixWithPrefix sel keyPrefix = s.tagKeysByPrefixWithPrefix sel' keyPrefix
  keyed : ∀ keyPrefix status,
    s.taskIdsByTagKeyPrefixWithPrefix sel keyPrefix status = s.taskIdsByTagKeyPrefixWithPrefix sel' keyPrefix status

theorem Store.SameQueries.of_agree (h : ∀ r ∈ s.tasks, sel r.taskType = sel' r.taskType) :
    s.SameQueries sel sel' where
  tasks := by rw [Store.tasksByTypePrefix, Store.tasksByTypePrefix, filter_sel_only h]
  count status := by rw [Store.countByPrefix, Store.countByPrefix, filter_sel h]
  ids filters status := by
    unfold Store.taskIdsByTagsWithPrefix
    simp only [Bool.and_assoc]
    rw [filter_sel h]
  values key status value := by rw [Store.countByTagWithPrefix, Store.countByTagWithPrefix, filter_sel h]
  keys keyPrefix := by rw [Store.tagKeysByPrefixWithPrefix, Store.tagKeysByPrefixWithPrefix, filter_sel_only h]
  keyed keyPrefix status := by
    unfold Store.taskIdsByTagKeyPrefixWithPrefix
    simp only [Bool.and_assoc]
    rw [filter_sel h]

theorem Store.pausePendingByTypePrefix_congr (h : ∀ r ∈ s.tasks, sel r.taskType = sel' r.taskType) (now : Int) :
    s.pausePendingByTypePrefix sel now = s.pausePendingByTypePrefix sel' now :=
  Store.updateTasks_congr fun r hr => by rw [h r hr]

theorem Store.resumePausedByTypePrefix_congr (h : ∀ r ∈ s.tasks, sel r.taskType = sel' r.taskType) (now : Int) :
    s.resumePausedByTypePrefix sel now = s.resumePausedByTypePrefix sel' now := by
  have hsole : s.resumeSole (fun r => sel r.taskType) .module now =
      s.resumeSole (fun r => sel' r.taskType) .module now :=
    Store.updateTasks_congr fun r hr => by simp only [h r hr]
  unfold Store.resumePausedByTypePrefix
  rw [hsole]
  refine Store.updateTasks_congr fun r' hr' => ?_
  have htype : ∃ r ∈ s.tasks, r'.taskType = r.taskType := by
    obtain ⟨r, hr, rfl⟩ := List.mem_map.1 hr'
    refine ⟨r, hr, ?_⟩
    split <;> rfl
  obtain ⟨r, hr, htype⟩ := htype
  simp only [htype, h r hr]

variable {σ : Control} {name : String} {now : Int}

theorem Control.pauseSelected_congr (h : ∀ r ∈ σ.store.tasks, sel r.taskType = sel' r.taskType) :
    σ.pauseSelected name sel now = σ.pauseSelected name sel' now := by
  have hrows : ∀ ids, (σ.store.pauseEach ids .module now).Rows fun r => sel r.taskType = sel' r.taskType :=
    fun ids => Store.Rows.pauseEach h fun r hr _ => hr
  unfold Control.pauseSelected
  simp only [Store.pausePendingByTypePrefix_congr (hrows _)]

theorem Control.resumeSelected_congr (h : ∀ r ∈ σ.store.tasks, sel r.taskType = sel' r.taskType) :
    σ.resumeSelected name sel now = σ.resumeSelected name sel' now := by
  unfold Control.resumeSelected
  rw [Store.resumePausedByTypePrefix_congr h]

theorem cancelSelected_congr (h : ∀ r ∈ σ.store.tasks, sel r.taskType = sel' r.taskType)
    (predicate : TaskRecord → Bool) :
    cancelSelected sel predicate now σ = cancelSelected sel' predicate now σ := by
  have htasks := (Store.SameQueries.of_agree h).tasks
  show cancelEach predicate now (σ.store.tasksByTypePrefix sel) σ =
    cancelEach predicate now (σ.store.tasksByTypePrefix sel') σ
  rw [htasks]

end Agreement

/-! ### Rows that stay as they are -/

/-- A cancellation of the first task goes on to the second one, its child or its dependent. -/
def Store.GoesOnTo (s : Store) (id id' : Int) : Prop :=
  (∃ r ∈ s.tasks, r.id = id' ∧ r.parentId = some id) ∨ (id', id) ∈ s.taskDeps

/-- The row is there, outside of a set of ids that no cancellation leaves. -/
structure Store.Untouched (reached : Set Int) (r : TaskRow) (s : Store) : Prop where
  mem : r ∈ s.tasks
  apart : r.id ∉ reached
  children : ∀ r' ∈ s.tasks, ∀ id ∈ reached, r'.parentId = some id → r'.id ∈ reached
  dependents : ∀ e ∈ s.taskDeps, e.2 ∈ reached → e.1 ∈ reached

section Untouched

variable {s : Store} {reached : Set Int} {r : TaskRow} {id now : Int} {α : Type}

/-- The statements leave the row alone, whether they succeed or not. -/
private def Spares (reached : Set Int) (r : TaskRow) (x : Sql α) : Prop :=
  Txn.Triple (Store.Untouched reached r) x (fun _ => Store.Untouched reached r) fun _ => Store.Untouched reached r

private theorem spares_transaction {x : Sql α} (hx : Spares reached r x) : Spares reached r (transaction x) :=
  hx.atomically fun _ _ _ hs _ => ⟨hs.mem, hs.apart, hs.children, hs.dependents⟩

private theorem spares_insertHistory {task : TaskRecord} {status : HistoryStatus} {metrics : IoBudget}
    {durationMs : Option Int} {lastError : Option String} {skipTags : Bool} :
    Spares reached r (insertHistory task status metrics durationMs lastError skipTags now) := by
  intro s hs
  obtain ⟨tags, hlog⟩ := insertHistory_state task status metrics durationMs lastError skipTags now s
  have hkeeps : Store.Untouched reached r (insertHistory task status metrics durationMs lastError
      skipTags now s).2 := by
    rw [hlog]
    exact ⟨hs.mem, hs.apart, hs.children, hs.dependents⟩
  exact ⟨fun _ s' h => by rw [h] at hkeeps; exact hkeeps, fun _ s' h => by rw [h] at hkeeps; exact hkeeps⟩

/-- A row whose id is reached is another one. -/
private theorem Store.Untouched.ne (hs : s.Untouched reached r) (hid : id ∈ reached) : r.id ≠ id :=
  fun heq => hs.apart (heq ▸ hid)

private theorem Store.Untouched.remove (hs : s.Untouched reached r) (hid : id ∈ reached) :
    (((s.deleteEdgesFrom id).deleteTaskTags id).deleteTasks (·.id == id)).Untouched reached r := by
  refine ⟨List.mem_filter.2 ⟨hs.mem, by simpa using hs.ne hid⟩, hs.apart, fun r' hr' => ?_, fun e he => ?_⟩
  · exact hs.children r' (List.mem_of_mem_filter hr')
  · exact hs.dependents e (List.mem_of_mem_filter he)

private theorem Store.Untouched.update (hs : s.Untouched reached r) {p : TaskRow → Bool} {f : TaskRow → TaskRow}
    (hp : p r = false) (hf : ∀ r, (f r).id = r.id ∧ (f r).parentId = r.parentId) :
    (s.updateTasks p f).Untouched reached r := by
  refine ⟨?_, hs.apart, fun r' hr' => ?_, hs.dependents⟩
  · rw [Store.updateTasks_tasks]
    exact List.mem_map.2 ⟨r, hs.mem, by rw [hp]; rfl⟩
  · rw [Store.updateTasks_tasks] at hr'
    obtain ⟨r₀, hr₀, rfl⟩ := List.mem_map.1 hr'
    split
    · rw [(hf r₀).1, (hf r₀).2]
      exact hs.children r₀ hr₀
    · exact hs.children r₀ hr₀

private theorem spares_cancelInner {task : TaskRecord} (hid : task.id ∈ reached) :
    Spares reached r (cancelInner task now) :=
  spares_insertHistory.bind fun _ => .modify fun _ hs => hs.remove hid

private theorem spares_releaseDependent (hid : id ∈ reached) : Spares reached r (releaseDependent id now) := by
  intro s hs
  have hne := hs.ne hid
  rw [releaseDependent]
  split
  · exact Txn.Triple.ends_ok hs
  · split
    · refine Txn.Triple.ends_ok ?_
      have hpending : (s.updateTasks (fun r => r.id == id && r.status == .blocked) fun r =>
          { r with status := .pending }).Untouched reached r := hs.update (by simp [hne]) fun _ => ⟨rfl, rfl⟩
      exact hpending.update (by simp [hne]) fun _ => ⟨rfl, rfl⟩
    · exact Txn.Triple.ends_ok hs

private theorem spares_failDependent {cascade : Int → Sql (List Int × List Int)}
    (hcascade : ∀ id ∈ reached, Spares reached r (cascade id)) {failedTaskId depId : Int} (hid : depId ∈ reached) :
    Spares reached r (failDependent cascade failedTaskId depId now) := by
  -- the row that is read has the id of the dependent
  have hread : Txn.Triple (Store.Untouched reached r) ((fun s : Store => s.taskById depId) <$> Txn.get)
      (fun row s => (∀ task, row = some task → task.id = depId) ∧ s.Untouched reached r) fun (_ : StoreError) =>
          Store.Untouched reached r :=
    .map_get fun _ hs => ⟨fun task htask => by simpa using List.find?_some htask, hs⟩
  refine hread.bind fun row s hs => ?_
  cases row with
  | none => exact Txn.Triple.ends_ok hs.2
  | some task =>
    have hremove : Spares reached r (dependencyFail failedTaskId task now) :=
      spares_insertHistory.bind fun _ => .modify fun _ hs' => hs'.remove (by rw [hs.1 task rfl]; exact hid)
    cases hpolicy : task.onDepFailure with
    | cancel =>
      simp only [hpolicy]
      exact hremove.bind (fun _ => (hcascade depId hid).bind_pure) s hs.2
    | fail =>
      simp only [hpolicy]
      exact hremove.bind (fun _ => (hcascade depId hid).bind_pure) s hs.2
    | ignore =>
      simp only [hpolicy]
      exact (spares_releaseDependent hid).bind_pure s hs.2

private theorem spares_failDependentsInner (fuel : Nat) (hid : id ∈ reached) :
    Spares reached r (failDependentsInner now fuel id) := by
  induction fuel generalizing id with
  | zero => exact .pure fun _ hs => hs
  | succ fuel ih =>
    -- the dependents of what is reached are reached
    have hedges : Txn.Triple (Store.Untouched reached r) (deleteEdgesTo id)
        (fun deps s => (∀ depId ∈ deps, depId ∈ reached) ∧ s.Untouched reached r) fun _ =>
            Store.Untouched reached r := by
      intro s hs
      refine Txn.Triple.ends_ok ⟨fun depId hmem => ?_, hs.mem, hs.apart, hs.children,
        fun e he => hs.dependents e (List.mem_of_mem_filter he)⟩
      obtain ⟨e, he, rfl⟩ := List.mem_map.1 hmem
      obtain ⟨he, hto⟩ := List.mem_filter.1 he
      exact hs.dependents e he (by rwa [beq_iff_eq.1 hto])
    refine hedges.bind fun dependents s hs => ?_
    have hrounds : ∀ depId ∈ dependents, Spares reached r
        (failDependent (failDependentsInner now fuel) id depId now) :=
      fun depId hdep => spares_failDependent (fun _ => ih) (hs.1 depId hdep)
    exact (Txn.Triple.mapList hrounds).bind_pure s hs.2

private theorem spares_failDependents (hid : id ∈ reached) : Spares reached r (failDependents id now) :=
  spares_transaction fun _ hs => spares_failDependentsInner _ hid _ hs

private theorem spares_attempt {x : Sql α} (hx : Spares reached r x) : Spares reached r (Txn.attempt x) := fun _ hs =>
  Txn.Triple.ends_ok (hx.state hs)

private theorem spares_cancelChildrenTx (hid : id ∈ reached) (pendingRows : List TaskRow) :
    Spares reached r (cancelChildrenTx id pendingRows now) := by
  unfold cancelChildrenTx
  split
  · exact .pure fun _ hs => hs
  · have hloop : Spares reached r (Txn.mapList (fun row =>
        insertHistory (rowToTaskRecord row) .cancelled {} none none false now) pendingRows) :=
      .mapList fun _ _ => spares_insertHistory
    refine spares_transaction (hloop.bind fun _ => .modify fun _ hs => ?_)
    have hparent : r.parentId ≠ some id := fun heq => hs.apart (hs.children r hs.mem id hid heq)
    refine ⟨?_, hs.apart, fun r' hr' => ?_, hs.dependents⟩
    · exact List.mem_filter.2 ⟨hs.mem, by simp [hparent]⟩
    · exact hs.children r' (List.mem_of_mem_filter hr')

/-- The running children are reached. -/
private theorem spares_cancelChildren (hid : id ∈ reached) :
    Txn.Triple (Store.Untouched reached r) (cancelChildren id now)
      (fun ids s => (∀ child ∈ ids, child ∈ reached) ∧ s.Untouched reached r) fun _ => Store.Untouched reached r := by
  have hread : Txn.Triple (Store.Untouched reached r) ((fun s : Store => (s.tasks.filter fun r =>
      r.parentId == some id && (r.status == .running || r.status == .waiting)).map (·.id)) <$> Txn.get)
      (fun ids s => (∀ child ∈ ids, child ∈ reached) ∧ s.Untouched reached r)
      fun (_ : StoreError) => Store.Untouched reached r := by
    refine .map_get fun s hs => ⟨fun child hmem => ?_, hs⟩
    obtain ⟨r', hr', rfl⟩ := List.mem_map.1 hmem
    obtain ⟨hr', hsel⟩ := List.mem_filter.1 hr'
    simp only [Bool.and_eq_true, beq_iff_eq] at hsel
    exact hs.children r' hr' id hid hsel.1
  refine hread.bind fun ids s hs => ?_
  have hrest : Txn.Triple (Store.Untouched reached r) (do
      let pendingRows ← (fun s => s.cancellableChildren id) <$> Txn.get
      cancelChildrenTx id pendingRows now
      pure ids : Sql (List Int)) (fun ids s => (∀ child ∈ ids, child ∈ reached) ∧ s.Untouched reached r)
      fun _ => Store.Untouched reached r := by
    have hpending : Spares reached r ((fun s : Store => s.cancellableChildren id) <$> Txn.get) :=
      .map_get fun _ hs => hs
    exact hpending.bind fun pendingRows => (spares_cancelChildrenTx hid pendingRows).bind fun _ =>
      .pure fun _ hs' => ⟨hs.1, hs'⟩
  exact hrest s hs.2

private theorem spares_cancelToHistoryWithRecord {task : TaskRecord} (hid : task.id ∈ reached) :
    Spares reached r (cancelToHistoryWithRecord task now) :=
  (spares_transaction (spares_cancelInner hid)).bind fun _ => spares_attempt (spares_failDependents hid)

private theorem spares_cancelToHistory (hid : id ∈ reached) : Spares reached r (cancelToHistory id now) := by
  have htx : Spares reached r (cancelToHistoryTx id now) := by
    refine spares_transaction fun s hs => ?_
    cases hrow : s.taskById id with
    | none => exact Txn.Triple.ends_ok hs
    | some row =>
      have hrowId : row.id = id := by simpa using List.find?_some hrow
      have hcancel : Spares reached r (cancelInner (rowToTaskRecord row) now) :=
        spares_cancelInner (by rw [← hrowId] at hid; exact hid)
      exact hcancel.bind_pure s hs
  refine htx.bind fun found => ?_
  split
  · exact (spares_attempt (spares_failDependents hid)).bind_pure
  · exact .pure fun _ hs => hs

/-- The call of the scheduler leaves the row alone. -/
private def LeavesRow (reached : Set Int) (r : TaskRow) (x : Sched α) : Prop :=
  Txn.Triple (fun σ : Control => σ.store.Untouched reached r) x (fun _ σ => σ.store.Untouched reached r) fun _ σ =>
    σ.store.Untouched reached r

private theorem leaves_onStore {x : Sql α} {Q : α → Store → Prop}
    (hx : Txn.Triple (Store.Untouched reached r) x Q fun _ => Store.Untouched reached r) :
    Txn.Triple (fun σ : Control => σ.store.Untouched reached r) (onStore x) (fun a σ => Q a σ.store) fun _ σ =>
      σ.store.Untouched reached r := by
  intro σ hσ
  obtain ⟨hok, herror⟩ := hx σ.store hσ
  refine ⟨fun a σ' h => ?_, fun e σ' h => ?_⟩
  · obtain ⟨hrun, rfl⟩ := Prod.mk.inj h
    exact hok a _ (Prod.ext hrun rfl)
  · obtain ⟨hrun, rfl⟩ := Prod.mk.inj h
    exact herror e _ (Prod.ext hrun rfl)

private theorem leaves_cancelActive (hid : id ∈ reached) : LeavesRow reached r (cancelActive now id) := by
  have hremove : Txn.Triple (fun σ : Control => σ.store.Untouched reached r) (removeActive id)
      (fun entry σ => (∀ task, entry = some task → task.id = id) ∧ σ.store.Untouched reached r)
      fun (_ : StoreError) σ => σ.store.Untouched reached r :=
    fun σ hσ => Txn.Triple.ends_ok ⟨fun task htask => by simpa using List.find?_some htask, hσ⟩
  refine hremove.bind fun entry σ hσ => ?_
  cases entry with
  | none => exact Txn.Triple.ends_ok hσ.2
  | some record =>
    have hrecord : record.id ∈ reached := by rw [hσ.1 record rfl]; exact hid
    exact (leaves_onStore (spares_cancelToHistoryWithRecord hrecord)).bind_pure σ hσ.2

/-- A row that is not reached survives the cancellation of a task that is. -/
private theorem leaves_cancel (hid : id ∈ reached) : LeavesRow reached r (cancel id now) := by
  refine (leaves_onStore (spares_cancelChildren hid)).bind fun ids σ hσ => ?_
  have hrest : LeavesRow reached r (do
      let _ ← Txn.mapList (cancelActive now) ids
      if ← cancelActive now id then pure true
      else onStore (cancelToHistory id now) : Sched Bool) := by
    have hloop : LeavesRow reached r (Txn.mapList (cancelActive now) ids) :=
      .mapList fun c hc => leaves_cancelActive (hσ.1 c hc)
    refine hloop.bind fun _ => (leaves_cancelActive hid).bind fun found => ?_
    split
    · exact .pure fun _ h => h
    · exact leaves_onStore (spares_cancelToHistory hid)
  exact hrest σ hσ.2

private theorem leaves_cancelEach {predicate : TaskRecord → Bool} {tasks : List TaskRecord}
    (h : ∀ task ∈ tasks, predicate task = true → task.id ∈ reached) :
    LeavesRow reached r (cancelEach predicate now tasks) := by
  refine Txn.Triple.bind_pure (.mapList fun task htask => ?_)
  split
  · rename_i hcancelled
    exact (leaves_cancel (h task htask hcancelled)).bind_pure
  · exact .pure fun _ hσ => hσ

end Untouched

/-! ### Confinement -/

/-- The store was reached by the operations, the tasks are tasks of registered modules, and the executions in the
active map have the types of their rows. -/
structure Control.Populated (sha256 : List UInt8 → String) (σ : Control) (names : List String) : Prop where
  reach : Reachable sha256 σ.store
  rows : ∀ r ∈ σ.store.tasks, ∃ name ∈ names, hasModulePrefix name r.taskType = true
  active : ∀ task ∈ σ.active, ∀ r ∈ σ.store.tasks, r.id = task.id → r.taskType = task.taskType

/-- The tasks that a cancellation of these tasks can reach: they themselves, and on to children and dependents. -/
def Store.reachedFrom (s : Store) (cancelled : TaskRecord → Prop) : Set Int :=
  {id | ∃ task, cancelled task ∧ Relation.ReflTransGen s.GoesOnTo task.id id}

/-- The operations of the module `name` are those of the tasks whose types start with `{name}::`.  Pause and resume
leave the rows of other modules as they are, and a cancellation leaves all rows as they are that it does not reach
from a task of the module that it cancels. -/
structure Control.Confined (σ : Control) (names : List String) (name : String) (now : Int) : Prop where
  pause : σ.pauseModule name now = σ.pauseSelected name (hasModulePrefix name) now
  resume : σ.resumeModule name now = σ.resumeSelected name (hasModulePrefix name) now
  cancel : ∀ predicate, cancelSelected (likeModule name) predicate now σ =
    cancelSelected (hasModulePrefix name) predicate now σ
  queries : σ.store.SameQueries (likeModule name) (hasModulePrefix name)
  paused_others : ∀ other ∈ names, other ≠ name → ∀ r ∈ σ.store.tasks, hasModulePrefix other r.taskType = true →
    r ∈ (σ.pauseModule name now).store.tasks
  resumed_others : ∀ other ∈ names, other ≠ name → ∀ r ∈ σ.store.tasks, hasModulePrefix other r.taskType = true →
    r ∈ (σ.resumeModule name now).store.tasks
  cancelled_others : ∀ predicate, ∀ r ∈ σ.store.tasks,
    r.id ∉ σ.store.reachedFrom (fun task =>
      task ∈ σ.store.tasksByTypePrefix (hasModulePrefix name) ∧ predicate task = true) →
    r ∈ (cancelSelected (likeModule name) predicate now σ).2.store.tasks

section Confinement

variable {sha256 : List UInt8 → String} {σ : Control} {names : List String} {name : String} {now : Int} {r : TaskRow}

private theorem mem_updateTasks_of_not {s : Store} {p : TaskRow → Bool} {f : TaskRow → TaskRow} (hr : r ∈ s.tasks)
    (hp : p r = false) :
    r ∈ (s.updateTasks p f).tasks := by
  rw [Store.updateTasks_tasks]
  exact List.mem_map.2 ⟨r, hr, by rw [hp]; rfl⟩

private theorem mem_pauseEach {s : Store} {ids : List Int} {reason : PauseReasons} (hr : r ∈ s.tasks)
    (hid : r.id ∉ ids) :
    r ∈ (s.pauseEach ids reason now).tasks := by
  induction ids generalizing s with
  | nil => exact hr
  | cons id ids ih =>
    simp only [List.mem_cons, not_or] at hid
    exact ih (mem_updateTasks_of_not hr (by simpa using hid.1)) hid.2

/-- What is reached is closed under children and dependents. -/
private theorem Store.untouched {s : Store} {cancelled : TaskRecord → Prop} (hr : r ∈ s.tasks)
    (hapart : r.id ∉ s.reachedFrom cancelled) : s.Untouched (s.reachedFrom cancelled) r := by
  refine ⟨hr, hapart, fun r' hr' id hid hparent => ?_, fun e he hid => ?_⟩
  · obtain ⟨task, htask, hpath⟩ := hid
    exact ⟨task, htask, hpath.tail (.inl ⟨r', hr', rfl, hparent⟩)⟩
  · obtain ⟨task, htask, hpath⟩ := hid
    exact ⟨task, htask, hpath.tail (.inr he)⟩

variable (hpop : σ.Populated sha256 names) (hapart : ∀ other ∈ names, name ≠ other → Apart name other)
include hpop hapart

/-- On the rows of registered modules the two selections agree. -/
private theorem selections_agree :
    ∀ r ∈ σ.store.tasks, likeModule name r.taskType = hasModulePrefix name r.taskType := by
  intro r hr
  obtain ⟨other, hother, htype⟩ := hpop.rows r hr
  by_cases hname : name = other
  · subst hname
    rw [htype, likeModule_of_hasModulePrefix htype]
  · have hlike := (hapart other hother hname).not_like htype
    rw [hlike]
    by_contra hprefix
    rw [eq_comm, Bool.not_eq_false] at hprefix
    rw [likeModule_of_hasModulePrefix hprefix] at hlike
    cases hlike

private theorem confined_of_apart : σ.Confined names name now := by
  have hagree := selections_agree hpop hapart
  have hnot : ∀ other ∈ names, other ≠ name → ∀ r : TaskRow, hasModulePrefix other r.taskType = true →
      likeModule name r.taskType = false :=
    fun other hother hne r htype => (hapart other hother (Ne.symm hne)).not_like htype
  refine ⟨Control.pauseSelected_congr hagree, Control.resumeSelected_congr hagree,
    fun predicate => cancelSelected_congr hagree predicate, .of_agree hagree, ?_, ?_, ?_⟩
  · intro other hother hne r hr htype
    have hlike := hnot other hother hne r htype
    refine mem_updateTasks_of_not (mem_pauseEach hr fun hmem => ?_) (by simp [hlike])
    -- an execution of this row would be one of the other module
    obtain ⟨task, htask, hid⟩ := List.mem_map.1 hmem
    obtain ⟨htask, hprefix⟩ := List.mem_filter.1 htask
    rw [← hpop.active task htask r hr hid.symm] at hprefix
    rw [likeModule_of_hasModulePrefix hprefix] at hlike
    cases hlike
  · intro other hother hne r hr htype
    have hlike := hnot other hother hne r htype
    show r ∈ (if σ.paused then σ.store else σ.store.resumePausedByTypePrefix (likeModule name) now).tasks
    split
    · exact hr
    · exact mem_updateTasks_of_not (mem_updateTasks_of_not hr (by simp [hlike])) (by simp [hlike])
  · intro predicate r hr hapart
    rw [cancelSelected_congr hagree]
    refine (Txn.Triple.state (leaves_cancelEach fun task htask hcancelled => ?_) (σ.store.untouched hr hapart)).mem
    exact ⟨task, ⟨htask, hcancelled⟩, .refl⟩

end Confinement

private def queueRun (taskType : String) : List Action := [.submitDirect (.new taskType) 0]

/-- A queue with one pending task of the given type. -/
private def queued (sha256 : List UInt8 → String) (taskType : String) : Control where
  store := execAll sha256 openMemory (queueRun taskType)
  active := []
  paused := false
  modulePaused := fun _ => false

private theorem queued_tasks (sha256 : List UInt8 → String) (taskType : String) :
    ∃ r, (queued sha256 taskType).store.tasks = [r] ∧ r.taskType = taskType ∧ r.status = .pending := by
  refine ⟨_, rfl, rfl, rfl⟩

private theorem queued_populated (sha256 : List UInt8 → String) {taskType other : String} {names : List String}
    (hother : other ∈ names) (htype : hasModulePrefix other taskType = true) :
    (queued sha256 taskType).Populated sha256 names where
  reach := Runs.list (.start openMemory_fresh) (queueRun taskType) ⟨trivial, trivial⟩
  rows r hr := by
    obtain ⟨row, hrows, htaskType, -⟩ := queued_tasks sha256 taskType
    rw [hrows, List.mem_singleton] at hr
    exact ⟨other, hother, by rw [hr, htaskType]; exact htype⟩
  active task htask := nomatch htask

/-- Pausing a module pauses every pending task that its pattern selects. -/
private theorem queued_paused (sha256 : List UInt8 → String) {name taskType : String}
    (hlike : likeModule name taskType = true) {r : TaskRow}
    (hr : r ∈ ((queued sha256 taskType).pauseModule name 0).store.tasks) :
    r.status = .paused := by
  obtain ⟨row, hrows, htype, hstatus⟩ := queued_tasks sha256 taskType
  have hpaused : ((queued sha256 taskType).pauseModule name 0).store =
      (queued sha256 taskType).store.pausePendingByTypePrefix (likeModule name) 0 := rfl
  rw [hpaused, Store.pausePendingByTypePrefix, Store.updateTasks_tasks, hrows] at hr
  simp only [List.map_cons, List.map_nil, List.mem_singleton, htype, hlike, hstatus] at hr
  rw [hr]
  rfl

/-- A task of one module that the pattern of another one selects is paused with it. -/
private theorem not_confined {sha256 : List UInt8 → String} {names : List String} {name other taskType : String}
    (hother : other ∈ names) (hne : other ≠ name) (htype : hasModulePrefix other taskType = true)
    (hlike : likeModule name taskType = true) : ¬ (queued sha256 taskType).Confined names name 0 := by
  intro hconfined
  obtain ⟨row, hrows, htaskType, hstatus⟩ := queued_tasks sha256 taskType
  have hkept := hconfined.paused_others other hother hne row (by rw [hrows]; exact List.mem_singleton_self row)
    (by rw [htaskType]; exact htype)
  have hpaused := queued_paused sha256 hlike hkept
  rw [hstatus] at hpaused
  cases hpaused

/-- The operations of all modules are confined, whatever the tasks, exactly if no two module names overlap. -/
theorem modules_confined_iff (sha256 : List UInt8 → String) (names : List String) :
    (∀ σ : Control, σ.Populated sha256 names → ∀ name ∈ names, ∀ now, σ.Confined names name now) ↔
      ∀ name ∈ names, ∀ other ∈ names, name ≠ other → Apart name other := by
  constructor
  · intro h name hname other hother hne
    by_contra hoverlap
    -- a task of the other module that the pattern selects
    rw [Apart, Bool.not_eq_false] at hoverlap
    obtain ⟨rest, hlike⟩ := (like_append_iff _ _).2 hoverlap
    have htext : (String.ofList (modulePrefix other ++ rest)).toList = modulePrefix other ++ rest :=
      String.toList_ofList
    have htype : hasModulePrefix other (String.ofList (modulePrefix other ++ rest)) = true := by
      rw [hasModulePrefix, htext]
      exact List.isPrefixOf_iff_prefix.2 (List.prefix_append _ _)
    have hselected : likeModule name (String.ofList (modulePrefix other ++ rest)) = true := by
      rw [likeModule, htext]
      exact hlike
    exact not_confined hother (Ne.symm hne) htype hselected (h _ (queued_populated sha256 hother htype) name hname 0)
  · intro hapart σ hpop name hname now
    exact confined_of_apart hpop (hapart name hname)

/-- Pausing the module `my_mod` also pauses the tasks of the module `myXmod`. -/
theorem underscore_pauses_other_module :
    ¬ ∀ names : List String, names.Nodup → ∀ σ : Control, σ.Populated sampleSha256 names →
      ∀ name ∈ names, ∀ now, σ.Confined names name now := by
  intro h
  have hpop : (queued sampleSha256 "myXmod::t").Populated sampleSha256 ["my_mod", "myXmod"] :=
    queued_populated sampleSha256 (by decide) (by decide : hasModulePrefix "myXmod" "myXmod::t" = true)
  have hconfined := h ["my_mod", "myXmod"] (by decide) _ hpop "my_mod" (by decide) 0
  exact not_confined (by decide) (by decide : "myXmod" ≠ "my_mod") (by decide) (by decide +kernel) hconfined

end Taskmill
