import Taskmill.Completion

/-!
# Batches of completions and failures

`complete_batch_with_resolve` does with one statement for the whole batch what `complete_with_record_and_resolve`
does task by task: history rows, deletes and resets, tags, edges, unblocking.  A completion is the composition of
three changes of the tables, `logTask`, `finishRow` and `release`, that act on different rows and columns for
different tasks.  So the changes of several completions can be sorted by kind, and each kind done at once.

Both fail only when a history row or a next instance cannot be inserted; then the batch changes nothing, whereas one
at a time the tasks before and after the failing one are completed.
-/

namespace Taskmill

open Transact

/-! ### History rows of several tasks -/

section Logs

variable {ι : Type} {skipTags : Bool} {entry : ι → Int → TaskHistoryRow} {key : ι → Int}

/-- History rows for several tasks. -/
def Store.logEach (s : Store) (skipTags : Bool) (entry : ι → Int → TaskHistoryRow) (key : ι → Int)
    (items : List ι) : Store :=
  items.foldl (fun s i => s.logTask skipTags (entry i) (key i)) s

/-- None of them fails. -/
def Store.LogsOk (s : Store) (skipTags : Bool) (entry : ι → Int → TaskHistoryRow) (key : ι → Int)
    (items : List ι) : Prop :=
  Along (fun s i => s.logTask skipTags (entry i) (key i)) (fun s i => ¬ s.LogFails skipTags (key i)) s items

/-- A loop that writes them. -/
theorem mapList_logs {f : ι → Sql Unit}
    (hok : ∀ i s, ¬ s.LogFails skipTags (key i) → f i s = (.ok (), s.logTask skipTags (entry i) (key i)))
    (herr : ∀ i s, s.LogFails skipTags (key i) → ∃ e s', f i s = (.error e, s')) (items : List ι) (s : Store) :
    (s.LogsOk skipTags entry key items → ∃ us, Txn.mapList f items s = (.ok us, s.logEach skipTags entry key items)) ∧
    (¬ s.LogsOk skipTags entry key items → ∃ e s', Txn.mapList f items s = (.error e, s')) := by
  induction items generalizing s with
  | nil => exact ⟨fun _ => ⟨[], rfl⟩, fun h => absurd trivial h⟩
  | cons i items ih =>
    obtain ⟨ihok, iherr⟩ := ih (s.logTask skipTags (entry i) (key i))
    constructor
    · rintro ⟨h₁, h₂⟩
      obtain ⟨us, hus⟩ := ihok h₂
      refine ⟨() :: us, ?_⟩
      rw [Txn.mapList, Txn.bind_of_ok (hok i s h₁), Txn.bind_of_ok hus]
      rfl
    · intro h
      by_cases hf : s.LogFails skipTags (key i)
      · obtain ⟨e, s', he⟩ := herr i s hf
        exact ⟨e, s', Txn.bind_of_error he⟩
      · obtain ⟨e, s', he⟩ := iherr fun hrest => h ⟨hf, hrest⟩
        refine ⟨e, s', ?_⟩
        rw [Txn.mapList, Txn.bind_of_ok (hok i s hf)]
        exact Txn.bind_of_error he

/-- A change of the tables that no history row of `items` sees can be made before them or after them. -/
theorem logEach_commute {c : Store → Store} {items : List ι}
    (hc : ∀ s, ∀ i ∈ items, (c s).logTask skipTags (entry i) (key i) = c (s.logTask skipTags (entry i) (key i)))
    (hf : ∀ s, ∀ i ∈ items, (c s).LogFails skipTags (key i) ↔ s.LogFails skipTags (key i)) (s : Store) :
    (c s).logEach skipTags entry key items = c (s.logEach skipTags entry key items) ∧
      ((c s).LogsOk skipTags entry key items ↔ s.LogsOk skipTags entry key items) := by
  induction items generalizing s with
  | nil => exact ⟨rfl, Iff.rfl⟩
  | cons i items ih =>
    have hhead := hc s i (List.mem_cons_self ..)
    obtain ⟨hstore, hlogs⟩ := ih (fun s j hj => hc s j (List.mem_cons_of_mem _ hj))
      (fun s j hj => hf s j (List.mem_cons_of_mem _ hj)) (s.logTask skipTags (entry i) (key i))
    constructor
    · show ((c s).logTask skipTags (entry i) (key i)).logEach skipTags entry key items = _
      rw [hhead]
      exact hstore
    · show (¬ (c s).LogFails skipTags (key i) ∧
        ((c s).logTask skipTags (entry i) (key i)).LogsOk skipTags entry key items) ↔ _
      rw [hhead, hlogs, hf s i (List.mem_cons_self ..)]
      rfl

theorem logEach_tasks (items : List ι) (s : Store) : (s.logEach skipTags entry key items).tasks = s.tasks := by
  induction items generalizing s with
  | nil => rfl
  | cons i items ih => exact ih (s.logTask skipTags (entry i) (key i))

private theorem logEach_taskDeps (items : List ι) (s : Store) :
    (s.logEach skipTags entry key items).taskDeps = s.taskDeps := by
  induction items generalizing s with
  | nil => rfl
  | cons i items ih => exact ih (s.logTask skipTags (entry i) (key i))

end Logs

/-! ### Changes that commute -/

section Commute

variable {s : Store} {skipTags : Bool} {now : Int}

theorem tagsOf_deleteTaskTags {id id' : Int} (h : id' ≠ id) : (s.deleteTaskTags id).tagsOf id' = s.tagsOf id' := by
  rw [Store.tagsOf, Store.tagsOf, Store.deleteTaskTags_taskTags, List.filter_filter]
  refine congrArg _ (List.filter_congr fun t _ => ?_)
  by_cases ht : t.1 = id'
  · simp [ht, h]
  · simp [ht]

/-- A history row of another task does not see that the row is finished. -/
private theorem logTask_finishRow {entry : Int → TaskHistoryRow} {id id' : Int} (h : id' ≠ id) :
    (s.finishRow skipTags id).logTask skipTags entry id' = (s.logTask skipTags entry id').finishRow skipTags id := by
  have hdel : (s.logTask skipTags entry id').deletable id = s.deletable id := rfl
  rw [Store.finishRow, Store.finishRow, hdel]
  split
  · cases skipTags with
    | true => rfl
    | false =>
      have htags : ((s.deleteTasks fun r => r.id == id && !r.requeue).deleteTaskTags id).tagsOf id' = s.tagsOf id' :=
        tagsOf_deleteTaskTags h
      have hcopied : ((s.deleteTasks fun r => r.id == id && !r.requeue).deleteTaskTags id).copiedTags false id' =
          s.copiedTags false id' := by
        rw [Store.copiedTags, Store.copiedTags, htags]
        rfl
      simp only [Bool.false_eq_true, if_false]
      rw [Store.logTask, hcopied]
      rfl
  · rfl

/-- Nor does it fail for another reason. -/
private theorem logFails_finishRow {id id' : Int} (h : id' ≠ id) :
    (s.finishRow skipTags id).LogFails skipTags id' ↔ s.LogFails skipTags id' := by
  rw [Store.finishRow]
  split
  · cases skipTags with
    | true => exact Iff.rfl
    | false =>
      have htags : ((s.deleteTasks fun r => r.id == id && !r.requeue).deleteTaskTags id).tagsOf id' = s.tagsOf id' :=
        tagsOf_deleteTaskTags h
      simp only [Bool.false_eq_true, if_false, Store.LogFails, Store.historyTagClash]
      rw [htags]
      rfl
  · exact Iff.rfl

/-- Finishing a row that is not blocked and releasing others do not meet. -/
private theorem finishRow_release {id : Int} {ids : List Int} (hb : ∀ r ∈ s.tasks, r.id = id → r.status ≠ .blocked) :
    (s.release ids now).finishRow skipTags id = (s.finishRow skipTags id).release ids now := by
  have hfix : ∀ r : TaskRow, (s.freeRow now r).id = r.id ∧ (s.freeRow now r).requeue = r.requeue := by
    intro r
    rw [Store.freeRow]
    split
    · exact ⟨rfl, rfl⟩
    · exact ⟨rfl, rfl⟩
  have hg : ∀ r : TaskRow, (if s.frees ids r then s.freeRow now r else r).id = r.id ∧
      (if s.frees ids r then s.freeRow now r else r).requeue = r.requeue := by
    intro r
    split
    · exact hfix r
    · exact ⟨rfl, rfl⟩
  have hdel : (s.release ids now).deletable id = s.deletable id := by
    rw [Store.deletable, Store.deletable, Store.release_tasks, List.any_map]
    refine congrArg (s.tasks.any ·) (funext fun r => ?_)
    simp only [Function.comp_apply, (hg r).1, (hg r).2]
  have hids : (s.release ids now).ids = s.ids := by
    rw [Store.ids, Store.ids, Store.release_tasks, List.map_map]
    exact List.map_congr_left fun r _ => (hg r).1
  have hfilter : ((s.tasks.map fun r => if s.frees ids r then s.freeRow now r else r).filter
      fun r => !(r.id == id && !r.requeue)) =
      (s.tasks.filter fun r => !(r.id == id && !r.requeue)).map fun r =>
          if s.frees ids r then s.freeRow now r else r := by
    rw [List.filter_map]
    refine congrArg _ (List.filter_congr fun r _ => ?_)
    simp only [Function.comp_apply, (hg r).1, (hg r).2]
  rw [Store.finishRow, Store.finishRow, hdel]
  split
  · have hdelete : (s.release ids now).deleteTasks (fun r => r.id == id && !r.requeue) =
        (s.deleteTasks fun r => r.id == id && !r.requeue).release ids now := by
      rw [Store.deleteTasks, Store.release_tasks, hfilter]
      rfl
    rw [hdelete]
    split
    · rfl
    · rfl
  · have hreset : (s.release ids now).tasks.map
      (fun r => if r.id == id then TaskRow.resetRequeued s.nextInst r else r) =
        (s.tasks.map fun r => if r.id == id then TaskRow.resetRequeued s.nextInst r else r).map
          fun r => if s.frees ids r then s.freeRow now r else r := by
      rw [Store.release_tasks, List.map_map, List.map_map]
      refine List.map_congr_left fun r hr => ?_
      simp only [Function.comp_apply, (hg r).1]
      by_cases hid : r.id = id
      · have hnot : s.frees ids r = false := by
          rw [← Bool.not_eq_true, Store.frees_iff]
          exact fun h => hb r hr hid h.1
        have hnot' : s.frees ids (TaskRow.resetRequeued s.nextInst r) = false := by
          rw [← Bool.not_eq_true, Store.frees_iff]
          rintro ⟨⟨⟩, _⟩
        simp [hid, hnot, hnot']
      · simp [hid]
    rw [Store.resetRequeued, Store.resetRequeued, Store.updateTasks, Store.updateTasks, hids]
    show ({ (s.release ids now) with tasks := (s.release ids now).tasks.map (fun r =>
      if r.id == id then TaskRow.resetRequeued s.nextInst r else r), nextInst := _ } : Store) = _
    rw [hreset]
    rfl

theorem freeRow_status (r : TaskRow) : (s.freeRow now r).status ≠ .blocked := by
  rw [Store.freeRow]
  split
  · simp [TaskRow.pauseFor]
  · simp

/-- What a release does to a row. -/
def Store.releaseRow (s : Store) (ids : List Int) (now : Int) (r : TaskRow) : TaskRow :=
  if s.frees ids r then s.freeRow now r else r

theorem releaseRow_id (ids : List Int) (r : TaskRow) : (s.releaseRow ids now r).id = r.id := by
  rw [Store.releaseRow]
  split
  · rw [Store.freeRow]
    split
    · rfl
    · rfl
  · rfl

/-- A row is freed by the first release or by the second, and not by both. -/
private theorem frees_append (ids ids' : List Int) (now : Int) (r : TaskRow) :
    s.frees (ids ++ ids') r = (s.frees ids r || (s.release ids now).frees ids' (s.releaseRow ids now r)) ∧
      (s.frees ids r && (s.release ids now).frees ids' (s.releaseRow ids now r)) = false := by
  by_cases hf : s.frees ids r = true
  · have hsecond : (s.release ids now).frees ids' (s.releaseRow ids now r) = false := by
      rw [← Bool.not_eq_true, Store.frees_iff, Store.releaseRow, if_pos hf]
      exact fun h => freeRow_status r h.1
    rw [hsecond, hf]
    refine ⟨?_, rfl⟩
    rw [Bool.or_false, Store.frees_iff]
    obtain ⟨hst, ⟨e, he, hid, hin⟩, hall⟩ := Store.frees_iff.1 hf
    exact ⟨hst, ⟨e, he, hid, List.mem_append_left _ hin⟩, fun e he hid => List.mem_append_left _ (hall e he hid)⟩
  · rw [Store.releaseRow, if_neg hf, Bool.not_eq_true] at *
    rw [hf, Bool.false_or, Bool.false_and]
    refine ⟨?_, rfl⟩
    rw [Bool.eq_iff_iff, Store.frees_iff, Store.frees_iff]
    refine and_congr_right fun hst => ?_
    -- the edges that are left lead out of `ids`
    have hleft : ∀ e, e ∈ (s.release ids now).taskDeps ↔ e ∈ s.taskDeps ∧ e.2 ∉ ids := by
      intro e
      rw [Store.release_taskDeps, List.mem_filter, Bool.not_eq_true', ← Bool.not_eq_true, List.contains_iff_mem]
    constructor
    · rintro ⟨⟨e, he, hid, hin⟩, hall⟩
      have hout : ∃ e ∈ s.taskDeps, e.1 = r.id ∧ e.2 ∉ ids := by
        by_contra hnone
        have hall' : ∀ e ∈ s.taskDeps, e.1 = r.id → e.2 ∈ ids := by
          intro e he hid
          by_contra hn
          exact hnone ⟨e, he, hid, hn⟩
        have : s.frees ids r = true := Store.frees_iff.2 ⟨hst, ⟨e, he, hid, hall' e he hid⟩, hall'⟩
        rw [hf] at this
        cases this
      obtain ⟨e', he', hid', hn⟩ := hout
      refine ⟨⟨e', (hleft e').2 ⟨he', hn⟩, hid', ?_⟩, fun e he hid => ?_⟩
      · exact (List.mem_append.1 (hall e' he' hid')).resolve_left hn
      · obtain ⟨he, hn⟩ := (hleft e).1 he
        exact (List.mem_append.1 (hall e he hid)).resolve_left hn
    · rintro ⟨⟨e, he, hid, hin⟩, hall⟩
      refine ⟨⟨e, ((hleft e).1 he).1, hid, List.mem_append_right _ hin⟩, fun e he hid => ?_⟩
      by_cases hn : e.2 ∈ ids
      · exact List.mem_append_left _ hn
      · exact List.mem_append_right _ (hall e ((hleft e).2 ⟨he, hn⟩) hid)

/-- Releasing twice is releasing both at once. -/
theorem release_release (ids ids' : List Int) :
    (s.release ids now).release ids' now = s.release (ids ++ ids') now := by
  have hdeps : (s.taskDeps.filter fun e => !ids.contains e.2).filter (fun e => !ids'.contains e.2) =
      s.taskDeps.filter fun e => !(ids ++ ids').contains e.2 := by
    rw [List.filter_filter]
    refine List.filter_congr fun e _ => ?_
    rw [Bool.eq_iff_iff]
    simp only [Bool.and_eq_true, Bool.not_eq_true', ← Bool.not_eq_true, List.contains_iff_mem,
      List.mem_append, not_or]
    exact and_comm
  have htasks : (s.tasks.map (s.releaseRow ids now)).map ((s.release ids now).releaseRow ids' now) =
      s.tasks.map (s.releaseRow (ids ++ ids') now) := by
    rw [List.map_map]
    refine List.map_congr_left fun r _ => ?_
    obtain ⟨hor, hand⟩ := frees_append ids ids' now r (s := s)
    have hfree : (s.release ids now).freeRow now = s.freeRow now := rfl
    rw [Function.comp_apply, Store.releaseRow, hfree]
    by_cases hf : s.frees ids r = true
    · rw [hf, Bool.true_and] at hand
      rw [hf, Bool.true_or] at hor
      rw [hand, Store.releaseRow, if_pos hf, Store.releaseRow, if_pos hor]
      rfl
    · rw [Bool.not_eq_true] at hf
      rw [hf, Bool.false_or] at hor
      have hrow : s.releaseRow ids now r = r := by simp [Store.releaseRow, hf]
      rw [← hor, hrow, Store.releaseRow]
  show ({ s with
    tasks := (s.tasks.map (s.releaseRow ids now)).map ((s.release ids now).releaseRow ids' now)
    taskDeps := (s.taskDeps.filter fun e => !ids.contains e.2).filter fun e => !ids'.contains e.2 } : Store) = _
  rw [htasks, hdeps]
  rfl

/-- The freed rows of two releases are those of both at once. -/
theorem freed_append (ids ids' : List Int) (now : Int) :
    (s.freed (ids ++ ids')).Perm (s.freed ids ++ (s.release ids now).freed ids') := by
  have hsecond : (s.release ids now).freed ids' =
      (s.tasks.filter fun r => (s.release ids now).frees ids' (s.releaseRow ids now r)).map (·.id) := by
    rw [Store.freed]
    show ((s.tasks.map (s.releaseRow ids now)).filter _).map _ = _
    rw [List.filter_map, List.map_map]
    exact List.map_congr_left fun r _ => releaseRow_id ids r
  rw [hsecond, Store.freed, Store.freed, ← List.map_append]
  refine List.Perm.map _ ?_
  have hsplit := (List.filter_append_perm (s.frees ids) (s.tasks.filter (s.frees (ids ++ ids')))).symm
  refine hsplit.trans (List.Perm.of_eq ?_)
  rw [List.filter_filter, List.filter_filter]
  congr 1
  · refine List.filter_congr fun r _ => ?_
    obtain ⟨hor, _⟩ := frees_append ids ids' now r (s := s)
    rw [hor]
    cases s.frees ids r with
    | true => rfl
    | false => rfl
  · refine List.filter_congr fun r _ => ?_
    obtain ⟨hor, hand⟩ := frees_append ids ids' now r (s := s)
    rw [hor]
    cases hf : s.frees ids r with
    | true =>
      rw [hf, Bool.true_and] at hand
      simp [hand]
    | false => simp

end Commute

/-! ### One completion after the other -/

section Sorted

variable {skipTags : Bool} {now : Int}

/-- One completion without a next instance. -/
def Store.completeItem (s : Store) (skipTags : Bool) (now : Int) (item : TaskRecord × IoBudget) : Store :=
  (s.completeRow skipTags now item).release [item.1.id] now

/-- The history row of a completion, up to its row id. -/
def completedEntry (now : Int) (item : TaskRecord × IoBudget) (hid : Int) : TaskHistoryRow :=
  historyRow hid item.1 .completed item.2 (computeDurationMs now item.1) item.1.lastError now

/-- The history rows of several completions. -/
def Store.logItems (s : Store) (skipTags : Bool) (now : Int) (items : List (TaskRecord × IoBudget)) : Store :=
  s.logEach skipTags (completedEntry now) (·.1.id) items

/-- None of them fails. -/
def Store.ItemLogsOk (s : Store) (skipTags : Bool) (now : Int) (items : List (TaskRecord × IoBudget)) : Prop :=
  s.LogsOk skipTags (completedEntry now) (·.1.id) items

/-- The rows of several completed tasks. -/
def Store.finishRows (s : Store) (skipTags : Bool) (ids : List Int) : Store :=
  ids.foldl (fun s id => s.finishRow skipTags id) s

/-- No row among `ids` is blocked. -/
def Store.NoneBlocked (s : Store) (ids : List Int) : Prop := ∀ r ∈ s.tasks, r.id ∈ ids → r.status ≠ .blocked

/-- The history rows of the others do not see a completion. -/
private theorem logItems_after {items : List (TaskRecord × IoBudget)} {id : Int} (h : id ∉ items.map (·.1.id))
    (ids : List Int) (s : Store) :
    ((s.finishRow skipTags id).release ids now).logItems skipTags now items =
        ((s.logItems skipTags now items).finishRow skipTags id).release ids now ∧
      (((s.finishRow skipTags id).release ids now).ItemLogsOk skipTags now items ↔
        s.ItemLogsOk skipTags now items) := by
  have hne : ∀ item ∈ items, item.1.id ≠ id := by
    rintro item hitem rfl
    exact h (List.mem_map.2 ⟨item, hitem, rfl⟩)
  refine logEach_commute (c := fun s => (s.finishRow skipTags id).release ids now) (fun s item hitem => ?_)
    (fun s item hitem => ?_) s
  · show ((s.finishRow skipTags id).logTask skipTags (completedEntry now item) item.1.id).release ids now = _
    rw [logTask_finishRow (hne item hitem)]
  · exact logFails_finishRow (hne item hitem)

/-- Rows keep their id, and no row becomes blocked. -/
private theorem mem_finishRow {s : Store} {id : Int} {r : TaskRow} (hr : r ∈ (s.finishRow skipTags id).tasks) :
    ∃ r₀ ∈ s.tasks, r₀.id = r.id ∧ (r.status = .blocked → r₀.status = .blocked) := by
  rw [Store.finishRow] at hr
  split at hr
  · split at hr
    · exact ⟨r, List.mem_of_mem_filter hr, rfl, fun h => h⟩
    · exact ⟨r, List.mem_of_mem_filter hr, rfl, fun h => h⟩
  · obtain ⟨r₀, hr₀, rfl⟩ := List.mem_map.1 hr
    refine ⟨r₀, hr₀, ?_⟩
    split
    · exact ⟨rfl, by rintro ⟨⟩⟩
    · exact ⟨rfl, fun h => h⟩

private theorem mem_release {s : Store} {ids : List Int} {r : TaskRow} (hr : r ∈ (s.release ids now).tasks) :
    ∃ r₀ ∈ s.tasks, r₀.id = r.id ∧ (r.status = .blocked → r₀.status = .blocked) := by
  obtain ⟨r₀, hr₀, rfl⟩ := List.mem_map.1 hr
  refine ⟨r₀, hr₀, (releaseRow_id ids r₀).symm, ?_⟩
  split
  · exact fun h => absurd h (freeRow_status r₀)
  · exact fun h => h

private theorem Store.NoneBlocked.finishRow {s : Store} {ids : List Int} (h : s.NoneBlocked ids) (id : Int) :
    (s.finishRow skipTags id).NoneBlocked ids := by
  intro r hr hid hb
  obtain ⟨r₀, hr₀, hid₀, hst⟩ := mem_finishRow hr
  exact h r₀ hr₀ (hid₀ ▸ hid) (hst hb)

theorem Store.NoneBlocked.release {s : Store} {ids : List Int} (h : s.NoneBlocked ids) (done : List Int) :
    (s.release done now).NoneBlocked ids := by
  intro r hr hid hb
  obtain ⟨r₀, hr₀, hid₀, hst⟩ := mem_release hr
  exact h r₀ hr₀ (hid₀ ▸ hid) (hst hb)

private theorem finishRows_release (ids done : List Int) {s : Store} (h : s.NoneBlocked ids) :
    (s.release done now).finishRows skipTags ids = (s.finishRows skipTags ids).release done now := by
  induction ids generalizing s with
  | nil => rfl
  | cons id ids ih =>
    have hone : (s.release done now).finishRow skipTags id = (s.finishRow skipTags id).release done now :=
      finishRow_release fun r hr hid => h r hr (by rw [hid]; exact List.mem_cons_self ..)
    show ((s.release done now).finishRow skipTags id).finishRows skipTags ids = _
    rw [hone]
    refine ih fun r hr hid => ?_
    exact h.finishRow id r hr (List.mem_cons_of_mem _ hid)

theorem release_nil (s : Store) : s.release [] now = s := by
  have htasks : (s.tasks.map fun r => if s.frees [] r then s.freeRow now r else r) = s.tasks := by
    conv_rhs => rw [← List.map_id s.tasks]
    refine List.map_congr_left fun r _ => ?_
    have : s.frees [] r = false := by
      rw [← Bool.not_eq_true, Store.frees_iff]
      rintro ⟨_, ⟨e, _, _, hin⟩, _⟩
      cases hin
    simp [this]
  have hdeps : (s.taskDeps.filter fun e => !([] : List Int).contains e.2) = s.taskDeps := by
    rw [List.filter_eq_self]
    simp
  rw [Store.release, htasks, hdeps]

/-- Completions one after the other, sorted by kind: the history rows, the rows, the dependents. -/
theorem foldl_completeItem {items : List (TaskRecord × IoBudget)} (hn : (items.map (·.1.id)).Nodup) {s : Store}
    (hb : s.NoneBlocked (items.map (·.1.id))) :
    items.foldl (fun s item => s.completeItem skipTags now item) s =
      ((s.logItems skipTags now items).finishRows skipTags (items.map (·.1.id))).release
        (items.map (·.1.id)) now := by
  induction items generalizing s with
  | nil => exact (release_nil s).symm
  | cons item items ih =>
    rw [List.map_cons, List.nodup_cons] at hn
    have hlog : (s.logCompleted skipTags now item).NoneBlocked (items.map (·.1.id)) :=
      fun r hr hid => hb r hr (List.mem_cons_of_mem _ hid)
    have hrest : (s.completeItem skipTags now item).NoneBlocked (items.map (·.1.id)) :=
      (hlog.finishRow item.1.id).release [item.1.id]
    have hrow : ((s.logItems skipTags now (item :: items)).finishRow skipTags item.1.id).NoneBlocked
        (items.map (·.1.id)) := by
      refine Store.NoneBlocked.finishRow (fun r hr hid => ?_) item.1.id
      rw [Store.logItems, logEach_tasks] at hr
      exact hb r hr (List.mem_cons_of_mem _ hid)
    calc (item :: items).foldl (fun s item => s.completeItem skipTags now item) s
        = (((s.completeItem skipTags now item).logItems skipTags now items).finishRows skipTags
            (items.map (·.1.id))).release (items.map (·.1.id)) now := ih hn.2 hrest
      _ = ((((s.logItems skipTags now (item :: items)).finishRow skipTags item.1.id).release [item.1.id]
        now).finishRows
            skipTags (items.map (·.1.id))).release (items.map (·.1.id)) now := by
          rw [Store.completeItem, Store.completeRow, (logItems_after hn.1 _ _).1]
          rfl
      _ = ((((s.logItems skipTags now (item :: items)).finishRow skipTags item.1.id).finishRows skipTags
            (items.map (·.1.id))).release [item.1.id] now).release (items.map (·.1.id)) now := by
          rw [finishRows_release _ _ hrow]
      _ = _ := release_release [item.1.id] (items.map (·.1.id))

/-- Rows that are not blocked are not freed, so it does not matter when they are finished. -/
private theorem freed_finishRow {s : Store} {id : Int} (hb : s.NoneBlocked [id]) (ids : List Int) :
    (s.finishRow skipTags id).freed ids = s.freed ids := by
  have hnot : ∀ r ∈ s.tasks, r.id = id → s.frees ids r = false := by
    intro r hr hid
    rw [← Bool.not_eq_true, Store.frees_iff]
    exact fun h => hb r hr (by simp [hid]) h.1
  have hdelete : ((s.tasks.filter fun r => !(r.id == id && !r.requeue)).filter (s.frees ids)).map (·.id) =
      s.freed ids := by
    rw [Store.freed, List.filter_filter]
    refine congrArg _ (List.filter_congr fun r hr => ?_)
    by_cases hid : r.id = id
    · simp [hnot r hr hid]
    · simp [hid]
  rw [Store.finishRow]
  split
  · split
    · exact hdelete
    · exact hdelete
  · show ((s.tasks.map fun r => if r.id == id then TaskRow.resetRequeued s.nextInst r else r).filter
      (s.frees ids)).map (·.id) = s.freed ids
    rw [Store.freed, List.filter_map, List.map_map]
    have hsel : s.tasks.filter (s.frees ids ∘ fun r => if r.id == id then TaskRow.resetRequeued s.nextInst r else r) =
        s.tasks.filter (s.frees ids) := by
      refine List.filter_congr fun r hr => ?_
      by_cases hid : r.id = id
      · have hreset : s.frees ids (TaskRow.resetRequeued s.nextInst r) = false := by
          rw [← Bool.not_eq_true, Store.frees_iff]
          rintro ⟨⟨⟩, _⟩
        simp [hid, hreset, hnot r hr hid]
      · simp [hid]
    rw [hsel]
    refine List.map_congr_left fun r _ => ?_
    simp only [Function.comp_apply]
    split
    · rfl
    · rfl

private theorem freed_finishRows {ids : List Int} {s : Store} (hb : s.NoneBlocked ids) (done : List Int) :
    (s.finishRows skipTags ids).freed done = s.freed done := by
  induction ids generalizing s with
  | nil => rfl
  | cons id ids ih =>
    have hone : s.NoneBlocked [id] := by
      intro r hr hid
      rw [List.mem_singleton] at hid
      exact hb r hr (by rw [hid]; exact List.mem_cons_self ..)
    have hrest : (s.finishRow skipTags id).NoneBlocked ids :=
      fun r hr hid => Store.NoneBlocked.finishRow hb id r hr (List.mem_cons_of_mem _ hid)
    exact (ih hrest).trans (freed_finishRow hone done)

private theorem freed_logItems (items : List (TaskRecord × IoBudget)) (done : List Int) (s : Store) :
    (s.logItems skipTags now items).freed done = s.freed done := by
  have hfrees : (s.logItems skipTags now items).frees done = s.frees done := by
    funext r
    rw [Store.frees, Store.logItems, logEach_taskDeps, ← Store.frees]
  rw [Store.freed, hfrees, Store.logItems, logEach_tasks]
  rfl

/-- The ids that completions one after the other report as unblocked. -/
def Store.freedByItems (skipTags : Bool) (now : Int) : List (TaskRecord × IoBudget) → Store → List (List Int)
  | [], _ => []
  | item :: items, s =>
    (s.completeRow skipTags now item).freed [item.1.id] ::
      freedByItems skipTags now items (s.completeItem skipTags now item)

/-- Together they are the rows freed at once. -/
theorem freedByItems_perm {items : List (TaskRecord × IoBudget)} {s : Store}
    (hb : s.NoneBlocked (items.map (·.1.id))) :
    (Store.freedByItems skipTags now items s).flatten.Perm (s.freed (items.map (·.1.id))) := by
  induction items generalizing s with
  | nil =>
    have : s.freed [] = [] := by
      rw [Store.freed, List.map_eq_nil_iff, List.filter_eq_nil_iff]
      intro r _ hf
      obtain ⟨_, ⟨e, _, _, hin⟩, _⟩ := Store.frees_iff.1 hf
      cases hin
    rw [List.map_nil, this]
    exact List.Perm.refl _
  | cons item items ih =>
    have hlog : (s.logCompleted skipTags now item).NoneBlocked ((item :: items).map (·.1.id)) := hb
    have hone : (s.logCompleted skipTags now item).NoneBlocked [item.1.id] := by
      intro r hr hid
      rw [List.mem_singleton] at hid
      exact hb r hr (by rw [hid]; exact List.mem_cons_self ..)
    have hrow : ∀ done, (s.completeRow skipTags now item).freed done = s.freed done := fun done =>
      freed_finishRow hone done
    have hrest : (s.completeItem skipTags now item).NoneBlocked (items.map (·.1.id)) := fun r hr hid =>
      (hlog.finishRow item.1.id).release [item.1.id] r hr (List.mem_cons_of_mem _ hid)
    rw [Store.freedByItems, List.flatten_cons, List.map_cons, ← hrow]
    have hboth := freed_append (s := s.completeRow skipTags now item) [item.1.id] (items.map (·.1.id)) now
    refine List.Perm.trans ?_ hboth.symm
    exact (ih hrest).append_left _

end Sorted

/-! ### The batched statements -/

section Batched

variable {skipTags : Bool} {now : Int}

/-- The ids that step 2 deletes. -/
def Store.deletedBy (s : Store) (ids : List Int) : List Int :=
  (s.tasks.filter fun r => ids.contains r.id && !r.requeue).map (·.id)

/-- Steps 2 to 4 of the batched path. -/
def Store.finishBatch (s : Store) (skipTags : Bool) (ids : List Int) : Store :=
  ((ids.filter fun id => !(s.deletedBy ids).contains id).foldl Store.resetRequeued
    (s.deleteTasks fun r => ids.contains r.id && !r.requeue)).withTags
    (if skipTags then s.taskTags else s.taskTags.filter fun t => !(s.deletedBy ids).contains t.1)

private theorem mem_deletedBy {s : Store} {ids : List Int} {i : Int} :
    i ∈ s.deletedBy ids ↔ i ∈ ids ∧ s.deletable i = true := by
  simp only [Store.deletedBy, Store.deletable, List.mem_map, List.mem_filter, Bool.and_eq_true, List.contains_iff_mem,
    List.any_eq_true, beq_iff_eq]
  constructor
  · rintro ⟨r, ⟨hr, hin, hq⟩, rfl⟩
    exact ⟨hin, r, hr, rfl, hq⟩
  · rintro ⟨hin, r, hr, rfl, hq⟩
    exact ⟨r, ⟨hr, hin, hq⟩, rfl⟩

private theorem foldl_resetRequeued_withTags (ids : List Int) (s : Store) (tt : List (Int × String × String)) :
    ids.foldl Store.resetRequeued (s.withTags tt) = (ids.foldl Store.resetRequeued s).withTags tt := by
  induction ids generalizing s with
  | nil => rfl
  | cons id ids ih => exact ih (s.resetRequeued id)

/-- Finishing one task does not change which of the others are deleted. -/
private theorem deletable_finishRow {s : Store} {id i : Int} (h : i ≠ id) :
    (s.finishRow skipTags id).deletable i = s.deletable i := by
  have hdelete : ((s.tasks.filter fun r => !(r.id == id && !r.requeue)).any fun r => r.id == i && !r.requeue) =
      s.deletable i := by
    rw [Store.deletable, List.any_filter]
    refine congrArg (s.tasks.any ·) (funext fun r => ?_)
    by_cases hr : r.id = i
    · simp [hr, h]
    · simp [hr]
  rw [Store.finishRow]
  split
  · split
    · exact hdelete
    · exact hdelete
  · show ((s.tasks.map fun r => if r.id == id then TaskRow.resetRequeued s.nextInst r else r).any
      fun r => r.id == i && !r.requeue) = s.deletable i
    rw [Store.deletable, List.any_map]
    refine congrArg (s.tasks.any ·) (funext fun r => ?_)
    simp only [Function.comp_apply]
    split
    · rename_i hr
      have hr' : r.id = id := by simpa using hr
      have hreset : (TaskRow.resetRequeued s.nextInst r).id = r.id := rfl
      have hne : (id == i) = false := by simpa using fun he => h he.symm
      rw [hreset, hr', hne, Bool.false_and, Bool.false_and]
    · rfl

private theorem deletedBy_finishRow {s : Store} {id : Int} {ids : List Int} (hid : id ∉ ids) {i : Int} :
    i ∈ (s.finishRow skipTags id).deletedBy ids ↔ i ∈ ids ∧ s.deletable i = true := by
  rw [mem_deletedBy]
  refine and_congr_right fun hi => ?_
  have hne : i ≠ id := by
    rintro rfl
    exact hid hi
  rw [deletable_finishRow hne]

/-- The first task of a batch can be finished before the others. -/
private theorem finishBatch_cons {id : Int} {ids : List Int} (hid : id ∉ ids) (s : Store) :
    s.finishBatch skipTags (id :: ids) = (s.finishRow skipTags id).finishBatch skipTags ids := by
  have hrest : ids.filter (fun i => !(s.deletedBy (id :: ids)).contains i) =
      ids.filter fun i => !((s.finishRow skipTags id).deletedBy ids).contains i := by
    refine List.filter_congr fun i hi => congrArg _ ?_
    rw [Bool.eq_iff_iff, List.contains_iff_mem, List.contains_iff_mem, mem_deletedBy, deletedBy_finishRow hid]
    simp [hi]
  rw [Store.finishBatch, Store.finishBatch, ← hrest]
  by_cases hd : s.deletable id = true
  · have hin : id ∈ s.deletedBy (id :: ids) := mem_deletedBy.2 ⟨List.mem_cons_self .., hd⟩
    have hhead : (id :: ids).filter (fun i => !(s.deletedBy (id :: ids)).contains i) =
        ids.filter fun i => !(s.deletedBy (id :: ids)).contains i :=
      List.filter_cons_of_neg (by simp [hin])
    have hfin : s.finishRow skipTags id = (s.deleteTasks fun r => r.id == id && !r.requeue).withTags
        (if skipTags then s.taskTags else s.taskTags.filter fun t => !(t.1 == id)) := by
      rw [Store.finishRow, if_pos hd]
      cases skipTags with
      | true => rfl
      | false => rfl
    have hdelete : (s.deleteTasks fun r => r.id == id && !r.requeue).deleteTasks
      (fun r => ids.contains r.id && !r.requeue) =
        s.deleteTasks fun r => (id :: ids).contains r.id && !r.requeue := by
      have htasks : (s.tasks.filter fun r => !(r.id == id && !r.requeue)).filter
          (fun r => !(ids.contains r.id && !r.requeue)) =
          s.tasks.filter fun r => !((id :: ids).contains r.id && !r.requeue) := by
        rw [List.filter_filter]
        refine List.filter_congr fun r _ => ?_
        rw [List.contains_cons]
        cases r.requeue with
        | true => simp
        | false => simp [Bool.and_comm]
      rw [Store.deleteTasks, Store.deleteTasks_tasks, htasks]
      rfl
    have htags : (if skipTags then s.taskTags else s.taskTags.filter fun t =>
      !(s.deletedBy (id :: ids)).contains t.1) =
        if skipTags then (s.finishRow skipTags id).taskTags
        else (s.finishRow skipTags id).taskTags.filter fun t =>
            !((s.finishRow skipTags id).deletedBy ids).contains t.1 := by
      cases skipTags with
      | true =>
        rw [hfin]
        rfl
      | false =>
        have htt : (s.finishRow false id).taskTags = s.taskTags.filter fun t => !(t.1 == id) := by
          rw [hfin]
          rfl
        simp only [Bool.false_eq_true, if_false]
        rw [htt, List.filter_filter]
        refine List.filter_congr fun t _ => ?_
        rw [Bool.eq_iff_iff]
        simp only [Bool.and_eq_true, Bool.not_eq_true', ← Bool.not_eq_true, List.contains_iff_mem, mem_deletedBy,
          deletedBy_finishRow hid, List.mem_cons, beq_iff_eq]
        constructor
        · intro h
          exact ⟨fun ht => h ⟨.inr ht.1, ht.2⟩, fun ht => h ⟨.inl ht, ht ▸ hd⟩⟩
        · rintro ⟨h₁, h₂⟩ ⟨h | h, hdel⟩
          · exact h₂ h
          · exact h₁ ⟨h, hdel⟩
    rw [hhead, htags, hfin]
    show _ = Store.withTags (List.foldl Store.resetRequeued
      (((s.deleteTasks fun r => r.id == id && !r.requeue).deleteTasks
      fun r => ids.contains r.id && !r.requeue).withTags _) _) _
    rw [foldl_resetRequeued_withTags, hdelete]
    rfl
  · have hout : id ∉ s.deletedBy (id :: ids) := fun h => hd (mem_deletedBy.1 h).2
    have hhead : (id :: ids).filter (fun i => !(s.deletedBy (id :: ids)).contains i) =
        id :: ids.filter fun i => !(s.deletedBy (id :: ids)).contains i :=
      List.filter_cons_of_pos (by simp [hout])
    have hfin : s.finishRow skipTags id = s.resetRequeued id := by rw [Store.finishRow, if_neg hd]
    -- rows with this id are all to be requeued, so they stay
    have hkeep : ∀ r ∈ s.tasks, r.id = id → r.requeue = true := by
      intro r hr hrid
      by_contra hq
      exact hd (List.any_eq_true.2 ⟨r, hr, by simp [hrid, Bool.eq_false_of_not_eq_true hq]⟩)
    have hsel : ∀ r ∈ s.tasks, (!((id :: ids).contains r.id && !r.requeue)) = !(ids.contains r.id && !r.requeue) := by
      intro r hr
      by_cases hrid : r.id = id
      · simp [hkeep r hr hrid]
      · simp [hrid]
    have htasks : (s.tasks.filter fun r => !((id :: ids).contains r.id && !r.requeue)).map
        (fun r => if r.id == id then TaskRow.resetRequeued s.nextInst r else r) =
        (s.tasks.map fun r => if r.id == id then TaskRow.resetRequeued s.nextInst r else r).filter
          fun r => !(ids.contains r.id && !r.requeue) := by
      rw [List.filter_map]
      refine congrArg _ (List.filter_congr fun r hr => ?_)
      rw [hsel r hr, Function.comp_apply]
      by_cases hrid : r.id = id
      · have hreset : (TaskRow.resetRequeued s.nextInst r).id = r.id := rfl
        simp [hrid, hreset, hid]
      · simp [hrid]
    have hids : (s.deleteTasks fun r => (id :: ids).contains r.id && !r.requeue).ids.contains id =
        s.ids.contains id := by
      rw [Bool.eq_iff_iff, List.contains_iff_mem, List.contains_iff_mem]
      constructor
      · intro h
        obtain ⟨r, hr, hrid⟩ := List.mem_map.1 h
        exact List.mem_map.2 ⟨r, List.mem_of_mem_filter hr, hrid⟩
      · intro h
        obtain ⟨r, hr, hrid⟩ := List.mem_map.1 h
        exact List.mem_map.2 ⟨r, List.mem_filter.2 ⟨hr, by simp [hkeep r hr hrid]⟩, hrid⟩
    have hreset : (s.deleteTasks fun r => (id :: ids).contains r.id && !r.requeue).resetRequeued id =
        (s.resetRequeued id).deleteTasks fun r => ids.contains r.id && !r.requeue := by
      rw [Store.resetRequeued, hids, Store.updateTasks, Store.deleteTasks_tasks]
      show ({ s with
        tasks := (s.tasks.filter fun r => !((id :: ids).contains r.id && !r.requeue)).map
          fun r => if r.id == id then TaskRow.resetRequeued s.nextInst r else r
        nextInst := if s.ids.contains id then s.nextInst + 1 else s.nextInst } : Store) = _
      rw [htasks]
      rfl
    have htags : (s.taskTags.filter fun t => !(s.deletedBy (id :: ids)).contains t.1) =
        s.taskTags.filter fun t => !((s.resetRequeued id).deletedBy ids).contains t.1 := by
      refine List.filter_congr fun t _ => congrArg _ ?_
      rw [Bool.eq_iff_iff, List.contains_iff_mem, List.contains_iff_mem, mem_deletedBy, ← hfin,
        deletedBy_finishRow hid]
      constructor
      · rintro ⟨h, hdel⟩
        rcases List.mem_cons.1 h with h | h
        · rw [h] at hdel
          exact absurd hdel hd
        · exact ⟨h, hdel⟩
      · rintro ⟨h, hdel⟩
        exact ⟨List.mem_cons_of_mem _ h, hdel⟩
    rw [hhead, List.foldl_cons, hreset, htags, hfin]
    rfl

/-- The batched statements finish the rows one by one. -/
theorem finishBatch_eq {ids : List Int} (hn : ids.Nodup) (s : Store) :
    s.finishBatch skipTags ids = s.finishRows skipTags ids := by
  induction ids generalizing s with
  | nil =>
    have hdel : s.deletedBy [] = [] := by
      rw [Store.deletedBy, List.map_eq_nil_iff, List.filter_eq_nil_iff]
      simp
    have htasks : (s.deleteTasks fun r => ([] : List Int).contains r.id && !r.requeue) = s :=
      Store.deleteTasks_eq_self fun r _ => rfl
    rw [Store.finishBatch, htasks, hdel]
    have htags : (s.taskTags.filter fun t => !([] : List Int).contains t.1) = s.taskTags := by
      rw [List.filter_eq_self]
      simp
    rw [htags, ite_self]
    rfl
  | cons id ids ih =>
    rw [List.nodup_cons] at hn
    rw [finishBatch_cons hn.1, ih hn.2]
    rfl

end Batched

/-! ### Completions without a next instance -/

section Plain

variable {skipTags : Bool} {now : Int}

theorem ids_finishRow (s : Store) (id : Int) : (s.finishRow skipTags id).ids.Sublist s.ids := by
  rw [Store.finishRow]
  split
  · split
    · exact List.Sublist.map _ (List.filter_sublist ..)
    · exact List.Sublist.map _ (List.filter_sublist ..)
  · rw [show (s.resetRequeued id).ids = s.ids from s.ids_updateTasks _ fun _ => rfl]

private theorem ids_finishRows (ids : List Int) (s : Store) : (s.finishRows skipTags ids).ids.Sublist s.ids := by
  induction ids generalizing s with
  | nil => exact List.Sublist.refl _
  | cons id ids ih => exact (ih (s.finishRow skipTags id)).trans (ids_finishRow s id)

private theorem ids_release (s : Store) (ids : List Int) : (s.release ids now).ids = s.ids := by
  show (s.tasks.map (s.releaseRow ids now)).map (·.id) = _
  rw [List.map_map]
  exact List.map_congr_left fun r _ => releaseRow_id ids r

private theorem recurs_none {task : TaskRecord} (h : task.recurringIntervalSecs = none) : task.recurs = none := by
  rw [TaskRecord.recurs, h]

theorem completeAndResolve_plain {item : TaskRecord × IoBudget} {s : Store} (hids : s.ids.Nodup)
    (hrec : item.1.recurringIntervalSecs = none) (hlog : ¬ s.LogFails skipTags item.1.id) :
    completeAndResolve skipTags now item s =
      (.ok (item.1.id, none, (s.completeRow skipTags now item).freed [item.1.id]),
        s.completeItem skipTags now item) := by
  have hinner : completeInner item.1 item.2 skipTags now s = (.ok none, s.completeRow skipTags now item) := by
    rw [completeInner_apply _ _ _ _ _ hlog, recurs_none hrec]
  have hids' : (s.completeRow skipTags now item).ids.Nodup := hids.sublist (ids_finishRow _ _)
  rw [completeAndResolve, Txn.bind_of_ok hinner, Txn.bind_of_ok (resolveDependentsInner_apply hids' _ _)]
  rfl

/-- A loop of completions without next instances. -/
theorem mapList_completeAndResolve (items : List (TaskRecord × IoBudget)) {s : Store} (hids : s.ids.Nodup)
    (hrec : ∀ item ∈ items, item.1.recurringIntervalSecs = none) (hn : (items.map (·.1.id)).Nodup) :
    (s.ItemLogsOk skipTags now items →
      ∃ results, Txn.mapList (completeAndResolve skipTags now) items s =
          (.ok results, items.foldl (fun s item => s.completeItem skipTags now item) s) ∧
        results.map (·.2.2) = Store.freedByItems skipTags now items s) ∧
    (¬ s.ItemLogsOk skipTags now items →
      ∃ e s', Txn.mapList (completeAndResolve skipTags now) items s = (.error e, s')) := by
  induction items generalizing s with
  | nil => exact ⟨fun _ => ⟨[], rfl, rfl⟩, fun h => absurd trivial h⟩
  | cons item items ih =>
    rw [List.map_cons, List.nodup_cons] at hn
    have hhead := hrec item (List.mem_cons_self ..)
    have hids' : (s.completeItem skipTags now item).ids.Nodup := by
      rw [Store.completeItem, ids_release]
      exact hids.sublist (ids_finishRow _ _)
    obtain ⟨ihok, iherr⟩ := ih hids' (fun i hi => hrec i (List.mem_cons_of_mem _ hi)) hn.2
    have hlogs : (s.completeItem skipTags now item).ItemLogsOk skipTags now items ↔
        (s.logCompleted skipTags now item).ItemLogsOk skipTags now items := (logItems_after hn.1 _ _).2
    constructor
    · rintro ⟨h₁, h₂⟩
      obtain ⟨results, hm, hres⟩ := ihok (hlogs.2 h₂)
      refine ⟨(item.1.id, none, (s.completeRow skipTags now item).freed [item.1.id]) :: results, ?_, ?_⟩
      · rw [Txn.mapList, Txn.bind_of_ok (completeAndResolve_plain hids hhead h₁), Txn.bind_of_ok hm]
        rfl
      · rw [List.map_cons, hres]
        rfl
    · intro h
      by_cases hf : s.LogFails skipTags item.1.id
      · obtain ⟨e, s', he⟩ : ∃ e s', completeAndResolve skipTags now item s = (.error e, s') :=
          completeAndResolve_fails_iff.2 (.inl hf)
        exact ⟨e, s', Txn.bind_of_error he⟩
      · obtain ⟨e, s', he⟩ := iherr fun hrest => h ⟨hf, hlogs.1 hrest⟩
        refine ⟨e, s', ?_⟩
        rw [Txn.mapList, Txn.bind_of_ok (completeAndResolve_plain hids hhead hf)]
        exact Txn.bind_of_error he

private theorem taskTags_foldl_resetRequeued (ids : List Int) (s : Store) :
    (ids.foldl Store.resetRequeued s).taskTags = s.taskTags := by
  induction ids generalizing s with
  | nil => rfl
  | cons id ids ih => exact ih (s.resetRequeued id)

/-- Steps 2 to 4 of the batched path. -/
private theorem finishBatch_apply (skipTags : Bool) {ids : List Int} (hn : ids.Nodup) (s : Store) :
    (if skipTags || (s.deletedBy ids).isEmpty then
        (ids.filter fun id => !(s.deletedBy ids).contains id).foldl Store.resetRequeued
          (s.deleteTasks fun r => ids.contains r.id && !r.requeue)
      else { (ids.filter fun id => !(s.deletedBy ids).contains id).foldl Store.resetRequeued
          (s.deleteTasks fun r => ids.contains r.id && !r.requeue) with
        taskTags := ((ids.filter fun id => !(s.deletedBy ids).contains id).foldl Store.resetRequeued
          (s.deleteTasks fun r => ids.contains r.id && !r.requeue)).taskTags.filter fun t =>
            !(s.deletedBy ids).contains t.1 }) = s.finishRows skipTags ids := by
  have htags := taskTags_foldl_resetRequeued (ids.filter fun id => !(s.deletedBy ids).contains id)
    (s.deleteTasks fun r => ids.contains r.id && !r.requeue)
  rw [← finishBatch_eq hn, Store.finishBatch]
  generalize (ids.filter fun id => !(s.deletedBy ids).contains id).foldl Store.resetRequeued
    (s.deleteTasks fun r => ids.contains r.id && !r.requeue) = t at htags
  have htags' : t.taskTags = s.taskTags := htags
  rw [htags']
  cases skipTags with
  | true =>
    simp only [Bool.true_or, if_true]
    rw [← htags']
    rfl
  | false =>
    simp only [Bool.false_or, Bool.false_eq_true, if_false]
    split
    · rename_i hempty
      rw [List.isEmpty_iff] at hempty
      have hall : (s.taskTags.filter fun x => !(s.deletedBy ids).contains x.1) = s.taskTags := by
        rw [List.filter_eq_self, hempty]
        simp
      rw [hall, ← htags']
      rfl
    · rfl

/-- The batched path in closed form. -/
theorem completeBatchFast_apply {items : List (TaskRecord × IoBudget)} {s : Store} (hids : s.ids.Nodup)
    (hn : (items.map (·.1.id)).Nodup) (hb : s.NoneBlocked (items.map (·.1.id))) :
    (s.ItemLogsOk skipTags now items →
      completeBatchFast skipTags now items s = (.ok (s.freed (items.map (·.1.id))),
        ((s.logItems skipTags now items).finishRows skipTags (items.map (·.1.id))).release
          (items.map (·.1.id)) now)) ∧
    (¬ s.ItemLogsOk skipTags now items → ∃ e s', completeBatchFast skipTags now items s = (.error e, s')) := by
  have hlogs : (s.ItemLogsOk skipTags now items →
      ∃ us, Txn.mapList (insertCompleted skipTags now) items s = (.ok us, s.logItems skipTags now items)) ∧
      (¬ s.ItemLogsOk skipTags now items →
          ∃ e s', Txn.mapList (insertCompleted skipTags now) items s = (.error e, s')) := by
    have hone : ∀ (item : TaskRecord × IoBudget) (s : Store), ¬ s.LogFails skipTags item.1.id →
        insertCompleted skipTags now item s = (.ok (), s.logTask skipTags (completedEntry now item) item.1.id) :=
      fun item s hf => insertHistory_logs hf ..
    have hfail : ∀ (item : TaskRecord × IoBudget) (s : Store), s.LogFails skipTags item.1.id →
        ∃ e s', insertCompleted skipTags now item s = (.error e, s') := by
      intro item s hf
      obtain ⟨s', h⟩ := insertHistory_fails hf .completed item.2 (computeDurationMs now item.1) item.1.lastError now
      exact ⟨_, s', h⟩
    exact mapList_logs hone hfail items s
  constructor
  · intro h
    obtain ⟨us, hus⟩ := hlogs.1 h
    have htail := finishBatch_apply skipTags hn (s.logItems skipTags now items)
    have hnodup : ((s.logItems skipTags now items).finishRows skipTags (items.map (·.1.id))).ids.Nodup := by
      refine List.Nodup.sublist (ids_finishRows _ _) ?_
      rwa [Store.ids, Store.logItems, logEach_tasks]
    have hb' : (s.logItems skipTags now items).NoneBlocked (items.map (·.1.id)) := by
      intro r hr
      rw [Store.logItems, logEach_tasks] at hr
      exact hb r hr
    have hrel := releaseTail_apply hnodup (items.map (·.1.id)) now
    rw [freed_finishRows hb', freed_logItems] at hrel
    rw [completeBatchFast, Txn.bind_of_ok hus, ← hrel, ← htail]
    rfl
  · intro h
    obtain ⟨e, s', he⟩ := hlogs.2 h
    exact ⟨e, s', Txn.bind_of_error he⟩

end Plain

end Taskmill
