import Taskmill.Schema
import Taskmill.Transact.Zoom

/-!
# The expiry sweep

`expire_tasks` selects rows once and then removes each of them with its pending and paused children.  The rows of
the selection are not read again: a selected child that comes after its selected parent is gone when its turn comes,
but it is logged and reported a second time.

`Store.Expires` is what the statements of a sweep do to the tables, `sweepRows` the rows they report, and
`expire_tasks_iff` says when these are the rows that are gone, each once.
-/

namespace Taskmill

open Transact

/-! ### What is removed -/

/-- The children that expire with a row. -/
def TaskRow.hasChild (parent child : TaskRow) : Bool := child.parentId == some parent.id && child.pendingOrPaused

/-- The row is selected, or it is a pending or paused child of a selected one. -/
def Store.swept (s : Store) (now : Int) (r : TaskRow) : Bool :=
  (s.expiredRows now).any fun row => row.id == r.id || row.hasChild r

/-- The history row of an expired task, up to its row id. -/
def expiredEntry (now : Int) (row : TaskRow) : TaskHistoryRow :=
  historyRow 0 (rowToTaskRecord row) .expired {} none none now

/-- Every task that has expired is removed, logged and reported once, and nothing else is removed. -/
structure Store.SweptOnce (s : Store) (now : Int) (expired : List TaskRecord) (s' : Store) : Prop where
  nodup : (expired.map (·.id)).Nodup
  returned : ∀ id, id ∈ expired.map (·.id) ↔ id ∈ s.ids ∧ id ∉ s'.ids
  logged : ∃ entries, s'.taskHistory = s.taskHistory ++ entries ∧
    (entries.map fun h => { h with id := 0 }).Perm ((s.tasks.filter (s.swept now)).map (expiredEntry now))
  tasks : s'.tasks = s.tasks.filter fun r => !s.swept now r
  tags : s'.taskTags = s.taskTags.filter fun t => !(expired.map (·.id)).contains t.1
  edges : s'.taskDeps = s.taskDeps.filter fun e => !((s.expiredRows now).map (·.id)).contains e.1

/-- No selected row is a child of a selected row that comes before it, or of itself. -/
def Store.ChildrenFirst (s : Store) (now : Int) : Prop :=
  (s.expiredRows now).Pairwise (fun row later => row.hasChild later = false) ∧
    ∀ row ∈ s.expiredRows now, row.hasChild row = false

instance (s : Store) (now : Int) : Decidable (s.ChildrenFirst now) := inferInstanceAs (Decidable (_ ∧ _))

/-! ### The statements -/

/-- The rows `logged` have been logged as expired, the rows with the ids `gone` are deleted with their tags, and the
edges of `cleaned` are deleted. -/
structure Store.Expires (s : Store) (now : Int) (logged : List TaskRow) (gone cleaned : List Int)
    (s' : Store) : Prop where
  history : ∃ entries, s'.taskHistory = s.taskHistory ++ entries ∧
    (entries.map fun h => { h with id := 0 }) = logged.map (expiredEntry now)
  tasks : s'.tasks = s.tasks.filter fun r => !gone.contains r.id
  tags : s'.taskTags = s.taskTags.filter fun t => !gone.contains t.1
  edges : s'.taskDeps = s.taskDeps.filter fun e => !cleaned.contains e.1
  groups : s'.pausedGroups = s.pausedGroups

/-- Two deletions from a table, one after the other. -/
private theorem filter_not_append {α : Type} (xs : List α) (ids ids' : List Int) (key : α → Int) :
    ((xs.filter fun x => !ids.contains (key x)).filter fun x => !ids'.contains (key x)) =
      xs.filter fun x => !(ids ++ ids').contains (key x) := by
  rw [List.filter_filter]
  refine List.filter_congr fun x _ => ?_
  rw [List.contains_append, Bool.not_or, Bool.and_comm]

theorem filter_not_one {α : Type} (xs : List α) (id : Int) (key : α → Int) :
    (xs.filter fun x => !(key x == id)) = xs.filter fun x => !([id].contains (key x)) := by
  refine List.filter_congr fun x _ => ?_
  rw [List.contains_cons, List.contains_nil, Bool.or_false]

section Statements

variable {now : Int} {s s₁ s₂ : Store} {logged logged' : List TaskRow} {gone gone' cleaned cleaned' : List Int}

theorem Store.Expires.refl (s : Store) (now : Int) : s.Expires now [] [] [] s where
  history := ⟨[], by simp, rfl⟩
  tasks := by simp
  tags := by simp
  edges := by simp
  groups := rfl

theorem Store.Expires.trans (h : s.Expires now logged gone cleaned s₁)
    (h' : s₁.Expires now logged' gone' cleaned' s₂) :
    s.Expires now (logged ++ logged') (gone ++ gone') (cleaned ++ cleaned') s₂ where
  history := by
    obtain ⟨entries, hhist, hlog⟩ := h.history
    obtain ⟨entries', hhist', hlog'⟩ := h'.history
    refine ⟨entries ++ entries', ?_, ?_⟩
    · rw [hhist', hhist, List.append_assoc]
    · rw [List.map_append, hlog, hlog', List.map_append]
  tasks := by rw [h'.tasks, h.tasks, filter_not_append]
  tags := by rw [h'.tags, h.tags, filter_not_append]
  edges := by rw [h'.edges, h.edges, filter_not_append]
  groups := h'.groups.trans h.groups

/-- The history row of one expired task. -/
theorem Store.Expires.log {task : TaskRecord} {u : Unit}
    (h : insertHistory task .expired {} none none false now s = (.ok u, s₁)) :
    s.Expires now [task.toTaskRow] [] [] s₁ := by
  obtain ⟨tags, rfl⟩ := insertHistory_leaves h
  exact ⟨⟨[_], rfl, rfl⟩, by simp, by simp, by simp, rfl⟩

/-- A row and its tags are deleted. -/
theorem Store.Expires.delete (s : Store) (now id : Int) :
    s.Expires now [] [id] [] ((s.deleteTaskTags id).deleteTasks (·.id == id)) :=
  ⟨⟨[], by simp, rfl⟩, filter_not_one s.tasks id (·.id), filter_not_one s.taskTags id (·.1), by simp, rfl⟩

/-- The edges of a task are deleted. -/
theorem Store.Expires.clean (s : Store) (now id : Int) : s.Expires now [] [] [id] (s.deleteEdgesFrom id) :=
  ⟨⟨[], by simp, rfl⟩, by simp, by simp, filter_not_one s.taskDeps id (·.1), rfl⟩

theorem expireRow_expires {row : TaskRow} {task : TaskRecord} (h : expireRow row now s = (.ok task, s₁)) :
    task = { row with tags := s.tagsOf row.id } ∧ s.Expires now [row] [row.id] [] s₁ := by
  obtain ⟨s₀, _, h₀, h⟩ := Txn.bind_ok h
  cases h₀
  obtain ⟨_, s₂, h₁, h⟩ := Txn.bind_ok h
  obtain ⟨_, s₃, h₂, h⟩ := Txn.bind_ok h
  cases h
  cases h₂
  exact ⟨rfl, (Store.Expires.log h₁).trans (.delete s₂ now row.id)⟩

/-- The children of one row. -/
theorem expireRows_expires {children : List TaskRow} {expired : List TaskRecord}
    (h : Txn.mapList (expireRow · now) children s = (.ok expired, s₁)) :
    expired.map (·.toTaskRow) = children ∧ s.Expires now children (children.map (·.id)) [] s₁ := by
  induction children generalizing s expired with
  | nil =>
    cases h
    exact ⟨rfl, .refl _ now⟩
  | cons child children ih =>
    obtain ⟨task, s₂, h₁, h⟩ := Txn.bind_ok h
    obtain ⟨rest, s₃, h₂, h⟩ := Txn.bind_ok h
    cases h
    obtain ⟨rfl, hfirst⟩ := expireRow_expires h₁
    obtain ⟨hrows, hrest⟩ := ih h₂
    refine ⟨?_, hfirst.trans hrest⟩
    rw [List.map_cons, hrows]

/-- One round of the sweep: the row and its pending or paused children. -/
theorem expireWithChildren_expires {row : TaskRow} {expired : List TaskRecord}
    (h : expireWithChildren now row s = (.ok expired, s₁)) :
    expired.map (·.toTaskRow) = s.tasks.filter row.hasChild ++ [row] ∧
      s.Expires now (row :: s.tasks.filter row.hasChild) ((s.tasks.filter row.hasChild ++ [row]).map (·.id))
      [row.id] s₁ := by
  obtain ⟨s₀, _, h₀, h⟩ := Txn.bind_ok h
  cases h₀
  obtain ⟨_, s₂, h₁, h⟩ := Txn.bind_ok h
  obtain ⟨children, _, h₂, h⟩ := Txn.bind_ok h
  cases h₂
  obtain ⟨rest, s₃, h₃, h⟩ := Txn.bind_ok h
  obtain ⟨_, s₄, h₄, h⟩ := Txn.bind_ok h
  cases h
  cases h₄
  have hlog := Store.Expires.log h₁
  have hread : (s₂.tasks.filter fun r => r.parentId == some row.id && r.pendingOrPaused) =
      s.tasks.filter row.hasChild := by
    have htasks : s₂.tasks = s.tasks := by
      rw [hlog.tasks]
      simp
    rw [htasks]
    rfl
  dsimp only at h₃
  rw [hread] at h₃
  obtain ⟨hrows, hchildren⟩ := expireRows_expires h₃
  refine ⟨?_, ?_⟩
  · rw [List.map_append, hrows]
    rfl
  · have hall := ((hlog.trans hchildren).trans (.clean s₃ now row.id)).trans (.delete _ now row.id)
    simpa using hall

/-- The rows that the rounds for `rows` report when the table is `tasks`. -/
def sweepRows : List TaskRow → List TaskRow → List TaskRow
  | _, [] => []
  | tasks, row :: rows =>
    (tasks.filter row.hasChild ++ [row]) ++
      sweepRows (tasks.filter fun r => !((tasks.filter row.hasChild ++ [row]).map (·.id)).contains r.id) rows

/-- The rounds of the sweep: what is reported is logged, and its rows are deleted. -/
theorem sweep_expires {rows : List TaskRow} {expired : List (List TaskRecord)}
    (h : Txn.mapList (expireWithChildren now) rows s = (.ok expired, s₁)) :
    expired.flatten.map (·.toTaskRow) = sweepRows s.tasks rows ∧
      ∃ logged : List TaskRow, logged.Perm (sweepRows s.tasks rows) ∧
        s.Expires now logged ((sweepRows s.tasks rows).map (·.id)) (rows.map (·.id)) s₁ := by
  induction rows generalizing s expired with
  | nil =>
    cases h
    exact ⟨rfl, [], .refl _, .refl _ now⟩
  | cons row rows ih =>
    obtain ⟨first, s₂, h₁, h⟩ := Txn.bind_ok h
    obtain ⟨rest, s₃, h₂, h⟩ := Txn.bind_ok h
    cases h
    obtain ⟨hrow, hfirst⟩ := expireWithChildren_expires h₁
    obtain ⟨hrows, logged, hperm, hrest⟩ := ih h₂
    rw [hfirst.tasks] at hrows hperm hrest
    refine ⟨?_, (row :: s.tasks.filter row.hasChild) ++ logged, ?_, ?_⟩
    · rw [List.flatten_cons, List.map_append, hrow, hrows]
      rfl
    · exact ((List.perm_append_singleton row _).symm).append hperm
    · have hall := hfirst.trans hrest
      unfold sweepRows
      rw [List.map_append]
      exact hall

end Statements

/-! ### Which rows are reported -/

section Rows

variable {tasks rows : List TaskRow}

/-- The rows a round leaves. -/
private theorem mem_left {row r : TaskRow} (hids : (tasks.map (·.id)).Nodup) (hrow : row ∈ tasks) :
    r ∈ (tasks.filter fun r => !((tasks.filter row.hasChild ++ [row]).map (·.id)).contains r.id) ↔
      r ∈ tasks ∧ row.hasChild r = false ∧ r ≠ row := by
  rw [List.mem_filter, Bool.not_eq_true', ← Bool.not_eq_true, List.contains_iff_mem]
  refine and_congr_right fun hr => ?_
  have hmem : r.id ∈ (tasks.filter row.hasChild ++ [row]).map (·.id) ↔ row.hasChild r = true ∨ r = row := by
    rw [List.mem_map]
    constructor
    · rintro ⟨r', hr', hid⟩
      rcases List.mem_append.1 hr' with hr' | hr'
      · obtain ⟨hin, hchild⟩ := List.mem_filter.1 hr'
        exact .inl (List.inj_on_of_nodup_map hids hin hr hid ▸ hchild)
      · rw [List.mem_singleton.1 hr'] at hid
        exact .inr (List.inj_on_of_nodup_map hids hr hrow hid.symm)
    · rintro (hchild | rfl)
      · exact ⟨r, List.mem_append_left _ (List.mem_filter.2 ⟨hr, hchild⟩), rfl⟩
      · exact ⟨r, List.mem_append_right _ (List.mem_singleton_self r), rfl⟩
  rw [hmem, not_or, Bool.not_eq_true]

/-- Every selected row is reported in its own round. -/
theorem mem_sweepRows {r : TaskRow} (h : r ∈ rows) : r ∈ sweepRows tasks rows := by
  induction rows generalizing tasks with
  | nil => exact absurd h List.not_mem_nil
  | cons row rows ih =>
    unfold sweepRows
    rcases List.mem_cons.1 h with rfl | h
    · exact List.mem_append_left _ (List.mem_append_right _ (List.mem_singleton_self r))
    · exact List.mem_append_right _ (ih h)

/-- If no row is reported twice, then no selected row comes after its parent. -/
theorem childrenFirst_of_nodup (hids : (tasks.map (·.id)).Nodup) (hrows : rows.Nodup) (hsub : ∀ r ∈ rows, r ∈ tasks)
    (h : (sweepRows tasks rows).Nodup) :
    rows.Pairwise (fun row later => row.hasChild later = false) ∧ ∀ row ∈ rows, row.hasChild row = false := by
  induction rows generalizing tasks with
  | nil => exact ⟨.nil, fun _ h => absurd h List.not_mem_nil⟩
  | cons row rows ih =>
    unfold sweepRows at h
    rw [List.nodup_append] at h
    obtain ⟨hround, hrest, hdisjoint⟩ := h
    rw [List.nodup_cons] at hrows
    have hrow := hsub row (List.mem_cons_self ..)
    have hself : row.hasChild row = false := by
      rw [List.nodup_append] at hround
      rw [← Bool.not_eq_true]
      intro hchild
      exact hround.2.2 row (List.mem_filter.2 ⟨hrow, hchild⟩) row (List.mem_singleton_self row) rfl
    have hlater : ∀ r ∈ rows, row.hasChild r = false := by
      intro r hr
      rw [← Bool.not_eq_true]
      intro hchild
      have hin : r ∈ tasks.filter row.hasChild := List.mem_filter.2 ⟨hsub r (List.mem_cons_of_mem _ hr), hchild⟩
      exact hdisjoint r (List.mem_append_left _ hin) r (mem_sweepRows hr) rfl
    obtain ⟨hpairs, hselves⟩ := ih (hids.sublist (List.filter_sublist.map _)) hrows.2
      (fun r hr => (mem_left hids hrow).2
      ⟨hsub r (List.mem_cons_of_mem _ hr), hlater r hr, fun heq => hrows.1 (heq ▸ hr)⟩) hrest
    refine ⟨.cons hlater hpairs, ?_⟩
    rw [List.forall_mem_cons]
    exact ⟨hself, hselves⟩

/-- If no selected row comes after its parent, then every row is reported once, and it is selected or the child of a
selected row. -/
theorem sweepRows_of_childrenFirst (hids : (tasks.map (·.id)).Nodup) (hrows : rows.Nodup)
    (hsub : ∀ r ∈ rows, r ∈ tasks) (hpairs : rows.Pairwise fun row later => row.hasChild later = false)
    (hselves : ∀ row ∈ rows, row.hasChild row = false) :
    (sweepRows tasks rows).Nodup ∧
      ∀ r, r ∈ sweepRows tasks rows ↔ r ∈ tasks ∧ ∃ row ∈ rows, row = r ∨ row.hasChild r = true := by
  induction rows generalizing tasks with
  | nil =>
    refine ⟨List.nodup_nil, fun r => ?_⟩
    simp [sweepRows]
  | cons row rows ih =>
    rw [List.nodup_cons] at hrows
    rw [List.pairwise_cons] at hpairs
    have hrow := hsub row (List.mem_cons_self ..)
    obtain ⟨hnodup, hmem⟩ := ih (hids.sublist (List.filter_sublist.map _)) hrows.2 (fun r hr => (mem_left hids hrow).2
      ⟨hsub r (List.mem_cons_of_mem _ hr), hpairs.1 r hr, fun heq => hrows.1 (heq ▸ hr)⟩) hpairs.2
      fun r hr => hselves r (List.mem_cons_of_mem _ hr)
    unfold sweepRows
    refine ⟨?_, fun r => ?_⟩
    · rw [List.nodup_append, List.nodup_append]
      refine ⟨⟨hids.of_map.filter _, List.nodup_singleton row, ?_⟩, hnodup, ?_⟩
      · rintro r hr r' hr' rfl
        rw [List.mem_singleton.1 hr', List.mem_filter, hselves row (List.mem_cons_self ..)] at hr
        cases hr.2
      · rintro r hr r' hr' rfl
        obtain ⟨_, hchild, hne⟩ := (mem_left hids hrow).1 ((hmem r).1 hr').1
        rcases List.mem_append.1 hr with hr | hr
        · rw [(List.mem_filter.1 hr).2] at hchild
          cases hchild
        · exact hne (List.mem_singleton.1 hr)
    · rw [List.mem_append, List.mem_append, List.mem_filter, List.mem_singleton, hmem, mem_left hids hrow]
      constructor
      · rintro ((⟨hr, hchild⟩ | rfl) | ⟨⟨hr, _⟩, row', hrow', h⟩)
        · exact ⟨hr, row, List.mem_cons_self .., .inr hchild⟩
        · exact ⟨hrow, r, List.mem_cons_self .., .inl rfl⟩
        · exact ⟨hr, row', List.mem_cons_of_mem _ hrow', h⟩
      · rintro ⟨hr, row', hrow', h⟩
        by_cases hsame : r = row
        · exact .inl (.inr hsame)
        by_cases hchild : row.hasChild r = true
        · exact .inl (.inl ⟨hr, hchild⟩)
        rw [Bool.not_eq_true] at hchild
        refine .inr ⟨⟨hr, hchild, hsame⟩, row', ?_, h⟩
        refine (List.mem_cons.1 hrow').resolve_left fun heq => ?_
        rcases h with h | h
        · exact hsame (h.symm.trans heq)
        · rw [heq, hchild] at h
          cases h

end Rows

/-! ### The sweep -/

section Sweep

variable {now : Int} {s s' : Store}

/-- The selected rows are rows of the table, each once. -/
theorem expiredRows_rows (hs : s.Schema) (now : Int) :
    (s.expiredRows now).Nodup ∧ ∀ r ∈ s.expiredRows now, r ∈ s.tasks := by
  unfold Store.expiredRows
  have hperm := List.perm_insertionSort (fun a b : TaskRow => a.expiresAt.getD 0 ≤ b.expiresAt.getD 0)
    (s.tasks.filter fun r => r.past now && (r.pendingOrPaused || r.status == .blocked))
  refine ⟨(hperm.nodup_iff.2 (hs.ids.of_map.filter _)).sublist (List.take_sublist _ _), fun r hr => ?_⟩
  exact (List.mem_filter.1 (hperm.mem_iff.1 (List.mem_of_mem_take hr))).1

/-- A sweep that is committed has run its rounds over the selection. -/
theorem expireTasksTx_ok {expired : List TaskRecord} (h : expireTasksTx now s = (.ok expired, s')) :
    expired.map (·.toTaskRow) = sweepRows s.tasks (s.expiredRows now) ∧
      ∃ logged : List TaskRow, logged.Perm (sweepRows s.tasks (s.expiredRows now)) ∧
        s.Expires now logged (expired.map (·.id)) ((s.expiredRows now).map (·.id)) s' := by
  obtain ⟨rows, s₁, h₁, h⟩ := Txn.bind_ok (transaction_ok h)
  cases h₁
  obtain ⟨parts, s₂, h₂, h⟩ := Txn.bind_ok h
  cases h
  obtain ⟨hrows, logged, hperm, hexpires⟩ := sweep_expires h₂
  refine ⟨hrows, logged, hperm, ?_⟩
  have hids : parts.flatten.map (·.id) = (sweepRows s.tasks (s.expiredRows now)).map (·.id) := by
    rw [← hrows, List.map_map]
    rfl
  rw [hids]
  exact hexpires

theorem expireRow_owned (row : TaskRow) (now : Int) :
    Txn.Total Store.HistoryTagsOwned (expireRow row now) fun _ => Store.HistoryTagsOwned :=
  .bind (Q := fun _ => Store.HistoryTagsOwned) (fun _ hs => ⟨_, _, rfl, hs⟩) fun _ =>
    .bind insertHistory_total fun _ => .bind (.modify fun _ hs => hs) fun _ => .pure fun _ hs => hs

/-- Without leftover history tags the sweep succeeds. -/
theorem expireTasksTx_total (now : Int) : Txn.Total Store.HistoryTagsOwned (expireTasksTx now) fun _ =>
    Store.HistoryTagsOwned := by
  have hrow : ∀ row : TaskRow, Txn.Total Store.HistoryTagsOwned (expireRow row now) fun _ => Store.HistoryTagsOwned :=
    fun row => expireRow_owned row now
  have hround : ∀ row, Txn.Total Store.HistoryTagsOwned (expireWithChildren now row) fun _ =>
      Store.HistoryTagsOwned := fun row =>
    .bind (Q := fun _ => Store.HistoryTagsOwned) (fun s hs => ⟨_, _, rfl, hs⟩) fun _ =>
      .bind insertHistory_total fun _ => .bind (.map_get fun _ hs => hs) fun children =>
        .bind (.mapList hrow children) fun _ => .bind (.modify fun _ hs => hs) fun _ => .pure fun _ hs => hs
  refine .atomically ?_
  exact .bind (.map_get fun s hs => hs) fun rows => .bind (.mapList hround rows) fun _ => .pure fun s hs => hs

/-- If no selected row comes after its parent, then the reported rows are the swept ones. -/
theorem ChildrenFirst.reported (hs : s.Schema) (h : s.ChildrenFirst now) :
    (sweepRows s.tasks (s.expiredRows now)).Perm (s.tasks.filter (s.swept now)) := by
  obtain ⟨hnodup, hsub⟩ := expiredRows_rows hs now
  obtain ⟨hrows, hmem⟩ := sweepRows_of_childrenFirst hs.ids hnodup hsub h.1 h.2
  refine (List.perm_ext_iff_of_nodup hrows (hs.ids.of_map.filter _)).2 fun r => ?_
  rw [hmem, List.mem_filter, Store.swept, List.any_eq_true]
  refine and_congr_right fun hr => exists_congr fun row => and_congr_right fun hrow => ?_
  rw [Bool.or_eq_true, beq_iff_eq]
  refine or_congr_left ⟨?_, hs.eq_of_id (hsub row hrow) hr⟩
  rintro rfl
  rfl

/-- The ids of the swept rows are on the rows of the table that are swept. -/
theorem swept_contains (hs : s.Schema) {r : TaskRow} (hr : r ∈ s.tasks) :
    ((s.tasks.filter (s.swept now)).map (·.id)).contains r.id = s.swept now r := by
  rw [Bool.eq_iff_iff, List.contains_iff_mem, List.mem_map]
  constructor
  · rintro ⟨r', hr', hid⟩
    obtain ⟨hin, hswept⟩ := List.mem_filter.1 hr'
    rwa [← hs.eq_of_id hin hr hid]
  · exact fun hswept => ⟨r, List.mem_filter.2 ⟨hr, hswept⟩, rfl⟩

/-- A sweep that reports the swept rows has swept them once. -/
theorem SweptOnce.of_reported (hs : s.Schema) {expired : List TaskRecord} {logged : List TaskRow}
    (hrows : (expired.map (·.toTaskRow)).Perm (s.tasks.filter (s.swept now)))
    (hlogged : logged.Perm (expired.map (·.toTaskRow)))
    (h : s.Expires now logged (expired.map (·.id)) ((s.expiredRows now).map (·.id)) s') :
    s.SweptOnce now expired s' := by
  have hids : (expired.map (·.id)).Perm ((s.tasks.filter (s.swept now)).map (·.id)) := by
    have hmap := hrows.map (·.id)
    rwa [List.map_map] at hmap
  have htasks : s'.tasks = s.tasks.filter fun r => !s.swept now r := by
    rw [h.tasks]
    refine List.filter_congr fun r hr => ?_
    rw [hids.contains_eq, swept_contains hs hr]
  refine ⟨?_, fun id => ?_, ?_, htasks, h.tags, h.edges⟩
  · exact hids.nodup_iff.2 (hs.ids.sublist (List.filter_sublist.map _))
  · rw [hids.mem_iff]
    unfold Store.ids
    rw [htasks]
    constructor
    · intro hid
      obtain ⟨r, hr, rfl⟩ := List.mem_map.1 hid
      obtain ⟨hin, hswept⟩ := List.mem_filter.1 hr
      refine ⟨List.mem_map_of_mem hin, fun hleft => ?_⟩
      obtain ⟨r', hr', heq⟩ := List.mem_map.1 hleft
      obtain ⟨hin', hkept⟩ := List.mem_filter.1 hr'
      rw [hs.eq_of_id hin' hin heq, hswept] at hkept
      cases hkept
    · rintro ⟨hin, hleft⟩
      obtain ⟨r, hr, rfl⟩ := List.mem_map.1 hin
      refine List.mem_map_of_mem (List.mem_filter.2 ⟨hr, ?_⟩)
      by_contra hkept
      exact hleft (List.mem_map_of_mem (List.mem_filter.2 ⟨hr, by simpa using hkept⟩))
  · obtain ⟨entries, hhist, hlog⟩ := h.history
    refine ⟨entries, hhist, ?_⟩
    rw [hlog]
    exact (hlogged.trans hrows).map _

/-- The expiry sweep removes, logs and reports every expired task once if and only if no selected task comes after its
selected parent; a sweep that fails changes no table, and has met leftover history tags. -/
theorem expire_tasks_iff (s : Store) (hs : s.Schema) (now : Int) :
    (∀ expired s', expireTasksTx now s = (.ok expired, s') → (s.SweptOnce now expired s' ↔ s.ChildrenFirst now)) ∧
    ∀ e s', expireTasksTx now s = (.error e, s') → s.rollback s' = s' ∧ ¬s.HistoryTagsOwned := by
  refine ⟨fun expired s' h => ?_, fun e s' h => ?_⟩
  · obtain ⟨hrows, logged, hperm, hexpires⟩ := expireTasksTx_ok h
    constructor
    · intro hswept
      obtain ⟨hnodup, hsub⟩ := expiredRows_rows hs now
      have hreported : (expired.map (·.toTaskRow)).Nodup := by
        have hids := hswept.nodup
        rw [show expired.map (·.id) = (expired.map (·.toTaskRow)).map (·.id) by rw [List.map_map]; rfl] at hids
        exact hids.of_map
      rw [hrows] at hreported
      exact childrenFirst_of_nodup hs.ids hnodup hsub hreported
    · intro hfirst
      refine SweptOnce.of_reported hs ?_ ?_ hexpires
      · rw [hrows]
        exact ChildrenFirst.reported hs hfirst
      · rwa [hrows]
  · obtain ⟨s₁, herr, rfl⟩ := transaction_error h
    refine ⟨rfl, fun howned => ?_⟩
    obtain ⟨expired, s₂, hok, _⟩ := expireTasksTx_total now s howned
    cases hok.symm.trans h

end Sweep

/-- `a` and its child `b` have both been waiting past their deadlines. -/
def overdueFamily : Store :=
  execAll sampleSha256 openMemory
    [.submitDirect { TaskSubmission.new "a" with ttl := some ⟨1000000000⟩ } 0,
      .submitDirect { TaskSubmission.new "b" with parentId := some 1, ttl := some ⟨2000000000⟩ } 0]

/-- The child is logged and reported twice. -/
theorem overdue_child_twice :
    ∃ expired s', expireTasksTx 5000 overdueFamily = (.ok expired, s') ∧ expired.map (·.id) = [2, 1, 2] ∧
      s'.taskHistory.map (·.key) = [sampleSha256 [97, 58], sampleSha256 [98, 58], sampleSha256 [98, 58]] ∧
      ¬overdueFamily.SweptOnce 5000 expired s' := by
  have hids : (expireTasksTx 5000 overdueFamily).1.toOption.map (·.map (·.id)) = some [2, 1, 2] := by decide +kernel
  have hkeys : (expireTasksTx 5000 overdueFamily).2.taskHistory.map (·.key) =
      [sampleSha256 [97, 58], sampleSha256 [98, 58], sampleSha256 [98, 58]] := by decide +kernel
  rcases hrun : expireTasksTx 5000 overdueFamily with ⟨e | expired, s'⟩
  · rw [hrun] at hids
    cases hids
  · rw [hrun] at hids hkeys
    have hreported : expired.map (·.id) = [2, 1, 2] := Option.some.inj hids
    refine ⟨expired, s', rfl, hreported, hkeys, fun h => ?_⟩
    have htwice := h.nodup
    rw [hreported] at htwice
    exact absurd htwice (by decide)

/-- If only the parent is past its deadline, then both are expired, each once. -/
theorem overdue_parent_once :
    overdueFamily.ChildrenFirst 1000 ∧
      ∀ expired s', expireTasksTx 1000 overdueFamily = (.ok expired, s') →
        (overdueFamily.SweptOnce 1000 expired s' ↔ overdueFamily.ChildrenFirst 1000) :=
  ⟨by decide +kernel, (expire_tasks_iff overdueFamily (schema_execAll sampleSha256 _ openMemory_fresh.schema) 1000).1⟩

end Taskmill
