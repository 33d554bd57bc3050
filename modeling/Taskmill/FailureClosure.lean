import Taskmill.Batch
import Taskmill.Cascade
import Mathlib.Order.Bounds.Basic

/-!
# What a failure takes with it

`fail_dependents` deletes the edges to the failed task and walks the dependents that it finds on them, and it
deletes rows and edges of the graph that it walks.  What it leaves is the same for every order in which SQLite
returns the edges: the tasks it removes are the least set that contains every active task with policy `cancel` or
`fail` and an edge to the failed task or into the set, and a task with policy `ignore` is released if the removed
edges were its last ones.

`Underway` is the state between two statements of the walk.  Some tasks have been visited, that is the edges to them
are deleted; every dependent on such an edge is `owed` a round of a loop, or it has been dealt with.
-/

namespace Taskmill

open Transact

/-! ### The result -/

/-- The set contains every active task with policy `cancel` or `fail` that has an edge to `f` or into the set. -/
def Store.FailureClosed (s : Store) (f : Int) (removed : Set Int) : Prop :=
  ∀ r ∈ s.tasks, r.onDepFailure ≠ .ignore → ∀ t, (r.id, t) ∈ s.taskDeps → t = f ∨ t ∈ removed → r.id ∈ removed

/-- The history row of a removed task names a dependency of the task that failed before. -/
def Store.LoggedFor (s : Store) (now : Int) (causes : List Int) (id : Int) (entry : TaskHistoryRow) : Prop :=
  ∃ r ∈ s.tasks, r.id = id ∧ ∃ hid, ∃ cause ∈ causes, (id, cause) ∈ s.taskDeps ∧
    entry = historyRow hid (rowToTaskRecord r) .dependencyFailed {} none (some s!"dependency task {cause} failed") now

/-- A blocked task with policy `ignore` that has lost an edge to one of `causes` and has none left in `edges`. -/
def Store.FreedBy (s : Store) (causes : List Int) (edges : List (Int × Int)) (id : Int) : Prop :=
  ∃ r ∈ s.tasks, r.id = id ∧ r.onDepFailure = .ignore ∧ r.status = .blocked ∧
    (∃ cause ∈ causes, (id, cause) ∈ s.taskDeps) ∧ ∀ e ∈ edges, e.1 ≠ id

/-- What the failure of `f` makes of the tables `s`, with the ids that are reported. -/
structure Store.FailureCascade (s : Store) (f now : Int) (failed unblocked : List Int) (s' : Store) : Prop where
  least : IsLeast {removed | s.FailureClosed f removed} {id | id ∈ failed}
  failed_nodup : failed.Nodup
  logged : ∃ entries, s'.taskHistory = s.taskHistory ++ entries ∧
    List.Forall₂ (s.LoggedFor now (f :: failed)) failed entries
  tasks : s'.tasks = (s.tasks.filter fun r => !failed.contains r.id).map fun r =>
    if unblocked.contains r.id then s.freeRow now r else r
  tags : s'.taskTags = s.taskTags.filter fun t => !failed.contains t.1
  edges : s'.taskDeps = s.taskDeps.filter fun e => !(f :: failed).contains e.2 && !failed.contains e.1
  unblocked_nodup : unblocked.Nodup
  unblocked_iff : ∀ id, id ∈ unblocked ↔ s.FreedBy (f :: failed) s'.taskDeps id
  groups : s'.pausedGroups = s.pausedGroups

/-- A call that returns has done that; one that fails has changed no table, and has met leftover history tags. -/
inductive Store.CascadeOutcome (s : Store) (f now : Int) :
    Except StoreError (List Int × List Int) × Store → Prop where
  | returned {failed unblocked : List Int} {s' : Store} (h : s.FailureCascade f now failed unblocked s') :
    CascadeOutcome s f now (.ok (failed, unblocked), s')
  | failed {e : StoreError} {s' : Store} (htables : s.rollback s' = s') (hleftover : ¬s.HistoryTagsOwned) :
    CascadeOutcome s f now (.error e, s')

/-! ### The walk -/

/-- A task with this row has been dealt with. -/
def TaskRow.Settled (failed unblocked : List Int) (edges : List (Int × Int)) (r : TaskRow) : Prop :=
  (r.onDepFailure ≠ .ignore → r.id ∈ failed) ∧
    (r.onDepFailure = .ignore → r.status = .blocked → (∀ e ∈ edges, e.1 ≠ r.id) → r.id ∈ unblocked)

/-- The state of the walk that began for `f` in `s₀`. -/
structure Underway (s₀ : Store) (f now : Int) (owed visited failed unblocked : List Int) (s : Store) : Prop where
  tasks : s.tasks = (s₀.tasks.filter fun r => !failed.contains r.id).map fun r =>
    if unblocked.contains r.id then s₀.freeRow now r else r
  tags : s.taskTags = s₀.taskTags.filter fun t => !failed.contains t.1
  edges : s.taskDeps = s₀.taskDeps.filter fun e => !visited.contains e.2 && !failed.contains e.1
  groups : s.pausedGroups = s₀.pausedGroups
  logged : ∃ entries, s.taskHistory = s₀.taskHistory ++ entries ∧
    List.Forall₂ (s₀.LoggedFor now visited) failed entries
  failed_nodup : failed.Nodup
  unblocked_nodup : unblocked.Nodup
  least : ∀ removed, s₀.FailureClosed f removed → ∀ id ∈ failed, id ∈ removed
  failing : ∀ id ∈ failed, ∃ r ∈ s₀.tasks, r.id = id ∧ r.onDepFailure ≠ .ignore
  visits : ∀ t ∈ visited, t = f ∨ t ∈ failed
  freed : ∀ id ∈ unblocked, s₀.FreedBy visited s.taskDeps id
  settled : ∀ r ∈ s₀.tasks, ∀ t ∈ visited, (r.id, t) ∈ s₀.taskDeps → r.id ∈ owed ∨
    r.Settled failed unblocked s.taskDeps

theorem freeRow_id (s : Store) (now : Int) (r : TaskRow) : (s.freeRow now r).id = r.id := by
  unfold Store.freeRow
  split
  · rfl
  · rfl

/-- Released rows depend on the paused groups only. -/
theorem freeRow_of_groups {s s' : Store} (h : s.pausedGroups = s'.pausedGroups) (now : Int) (r : TaskRow) :
    s.freeRow now r = s'.freeRow now r := by
  have hgroup : s.groupPaused r.groupKey = s'.groupPaused r.groupKey := by
    unfold Store.groupPaused
    rw [h]
  unfold Store.freeRow
  rw [hgroup]

theorem freeRow_policy (s : Store) (now : Int) (r : TaskRow) : (s.freeRow now r).onDepFailure = r.onDepFailure := by
  unfold Store.freeRow
  split
  · rfl
  · rfl

/-- A blocked dependent without an edge is released. -/
theorem releaseDependent_free {s : Store} {d : Int} (now : Int) (hnone : ∀ e ∈ s.taskDeps, e.1 ≠ d)
    (hblocked : ∀ r ∈ s.tasks, r.id = d → r.status = .blocked) (hrow : d ∈ s.ids) :
    releaseDependent d now s =
      (.ok [d], { s with tasks := s.tasks.map fun r => if r.id == d then s.freeRow now r else r }) := by
  have hedge : (s.taskDeps.any fun e => e.1 == d) = false := by
    rw [List.any_eq_false]
    intro e he
    simpa using hnone e he
  have hany : (s.tasks.any fun r => r.id == d && r.status == .blocked) = true := by
    obtain ⟨r, hr, hid⟩ := List.mem_map.1 hrow
    exact List.any_eq_true.2 ⟨r, hr, by simp [hid, hblocked r hr hid]⟩
  unfold releaseDependent
  rw [hedge, hany]
  simp only [Bool.false_eq_true, if_false, if_true]
  congr 1
  unfold Store.pauseUnblocked Store.updateTasks
  dsimp only
  rw [List.map_map]
  congr 1
  refine List.map_congr_left fun r hr => ?_
  by_cases hid : r.id = d
  · have hst := hblocked r hr hid
    simp only [Function.comp_apply, hid, hst, beq_self_eq_true, Bool.and_self, if_true,
      List.contains_cons, Bool.true_or, Bool.true_and, Store.freeRow]
    rfl
  · simp [hid]

/-- Without a row, or with a row that is not blocked, nothing happens. -/
theorem releaseDependent_idle {s : Store} {d : Int} (now : Int) (h : ∀ r ∈ s.tasks, r.id = d → r.status ≠ .blocked) :
    releaseDependent d now s = (.ok [], s) := by
  have hany : (s.tasks.any fun r => r.id == d && r.status == .blocked) = false := by
    rw [List.any_eq_false]
    intro r hr
    by_cases hid : r.id = d
    · simp [hid, h r hr hid]
    · simp [hid]
  unfold releaseDependent
  rw [hany]
  simp

section Walk

variable {s₀ s : Store} {f now : Int} {owed visited failed unblocked : List Int}

/-- Before the first statement. -/
theorem Underway.start (s₀ : Store) (f now : Int) : Underway s₀ f now [] [] [] [] s₀ where
  tasks := by simp
  tags := by simp
  edges := by simp
  groups := rfl
  logged := ⟨[], by simp, .nil⟩
  failed_nodup := List.nodup_nil
  unblocked_nodup := List.nodup_nil
  least := fun _ _ _ h => absurd h List.not_mem_nil
  failing := fun _ h => absurd h List.not_mem_nil
  visits := fun _ h => absurd h List.not_mem_nil
  freed := fun _ h => absurd h List.not_mem_nil
  settled := fun _ _ _ h => absurd h List.not_mem_nil

namespace Underway

/-- A row of the walk is a row of the start, as it was or released. -/
theorem row (h : Underway s₀ f now owed visited failed unblocked s) {r : TaskRow} (hr : r ∈ s.tasks) :
    ∃ r₀ ∈ s₀.tasks, r₀.id ∉ failed ∧ r₀.id = r.id ∧
      r = if unblocked.contains r₀.id then s₀.freeRow now r₀ else r₀ := by
  rw [h.tasks] at hr
  obtain ⟨r₀, hr₀, rfl⟩ := List.mem_map.1 hr
  obtain ⟨hr₀, hn⟩ := List.mem_filter.1 hr₀
  refine ⟨r₀, hr₀, by simpa using hn, ?_, rfl⟩
  split
  · exact (freeRow_id s₀ now r₀).symm
  · rfl

theorem mem_edges (h : Underway s₀ f now owed visited failed unblocked s) {e : Int × Int} :
    e ∈ s.taskDeps ↔ e ∈ s₀.taskDeps ∧ e.2 ∉ visited ∧ e.1 ∉ failed := by
  rw [h.edges, List.mem_filter]
  simp

/-- A removed task has policy `cancel` or `fail`. -/
theorem failing_row (h : Underway s₀ f now owed visited failed unblocked s) (hs : s₀.Schema) {r : TaskRow}
    (hr : r ∈ s₀.tasks) (hid : r.id ∈ failed) : r.onDepFailure ≠ .ignore := by
  obtain ⟨r', hr', heq, hpolicy⟩ := h.failing _ hid
  rwa [hs.eq_of_id hr' hr heq] at hpolicy

/-- The edges to a task that failed are deleted, and every dependent on them is owed a round. -/
theorem visit (h : Underway s₀ f now owed visited failed unblocked s) (hs : s₀.Schema) {t : Int}
    (ht : t = f ∨ t ∈ failed) (dependents : List Int) (hdep : ∀ e ∈ s.taskDeps, e.2 = t → e.1 ∈ dependents) :
    Underway s₀ f now (dependents ++ owed) (t :: visited) failed unblocked
      { s with taskDeps := s.taskDeps.filter fun e => !(e.2 == t) } where
  tasks := h.tasks
  tags := h.tags
  edges := by
    dsimp only
    rw [h.edges, List.filter_filter]
    refine List.filter_congr fun e _ => ?_
    by_cases he : e.2 = t
    · simp [he]
    · simp [he]
  groups := h.groups
  logged := by
    obtain ⟨entries, hhist, hall⟩ := h.logged
    refine ⟨entries, hhist, hall.imp ?_⟩
    rintro id entry ⟨r, hr, hid, hidden, cause, hc, hrest⟩
    exact ⟨r, hr, hid, hidden, cause, List.mem_cons_of_mem _ hc, hrest⟩
  failed_nodup := h.failed_nodup
  unblocked_nodup := h.unblocked_nodup
  least := h.least
  failing := h.failing
  visits := by
    intro i hi
    rcases List.mem_cons.1 hi with rfl | hi
    · exact ht
    · exact h.visits i hi
  freed := by
    intro id hid
    obtain ⟨r, hr, hrid, hpolicy, hblocked, ⟨cause, hc, hedge⟩, hnone⟩ := h.freed id hid
    exact ⟨r, hr, hrid, hpolicy, hblocked, ⟨cause, List.mem_cons_of_mem _ hc, hedge⟩, fun e he =>
      hnone e (List.mem_filter.1 he).1⟩
  settled := by
    intro r hr i hi hedge
    by_cases hd : r.id ∈ dependents
    · exact .inl (List.mem_append_left _ hd)
    have hkept : ∀ e ∈ s.taskDeps, e.1 = r.id → e.2 ≠ t := fun e he hid hto => hd (hid ▸ hdep e he hto)
    have hsettled : r.Settled failed unblocked s.taskDeps →
        r.Settled failed unblocked (s.taskDeps.filter fun e => !(e.2 == t)) := by
      rintro ⟨hfail, hfree⟩
      refine ⟨hfail, fun hpolicy hblocked hnone => hfree hpolicy hblocked fun e he hid => ?_⟩
      exact hnone e (List.mem_filter.2 ⟨he, by simpa using hkept e he hid⟩) hid
    -- an edge to `t` that is not there any more was visited before, or its owner is gone
    have hold : i ∈ visited ∨ r.id ∈ failed := by
      rcases List.mem_cons.1 hi with rfl | hi
      · by_contra hn
        rw [not_or] at hn
        exact hkept _ (h.mem_edges.2 ⟨hedge, hn.1, hn.2⟩) rfl rfl
      · exact .inl hi
    rcases hold with hold | hgone
    · exact (h.settled r hr i hold hedge).imp (List.mem_append_right _) hsettled
    · exact .inr ⟨fun _ => hgone, fun hpolicy => absurd hpolicy (h.failing_row hs hr hgone)⟩

/-- A round for a task that is not there any more. -/
theorem skip {d : Int} (h : Underway s₀ f now (d :: owed) visited failed unblocked s) (hs : s₀.Schema)
    (hgone : d ∉ s.ids) :
    Underway s₀ f now owed visited failed unblocked s where
  __ := h
  settled := by
    intro r hr i hi hedge
    rcases h.settled r hr i hi hedge with howed | hsettled
    · rcases List.mem_cons.1 howed with hid | howed
      · have hfailed : r.id ∈ failed := by
          by_contra hn
          apply hgone
          rw [← hid, Store.ids, h.tasks, List.mem_map]
          refine ⟨_, List.mem_map_of_mem (List.mem_filter.2 ⟨hr, by simpa using hn⟩), ?_⟩
          split
          · exact freeRow_id s₀ now r
          · rfl
        exact .inr ⟨fun _ => hfailed, fun hpolicy => absurd hpolicy (h.failing_row hs hr hfailed)⟩
      · exact .inl howed
    · exact .inr hsettled

/-- A dependent with policy `cancel` or `fail` goes to history. -/
theorem remove {task : TaskRow} {cause : Int} {u : Unit} {s₁ : Store}
    (h : Underway s₀ f now (task.id :: owed) visited failed unblocked s) (hs : s₀.Schema) (htask : task ∈ s.tasks)
    (hpolicy : task.onDepFailure ≠ .ignore) (hcause : cause ∈ visited) (hedge : (task.id, cause) ∈ s₀.taskDeps)
    (hrun : dependencyFail cause task now s = (.ok u, s₁)) :
    Underway s₀ f now owed visited (failed ++ [task.id]) unblocked s₁ := by
  obtain ⟨r₀, hr₀, hn, hid, heq⟩ := h.row htask
  have hkept : unblocked.contains r₀.id = false := by
    rw [← Bool.not_eq_true, List.contains_iff_mem]
    intro hfreed
    obtain ⟨r, hr, hrid, hignore, _⟩ := h.freed _ hfreed
    rw [hs.eq_of_id hr hr₀ hrid] at hignore
    rw [heq] at hpolicy
    split at hpolicy
    · exact hpolicy ((freeRow_policy s₀ now r₀).trans hignore)
    · exact hpolicy hignore
  rw [hkept] at heq
  obtain rfl : task = r₀ := heq
  obtain ⟨⟨⟩, s₂, h₂, hrun⟩ := Txn.bind_ok hrun
  obtain ⟨tags, rfl⟩ := insertHistory_leaves h₂
  cases hrun
  refine ⟨?_, ?_, ?_, h.groups, ?_, ?_, h.unblocked_nodup, ?_, ?_, ?_, ?_, ?_⟩
  · simp only [Store.deleteTasks_tasks, Store.deleteTaskTags_tasks, Store.deleteEdgesFrom_tasks, Store.log_tasks]
    rw [h.tasks, List.filter_map, List.filter_filter]
    congr 1
    refine List.filter_congr fun r _ => ?_
    have hkeep : (if unblocked.contains r.id then s₀.freeRow now r else r).id = r.id := by
      split
      · exact freeRow_id s₀ now r
      · rfl
    simp only [Function.comp_apply, hkeep]
    by_cases hrt : r.id = task.id
    · simp [hrt]
    · simp [hrt]
  · simp only [Store.deleteTasks_taskTags, Store.deleteTaskTags_taskTags, Store.deleteEdgesFrom_taskTags,
      Store.log_taskTags]
    rw [h.tags, List.filter_filter]
    refine List.filter_congr fun t _ => ?_
    by_cases ht : t.1 = task.id
    · simp [ht]
    · simp [ht]
  · simp only [Store.deleteTasks_taskDeps, Store.deleteTaskTags_taskDeps, Store.deleteEdgesFrom_taskDeps,
      Store.log_taskDeps]
    rw [h.edges, List.filter_filter]
    refine List.filter_congr fun e _ => ?_
    by_cases he : e.1 = task.id
    · simp [he]
    · simp [he]
  · obtain ⟨entries, hhist, hall⟩ := h.logged
    refine ⟨entries ++ [historyRow s.nextHistoryId (rowToTaskRecord task) .dependencyFailed {} none
      (some s!"dependency task {cause} failed") now], ?_, ?_⟩
    · simp only [Store.deleteTasks_taskHistory, Store.deleteTaskTags_taskHistory, Store.deleteEdgesFrom_taskHistory,
        Store.log_taskHistory]
      rw [hhist, List.append_assoc]
    · exact List.rel_append hall (.cons ⟨task, hr₀, rfl, s.nextHistoryId, cause, hcause, hedge, rfl⟩ .nil)
  · rw [List.nodup_append]
    refine ⟨h.failed_nodup, List.nodup_singleton _, ?_⟩
    rintro a ha b hb rfl
    rw [List.mem_singleton] at hb
    exact hn (hb ▸ ha)
  · intro removed hclosed id hid
    rcases List.mem_append.1 hid with hid | hid
    · exact h.least removed hclosed id hid
    · rw [List.mem_singleton.1 hid]
      refine hclosed task hr₀ hpolicy cause hedge ?_
      rcases h.visits cause hcause with rfl | hfailed
      · exact .inl rfl
      · exact .inr (h.least removed hclosed cause hfailed)
  · intro id hid
    rcases List.mem_append.1 hid with hid | hid
    · exact h.failing id hid
    · exact ⟨task, hr₀, (List.mem_singleton.1 hid).symm, hpolicy⟩
  · exact fun t ht => (h.visits t ht).imp_right (List.mem_append_left _)
  · intro id hid
    obtain ⟨r, hr, hrid, hignore, hblocked, hlost, hnone⟩ := h.freed id hid
    exact ⟨r, hr, hrid, hignore, hblocked, hlost, fun e he => hnone e (List.mem_filter.1 he).1⟩
  · intro r hr t ht hto
    by_cases hrt : r.id = task.id
    · obtain rfl := hs.eq_of_id hr hr₀ hrt
      exact .inr ⟨fun _ => List.mem_append_right _ (List.mem_singleton_self _), fun hignore => absurd hignore hpolicy⟩
    · rcases h.settled r hr t ht hto with howed | ⟨hfail, hfree⟩
      · exact .inl ((List.mem_cons.1 howed).resolve_left hrt)
      · refine .inr ⟨fun hp => List.mem_append_left _ (hfail hp), fun hp hb hnone => hfree hp hb fun e he hid => ?_⟩
        exact hnone e (List.mem_filter.2 ⟨he, by simpa [hid] using hrt⟩) hid

/-- A dependent with policy `ignore` is released if it was blocked and has no edge left. -/
theorem release {task : TaskRow} {cause : Int} {freed : List Int} {s₁ : Store}
    (h : Underway s₀ f now (task.id :: owed) visited failed unblocked s) (hs : s₀.Schema) (htask : task ∈ s.tasks)
    (hpolicy : task.onDepFailure = .ignore) (hcause : cause ∈ visited) (hedge : (task.id, cause) ∈ s₀.taskDeps)
    (hrun : releaseDependent task.id now s = (.ok freed, s₁)) :
    Underway s₀ f now owed visited failed (unblocked ++ freed) s₁ := by
  obtain ⟨r₀, hr₀, hn, hid, heq⟩ := h.row htask
  have hignore : r₀.onDepFailure = .ignore := by
    rw [← hpolicy, heq]
    split
    · exact (freeRow_policy s₀ now r₀).symm
    · rfl
  -- the row of `d` in the walk
  have honly : ∀ r ∈ s.tasks, r.id = task.id → r = if unblocked.contains r₀.id then s₀.freeRow now r₀ else r₀ := by
    intro r hr hrid
    obtain ⟨r', hr', _, hid', heq'⟩ := h.row hr
    rw [hs.eq_of_id hr' hr₀ (hid'.trans (hrid.trans hid.symm))] at heq'
    exact heq'
  have hsettled : ∀ (s' : Store) (freed : List Int), s'.taskDeps = s.taskDeps →
      (r₀.status = .blocked → (∀ e ∈ s.taskDeps, e.1 ≠ task.id) → task.id ∈ unblocked ++ freed) →
      ∀ r ∈ s₀.tasks, ∀ t ∈ visited, (r.id, t) ∈ s₀.taskDeps →
        r.id ∈ owed ∨ r.Settled failed (unblocked ++ freed) s'.taskDeps := by
    intro s' freed hdeps hfree r hr t ht hto
    rw [hdeps]
    by_cases hrt : r.id = task.id
    · obtain rfl := hs.eq_of_id hr hr₀ (hrt.trans hid.symm)
      refine .inr ⟨fun hp => absurd hignore hp, fun _ hb hnone => ?_⟩
      rw [hid]
      exact hfree hb fun e he heid => hnone e he (heid.trans hid.symm)
    · rcases h.settled r hr t ht hto with howed | ⟨hfail, hfree⟩
      · exact .inl ((List.mem_cons.1 howed).resolve_left hrt)
      · exact .inr ⟨hfail, fun hp hb hnone => List.mem_append_left _ (hfree hp hb hnone)⟩
  have hstays : (r₀.status = .blocked → (∀ e ∈ s.taskDeps, e.1 ≠ task.id) → task.id ∈ unblocked) →
      Underway s₀ f now owed visited failed (unblocked ++ []) s := by
    intro hdone
    have hlist : unblocked ++ [] = unblocked := List.append_nil unblocked
    have hrest := hsettled s [] rfl (by rwa [hlist])
    rw [hlist] at hrest ⊢
    exact { h with settled := hrest }
  by_cases hnone : ∀ e ∈ s.taskDeps, e.1 ≠ task.id
  · by_cases hblocked : r₀.status = .blocked ∧ r₀.id ∉ unblocked
    · -- the last edge of a blocked task is gone
      have hrows : ∀ r ∈ s.tasks, r.id = task.id → r = r₀ := by
        intro r hr hrid
        rw [honly r hr hrid, if_neg (by simpa using hblocked.2)]
      have hfree := releaseDependent_free now hnone (fun r hr hrid => by rw [hrows r hr hrid]; exact hblocked.1)
        (List.mem_map_of_mem htask)
      rw [hfree] at hrun
      cases hrun
      refine { h with tasks := ?_, unblocked_nodup := ?_, freed := ?_, settled := ?_ }
      · dsimp only
        rw [h.tasks, List.map_map]
        refine List.map_congr_left fun r hr => ?_
        have hr := (List.mem_filter.1 hr).1
        by_cases hrt : r.id = task.id
        · obtain rfl := hs.eq_of_id hr hr₀ (hrt.trans hid.symm)
          simp [hrt, hid ▸ hblocked.2, freeRow_of_groups h.groups]
        · by_cases hu : r.id ∈ unblocked
          · simp [hu, hrt, freeRow_id]
          · simp [hu, hrt]
      · rw [List.nodup_append]
        refine ⟨h.unblocked_nodup, List.nodup_singleton _, ?_⟩
        rintro a ha b hb rfl
        rw [List.mem_singleton.1 hb, ← hid] at ha
        exact hblocked.2 ha
      · intro id hmem
        rcases List.mem_append.1 hmem with hmem | hmem
        · exact h.freed id hmem
        · rw [List.mem_singleton.1 hmem]
          exact ⟨r₀, hr₀, hid, hignore, hblocked.1, ⟨cause, hcause, hedge⟩, hnone⟩
      · exact hsettled _ _ rfl fun _ _ => List.mem_append_right _ (List.mem_singleton_self _)
    · -- it was released before, or it was not blocked
      rw [not_and_or, not_not] at hblocked
      have hidle := releaseDependent_idle (s := s) (d := task.id) now fun r hr hrid => by
        rw [honly r hr hrid]
        split
        · exact freeRow_status r₀
        · rename_i hn
          exact hblocked.resolve_right (by simpa using hn)
      rw [hidle] at hrun
      cases hrun
      refine hstays fun hb _ => ?_
      rw [← hid]
      exact hblocked.resolve_left (not_not.2 hb)
  · have hkeeps : releaseDependent task.id now s = (.ok [], s) := by
      have hany : (s.taskDeps.any fun e => e.1 == task.id) = true := by
        simpa using hnone
      unfold releaseDependent
      rw [hany]
      rfl
    rw [hkeeps] at hrun
    cases hrun
    exact hstays fun _ hn => absurd hn hnone

/-- At the end of the walk. -/
theorem finish (h : Underway s₀ f now [] visited failed unblocked s) (hf : f ∈ visited)
    (hfailed : ∀ id ∈ failed, id ∈ visited) :
    s₀.FailureCascade f now failed unblocked s := by
  have hvisited : ∀ t, t ∈ visited ↔ t ∈ f :: failed := by
    intro t
    rw [List.mem_cons]
    refine ⟨h.visits t, ?_⟩
    rintro (rfl | ht)
    · exact hf
    · exact hfailed t ht
  have hsettled : ∀ r ∈ s₀.tasks, ∀ t ∈ visited, (r.id, t) ∈ s₀.taskDeps → r.Settled failed unblocked s.taskDeps :=
    fun r hr t ht hto => (h.settled r hr t ht hto).resolve_left List.not_mem_nil
  refine ⟨⟨?_, fun removed hclosed id hid => h.least removed hclosed id hid⟩, h.failed_nodup, ?_, h.tasks, h.tags, ?_,
    h.unblocked_nodup, ?_, h.groups⟩
  · intro r hr hpolicy t hto ht
    exact (hsettled r hr t ((hvisited t).2 (List.mem_cons.2 ht)) hto).1 hpolicy
  · obtain ⟨entries, hhist, hall⟩ := h.logged
    refine ⟨entries, hhist, hall.imp ?_⟩
    rintro id entry ⟨r, hr, hid, hidden, cause, hc, hrest⟩
    exact ⟨r, hr, hid, hidden, cause, (hvisited cause).1 hc, hrest⟩
  · rw [h.edges]
    refine List.filter_congr fun e _ => ?_
    have hcontains : visited.contains e.2 = (f :: failed).contains e.2 := by
      rw [Bool.eq_iff_iff, List.contains_iff_mem, List.contains_iff_mem]
      exact hvisited e.2
    rw [hcontains]
  · intro id
    constructor
    · intro hid
      obtain ⟨r, hr, hrid, hpolicy, hblocked, ⟨cause, hc, hedge⟩, hnone⟩ := h.freed id hid
      exact ⟨r, hr, hrid, hpolicy, hblocked, ⟨cause, (hvisited cause).1 hc, hedge⟩, hnone⟩
    · rintro ⟨r, hr, rfl, hpolicy, hblocked, ⟨cause, hc, hedge⟩, hnone⟩
      exact (hsettled r hr cause ((hvisited cause).2 hc) hedge).2 hpolicy hblocked hnone

end Underway

/-! ### The calls -/

section Calls

variable {order : ReturnOrder}

/-- A step of the walk has reported `result`: the removed tasks of the report have been visited. -/
def WalkedOn (s₀ : Store) (f now : Int) (owed visited failed unblocked : List Int) (result : List Int × List Int)
    (s : Store) : Prop :=
  ∃ visited', Underway s₀ f now owed visited' (failed ++ result.1) (unblocked ++ result.2) s ∧
    ∀ i, i ∈ visited ∨ i ∈ result.1 → i ∈ visited'

/-- Calls with this fuel for a task that failed walk on, and they visit the task. -/
def CallsWalk (s₀ : Store) (f now : Int) (order : ReturnOrder) (fuel : Nat) : Prop :=
  ∀ {owed visited failed unblocked : List Int} {s s' : Store} {t : Int} {result : List Int × List Int},
    s.tasks.length < fuel → t = f ∨ t ∈ failed → Underway s₀ f now owed visited failed unblocked s →
    failDependentsBy order now fuel t s = (.ok result, s') →
    WalkedOn s₀ f now owed (t :: visited) failed unblocked result s'

/-- Nothing was removed. -/
theorem WalkedOn.of_released {unblocked' : List Int}
    (h : Underway s₀ f now owed visited failed (unblocked ++ unblocked') s) :
    WalkedOn s₀ f now owed visited failed unblocked ([], unblocked') s := by
  refine ⟨visited, ?_, fun i hi => hi.resolve_right List.not_mem_nil⟩
  rw [List.append_nil]
  exact h

/-- A successful round for the dependent `d` of a visited task `t`. -/
theorem CallsWalk.failDependent {fuel : Nat} {t d : Int} {s' : Store} {result : List Int × List Int}
    (ih : CallsWalk s₀ f now order fuel) (hs : s₀.Schema) (hlen : s.tasks.length ≤ fuel) (ht : t ∈ visited)
    (hedge : (d, t) ∈ s₀.taskDeps) (h : Underway s₀ f now (d :: owed) visited failed unblocked s)
    (hrun : failDependent (failDependentsBy order now fuel) t d now s = (.ok result, s')) :
    WalkedOn s₀ f now owed visited failed unblocked result s' := by
  cases hrow : s.taskById d with
  | none =>
    rw [failDependent_gone hrow] at hrun
    cases hrun
    have hgone : d ∉ s.ids := by
      intro hd
      obtain ⟨r, hr, hid⟩ := List.mem_map.1 hd
      exact List.find?_eq_none.1 hrow r hr (by simpa using hid)
    refine WalkedOn.of_released ?_
    rw [List.append_nil]
    exact h.skip hs hgone
  | some task =>
    obtain rfl : task.id = d := by simpa using List.find?_some hrow
    have htask : task ∈ s.tasks := List.mem_of_find?_eq_some hrow
    by_cases hpolicy : task.onDepFailure = .ignore
    · rw [failDependent_releases hrow hpolicy] at hrun
      obtain ⟨freed, s₂, h₂, hrun⟩ := Txn.bind_ok hrun
      cases hrun
      exact WalkedOn.of_released (h.release hs htask hpolicy ht hedge h₂)
    · rw [failDependent_removes hrow hpolicy] at hrun
      obtain ⟨⟨⟩, s₂, h₂, hrun⟩ := Txn.bind_ok hrun
      obtain ⟨sub, s₃, h₃, hrun⟩ := Txn.bind_ok hrun
      cases hrun
      have hshorter : s₂.tasks.length < fuel := by
        rw [(dependencyFail_ok h₂).1]
        exact Nat.lt_of_lt_of_le (length_without_lt htask) hlen
      have hremoved := h.remove hs htask hpolicy ht hedge h₂
      obtain ⟨visited', hsub, hmore⟩ := ih hshorter
        (.inr (List.mem_append_right _ (List.mem_singleton_self _))) hremoved h₃
      refine ⟨visited', ?_, fun i hi => hmore i ?_⟩
      · rw [List.append_assoc] at hsub
        exact hsub
      · rcases hi with hi | hi
        · exact .inl (List.mem_cons_of_mem _ hi)
        · rcases List.mem_cons.1 hi with rfl | hi
          · exact .inl (List.mem_cons_self ..)
          · exact .inr hi

/-- A successful loop over dependents of a visited task `t`. -/
theorem CallsWalk.rounds {fuel : Nat} {t : Int} (ih : CallsWalk s₀ f now order fuel) (hs : s₀.Schema)
    (dependents : List Int) :
    ∀ {owed visited failed unblocked : List Int} {s s' : Store} {results : List (List Int × List Int)},
      s.tasks.length ≤ fuel → t ∈ visited → (∀ d ∈ dependents, (d, t) ∈ s₀.taskDeps) →
      Underway s₀ f now (dependents ++ owed) visited failed unblocked s →
      Txn.mapList (fun d => Taskmill.failDependent (failDependentsBy order now fuel) t d now) dependents s =
        (.ok results, s') →
      WalkedOn s₀ f now owed visited failed unblocked
        ((results.map Prod.fst).flatten, (results.map Prod.snd).flatten) s' := by
  induction dependents with
  | nil =>
    intro owed visited failed unblocked s s' results _ _ _ h hrun
    cases hrun
    refine WalkedOn.of_released ?_
    simpa using h
  | cons d dependents ihl =>
    intro owed visited failed unblocked s s' results hlen ht hedges h hrun
    obtain ⟨result, s₁, h₁, hrun⟩ := Txn.bind_ok hrun
    obtain ⟨rest, s₂, h₂, hrun⟩ := Txn.bind_ok hrun
    cases hrun
    obtain ⟨visited₁, hunder₁, hmore₁⟩ := ih.failDependent hs hlen ht (hedges d (List.mem_cons_self ..)) h h₁
    have hlen₁ : s₁.tasks.length ≤ fuel :=
      failDependent_length (fun i => failDependentsBy_length order fuel i _) t d s hlen _ _ h₁
    obtain ⟨visited₂, hunder₂, hmore₂⟩ := ihl hlen₁ (hmore₁ t (.inl ht))
      (fun e he => hedges e (List.mem_cons_of_mem _ he)) hunder₁ h₂
    refine ⟨visited₂, ?_, fun i hi => hmore₂ i ?_⟩
    · simpa [List.append_assoc] using hunder₂
    · simp only [List.map_cons, List.flatten_cons, List.mem_append] at hi
      rcases hi with hi | hi | hi
      · exact .inl (hmore₁ i (.inl hi))
      · exact .inl (hmore₁ i (.inr hi))
      · exact .inr hi

/-- Successful calls walk on: by induction on the fuel, which bounds the number of rows. -/
theorem callsWalk (hs : s₀.Schema) (fuel : Nat) : CallsWalk s₀ f now order fuel := by
  induction fuel with
  | zero =>
    intro owed visited failed unblocked s s' t result hlen
    omega
  | succ fuel ih =>
    intro owed visited failed unblocked s s' t result hlen ht h hrun
    unfold failDependentsBy at hrun
    rw [Txn.get_bind_apply] at hrun
    obtain ⟨dependents, s₁, h₁, hrun⟩ := Txn.bind_ok hrun
    cases h₁
    obtain ⟨results, s₂, h₂, hrun⟩ := Txn.bind_ok hrun
    cases hrun
    have hperm := order.perm s t ((s.taskDeps.filter fun e => e.2 == t).map Prod.fst)
    have hmem : ∀ d, d ∈ order.rows s t ((s.taskDeps.filter fun e => e.2 == t).map Prod.fst) ↔
        (d, t) ∈ s.taskDeps := by
      intro d
      rw [hperm.mem_iff]
      simp
    have hvisit := h.visit hs ht (order.rows s t ((s.taskDeps.filter fun e => e.2 == t).map Prod.fst))
      fun e he hto => (hmem e.1).2 (hto ▸ he)
    refine ih.rounds hs _ ?_ (List.mem_cons_self ..) (fun d hd => (h.mem_edges.1 ((hmem d).1 hd)).1) hvisit h₂
    exact Nat.le_of_lt_succ hlen

/-- A cascade that succeeds does what it is for. -/
theorem failDependentsIn_ok (hs : s.Schema) {s' : Store} {result : List Int × List Int}
    (hrun : failDependentsIn order f now s = (.ok result, s')) : s.FailureCascade f now result.1 result.2 s' := by
  have hok : failDependentsBy order now (s.tasks.length + 1) f s = (.ok result, s') := transaction_ok hrun
  obtain ⟨visited, hunder, hmore⟩ := callsWalk hs _ (Nat.lt_succ_self _) (.inl rfl) (Underway.start s f now) hok
  exact hunder.finish (hmore f (.inl (List.mem_cons_self ..))) fun id hid => hmore id (.inr hid)

/-- A cascade that fails changes no table, and there are leftover history tags that it ran into. -/
theorem failDependentsIn_error {e : StoreError} {s' : Store}
    (hrun : failDependentsIn order f now s = (.error e, s')) :
    s.rollback s' = s' ∧ ¬s.HistoryTagsOwned := by
  obtain ⟨s₁, herr, rfl⟩ := transaction_error hrun
  refine ⟨rfl, fun howned => ?_⟩
  have htotal : Txn.Total _ (failDependentsBy order now (s.tasks.length + 1) f) _ := failDependentsBy_total order _ f
  obtain ⟨result, s₂, hok, _⟩ := htotal s howned
  cases hok.symm.trans herr

end Calls

end Walk

/-! ### The order does not matter -/

/-- The tables and the reported ids are determined by the tables before. -/
theorem Store.FailureCascade.unique {s s₁ s₂ : Store} {f now : Int} {failed₁ unblocked₁ failed₂ unblocked₂ : List Int}
    (h₁ : s.FailureCascade f now failed₁ unblocked₁ s₁) (h₂ : s.FailureCascade f now failed₂ unblocked₂ s₂) :
    s₁.tasks = s₂.tasks ∧ s₁.taskDeps = s₂.taskDeps ∧ s₁.taskTags = s₂.taskTags ∧
      failed₁.Perm failed₂ ∧ unblocked₁.Perm unblocked₂ := by
  have hfailed : ∀ id, id ∈ failed₁ ↔ id ∈ failed₂ := by
    have hset : {id | id ∈ failed₁} = {id | id ∈ failed₂} := h₁.least.unique h₂.least
    exact fun id => Set.ext_iff.1 hset id
  have hcontains : ∀ id, failed₁.contains id = failed₂.contains id := by
    intro id
    rw [Bool.eq_iff_iff, List.contains_iff_mem, List.contains_iff_mem]
    exact hfailed id
  have hdeps : s₁.taskDeps = s₂.taskDeps := by
    rw [h₁.edges, h₂.edges]
    refine List.filter_congr fun e _ => ?_
    rw [List.contains_cons, List.contains_cons, hcontains, hcontains]
  have hunblocked : ∀ id, id ∈ unblocked₁ ↔ id ∈ unblocked₂ := by
    intro id
    rw [h₁.unblocked_iff, h₂.unblocked_iff, hdeps]
    unfold Store.FreedBy
    simp only [List.mem_cons, hfailed]
  refine ⟨?_, hdeps, ?_, ?_, ?_⟩
  · rw [h₁.tasks, h₂.tasks]
    have hrows : (s.tasks.filter fun r => !failed₁.contains r.id) = s.tasks.filter fun r => !failed₂.contains r.id :=
      List.filter_congr fun r _ => by rw [hcontains]
    rw [hrows]
    refine List.map_congr_left fun r _ => ?_
    simp only [List.contains_iff_mem, hunblocked]
  · rw [h₁.tags, h₂.tags]
    exact List.filter_congr fun t _ => by rw [hcontains]
  · exact (List.perm_ext_iff_of_nodup h₁.failed_nodup h₂.failed_nodup).2 hfailed
  · exact (List.perm_ext_iff_of_nodup h₁.unblocked_nodup h₂.unblocked_nodup).2 hunblocked

/-- `fail_dependents` computes the failure closure, for every order in which SQLite returns the edges: as many nested
calls as there are rows are enough, a call that returns has done what `FailureCascade` says, a call that fails has
changed nothing, and two orders leave the same tables and report the same ids. -/
theorem fail_dependents_closure (s : Store) (hs : s.Schema) (f now : Int) :
    failDependents f now s = failDependentsIn .inserted f now s ∧
    (∀ (order : ReturnOrder) (fuel : Nat), s.tasks.length < fuel →
      failDependentsBy order now fuel f s = failDependentsBy order now (s.tasks.length + 1) f s) ∧
    (∀ order : ReturnOrder, s.CascadeOutcome f now (failDependentsIn order f now s)) ∧
    ∀ (order₁ order₂ : ReturnOrder) (failed₁ unblocked₁ failed₂ unblocked₂ : List Int) (s₁ s₂ : Store),
      failDependentsIn order₁ f now s = (.ok (failed₁, unblocked₁), s₁) →
      failDependentsIn order₂ f now s = (.ok (failed₂, unblocked₂), s₂) →
      s₁.tasks = s₂.tasks ∧ s₁.taskDeps = s₂.taskDeps ∧ s₁.taskTags = s₂.taskTags ∧
        failed₁.Perm failed₂ ∧ unblocked₁.Perm unblocked₂ := by
  refine ⟨?_, ?_, ?_, ?_⟩
  · rw [failDependentsIn_inserted]
  · exact fun order fuel hfuel => failDependentsBy_fuel order fuel _ f s hfuel (Nat.lt_succ_self _)
  · intro order
    rcases hrun : failDependentsIn order f now s with ⟨e | result, s'⟩
    · obtain ⟨htables, hleftover⟩ := failDependentsIn_error hrun
      exact .failed htables hleftover
    · exact .returned (failDependentsIn_ok hs hrun)
  · intro order₁ order₂ failed₁ unblocked₁ failed₂ unblocked₂ s₁ s₂ h₁ h₂
    exact (failDependentsIn_ok hs h₁).unique (failDependentsIn_ok hs h₂)

/-- `b` and `c` depend on `a`, `d` on both of them, and `e` waits for `a` and `d` but ignores failures; `a` is
gone. -/
def diamond : Store :=
  execAll sampleSha256 openMemory
    [.submitDirect (.new "a") 0, .submitDirect { TaskSubmission.new "b" with dependencies := [1] } 0,
      .submitDirect { TaskSubmission.new "c" with dependencies := [1] } 0,
      .submitDirect { TaskSubmission.new "d" with dependencies := [2, 3] } 0,
      .submitDirect { TaskSubmission.new "e" with dependencies := [1, 4], onDependencyFailure := .ignore } 0,
        .delete 1]

/-- The shared dependent is removed once, and the last one is released after its second edge is gone. -/
theorem diamond_closure :
    (failDependents 1 0 diamond).1.toOption = some ([2, 4, 3], [5]) ∧
      diamond.CascadeOutcome 1 0 (failDependentsIn .inserted 1 0 diamond) :=
  ⟨by decide +kernel,
    (fail_dependents_closure diamond (schema_execAll sampleSha256 _ openMemory_fresh.schema) 1 0).2.2.1 .inserted⟩

end Taskmill
