import Taskmill.Expiry
import Taskmill.Resolution
import Taskmill.Transact.Zoom

/-!
# Expiry at dispatch

`expire_single` is what the dispatcher calls for a candidate past its deadline.  It writes the history row of the
sweep and deletes the row with its tags, but it neither expires the children nor deletes edges, and no
`fail_dependents` follows it.  So it does what a sweep over this task does exactly for tasks without pending or
paused children and without edges.
-/

namespace Taskmill

open Transact

/-- `expire_tasks`: the sweep, and a `fail_dependents` for every task it reports; the errors of these are ignored. -/
def expireTasks (now : Int) : Sql (List TaskRecord) := do
  let expired ← expireTasksTx now
  let _ ← Txn.mapList (fun task => Txn.attempt (failDependents task.id now)) expired
  pure expired

/-! ### What is compared -/

/-- A history row without its row id and the time it was written. -/
def TaskHistoryRow.unstamped (h : TaskHistoryRow) : TaskHistoryRow := { h with id := 0, completedAt := 0 }

/-- The tables are the same up to row ids and times. -/
structure Store.SameUpToTimes (s s' : Store) : Prop where
  tasks : s.tasks.map TaskRow.unstamped = s'.tasks.map TaskRow.unstamped
  taskDeps : s.taskDeps = s'.taskDeps
  taskTags : s.taskTags = s'.taskTags
  taskHistory : (s.taskHistory.map TaskHistoryRow.unstamped).Perm (s'.taskHistory.map TaskHistoryRow.unstamped)

/-- The expiry of `x` at dispatch, which leaves `s`, agrees with a sweep, which leaves `s'`: no child of `x` is
left, and no edge from `x` or to it. -/
structure ExpiredAlike (x : TaskRow) (s s' : Store) : Prop where
  same : s.SameUpToTimes s'
  children : ∀ r ∈ s.tasks, x.hasChild r = false
  edges : ∀ e ∈ s.taskDeps, e.1 ≠ x.id ∧ e.2 ≠ x.id

/-- The task has no pending or paused child, no dependency and no dependent. -/
structure Store.Unattached (s : Store) (x : TaskRow) : Prop where
  children : ∀ r ∈ s.tasks, x.hasChild r = false
  edges : ∀ e ∈ s.taskDeps, e.1 ≠ x.id ∧ e.2 ≠ x.id

/-- `x` is pending or paused and past its deadline at both times, and nothing else expires at the second one. -/
structure Store.AloneExpired (s : Store) (x : TaskRow) (now now' : Int) : Prop where
  mem : x ∈ s.tasks
  status : x.pendingOrPaused = true
  past : x.past now = true
  past' : x.past now' = true
  alone : ∀ r ∈ s.tasks, r.past now' = true → (r.pendingOrPaused || r.status == .blocked) = true → r = x

/-! ### The two operations -/

section Operations

variable {s s₁ s₂ : Store} {x : TaskRow} {now now' : Int}

/-- Without dependents there is nothing to fail. -/
theorem failDependents_none {id : Int} (h : ∀ e ∈ s.taskDeps, e.2 ≠ id) (now : Int) :
    failDependents id now s = (.ok ([], []), s) := by
  have hnone : (s.taskDeps.filter fun e => e.2 == id) = [] := by
    rw [List.filter_eq_nil_iff]
    intro e he
    simpa using h e he
  have hall : (s.taskDeps.filter fun e => !(e.2 == id)) = s.taskDeps := by
    rw [List.filter_eq_self]
    intro e he
    simpa using h e he
  have hdelete : deleteEdgesTo id s = (.ok [], s) := by
    unfold deleteEdgesTo
    rw [hnone, hall]
    rfl
  refine Txn.atomically_of_ok ?_
  unfold failDependentsInner
  rw [Txn.bind_of_ok hdelete]
  rfl

/-- Cascades for tasks without dependents. -/
theorem cascades_none {expired : List TaskRecord}
    (h : ∀ task ∈ expired, ∀ e ∈ s.taskDeps, e.2 ≠ task.id) (now : Int) :
    ∃ us, Txn.mapList (fun task => Txn.attempt (failDependents task.id now)) expired s = (.ok us, s) := by
  induction expired with
  | nil => exact ⟨[], rfl⟩
  | cons task expired ih =>
    obtain ⟨us, hrest⟩ := ih fun t ht => h t (List.mem_cons_of_mem _ ht)
    have hfirst : Txn.attempt (failDependents task.id now) s = (.ok (), s) := by
      unfold Txn.attempt
      rw [failDependents_none (h task (List.mem_cons_self ..))]
    refine ⟨() :: us, ?_⟩
    unfold Txn.mapList
    rw [Txn.bind_of_ok hfirst, Txn.bind_of_ok hrest]
    rfl

/-- The dispatcher finds the row. -/
theorem expireSingle_eq (hs : s.Schema) (h : s.AloneExpired x now now') :
    expireSingle x.id now s =
      transaction (do let task ← expireRow x now; pure (some task) : Sql (Option TaskRecord)) s := by
  have hfind : (s.tasks.find? fun r => r.id == x.id && r.past now && r.pendingOrPaused) = some x := by
    cases hf : s.tasks.find? fun r => r.id == x.id && r.past now && r.pendingOrPaused with
    | none => exact absurd (List.find?_eq_none.1 hf x h.mem) (by simp [h.past, h.status])
    | some r =>
      have hr := List.find?_some hf
      rw [Bool.and_eq_true, Bool.and_eq_true, beq_iff_eq] at hr
      rw [hs.eq_of_id (List.mem_of_find?_eq_some hf) h.mem hr.1.1]
  unfold expireSingle
  refine transaction_congr ?_
  simp only [hfind]

/-- What the dispatcher does to the tables. -/
theorem expireSingle_ok (hs : s.Schema) (h : s.AloneExpired x now now') {task : Option TaskRecord}
    (hrun : expireSingle x.id now s = (.ok task, s₁)) : s.Expires now [x] [x.id] [] s₁ := by
  rw [expireSingle_eq hs h] at hrun
  obtain ⟨record, s₂, h₁, hrun⟩ := Txn.bind_ok (transaction_ok hrun)
  cases hrun
  exact (expireRow_expires h₁).2

/-- The sweep selects `x` and nothing else. -/
theorem expiredRows_alone (hs : s.Schema) (h : s.AloneExpired x now now') : s.expiredRows now' = [x] := by
  have hselected : (s.tasks.filter fun r => r.past now' && (r.pendingOrPaused || r.status == .blocked)) = [x] := by
    rw [← List.perm_singleton]
    refine (List.perm_ext_iff_of_nodup (hs.ids.of_map.filter _) (List.nodup_singleton x)).2 fun r => ?_
    rw [List.mem_filter, Bool.and_eq_true, List.mem_singleton]
    constructor
    · exact fun hr => h.alone r hr.1 hr.2.1 hr.2.2
    · rintro rfl
      exact ⟨h.mem, h.past', by simp [h.status]⟩
  unfold Store.expiredRows
  rw [hselected]
  rfl

/-- A sweep over `x` when all its children are itself. -/
theorem sweepRows_alone (hs : s.Schema) (h : s.AloneExpired x now now') :
    sweepRows s.tasks (s.expiredRows now') = s.tasks.filter x.hasChild ++ [x] := by
  rw [expiredRows_alone hs h, sweepRows, sweepRows, List.append_nil]

/-- Without dependents of the expired tasks, `expire_tasks` leaves what its sweep leaves. -/
theorem expireTasks_alone (hs : s.Schema) (h : s.AloneExpired x now now')
    (hchildren : ∀ r ∈ s.tasks, x.hasChild r = true → r = x) (hedges : ∀ e ∈ s.taskDeps, e.2 ≠ x.id)
    {expired : List TaskRecord} (hrun : expireTasksTx now' s = (.ok expired, s₂)) :
    (expireTasks now' s).2 = s₂ := by
  obtain ⟨hrows, logged, _, hexpires⟩ := expireTasksTx_ok hrun
  rw [sweepRows_alone hs h] at hrows
  have hsame : ∀ task ∈ expired, task.id = x.id := by
    intro task htask
    have hmem : task.toTaskRow ∈ expired.map (·.toTaskRow) := List.mem_map_of_mem htask
    rw [hrows, List.mem_append, List.mem_filter, List.mem_singleton] at hmem
    have hx : task.toTaskRow = x := hmem.elim (fun hr => hchildren _ hr.1 hr.2) id
    rw [← hx]
  have hnone : ∀ task ∈ expired, ∀ e ∈ s₂.taskDeps, e.2 ≠ task.id := by
    intro task htask e he
    rw [hsame task htask]
    rw [hexpires.edges] at he
    exact hedges e (List.mem_filter.1 he).1
  obtain ⟨us, hcascades⟩ := cascades_none hnone now'
  unfold expireTasks
  rw [Txn.bind_of_ok hrun, Txn.bind_of_ok hcascades]
  rfl

/-- The record of an expired row. -/
private def recordOf (s : Store) (row : TaskRow) : TaskRecord := { row with tags := s.tagsOf row.id }

/-- Both operations fail on the history tags of the row, if at all. -/
theorem expireRow_total (row : TaskRow) (now : Int) (hlog : ¬s.LogFails false (recordOf s row).id) :
    ∃ task s', expireRow row now s = (.ok task, s') := by
  have hinsert := insertHistory_logs hlog .expired {} none none now
  unfold expireRow
  rw [Txn.get_bind_apply]
  exact ⟨_, _, Txn.bind_of_ok hinsert⟩

theorem expireWithChildren_fails {row : TaskRow} (now : Int) (hlog : s.LogFails false (recordOf s row).id) :
    ∃ s', expireWithChildren now row s = (.error taskHistoryTagsError, s') := by
  obtain ⟨s', hinsert⟩ := insertHistory_fails hlog .expired {} none none now
  unfold expireWithChildren
  rw [Txn.get_bind_apply]
  exact ⟨s', Txn.bind_of_error hinsert⟩

theorem expireRow_fails {row : TaskRow} (now : Int) (hlog : s.LogFails false (recordOf s row).id) :
    ∃ s', expireRow row now s = (.error taskHistoryTagsError, s') := by
  obtain ⟨s', hinsert⟩ := insertHistory_fails hlog .expired {} none none now
  unfold expireRow
  rw [Txn.get_bind_apply]
  exact ⟨s', Txn.bind_of_error hinsert⟩

/-- A row without children is logged and deleted. -/
theorem expireWithChildren_total (row : TaskRow) (now : Int) (hlog : ¬s.LogFails false (recordOf s row).id)
    (hchildren : ∀ r ∈ s.tasks, row.hasChild r = false) :
    ∃ tasks s', expireWithChildren now row s = (.ok tasks, s') := by
  have hinsert := insertHistory_logs hlog .expired {} none none now
  have hnone : (s.tasks.filter fun r => r.parentId == some row.id && r.pendingOrPaused) = [] := by
    rw [List.filter_eq_nil_iff]
    intro r hr
    rw [Bool.not_eq_true]
    exact hchildren r hr
  have hread : ((fun s : Store => s.tasks.filter fun r => r.parentId == some row.id && r.pendingOrPaused) <$>
    Txn.get : Sql _)
      (s.logTask false (fun hid => historyRow hid (recordOf s row) .expired {} none none now) (recordOf s row).id) =
        (.ok [], s.logTask false (fun hid => historyRow hid (recordOf s row) .expired {} none none now)
            (recordOf s row).id) := by
    rw [← hnone]
    rfl
  unfold expireWithChildren
  rw [Txn.get_bind_apply]
  exact ⟨_, _, (Txn.bind_of_ok hinsert).trans ((Txn.bind_of_ok hread).trans rfl)⟩

/-- The sweep over `x` runs into the same history tags. -/
theorem expireTasks_fails (hs : s.Schema) (h : s.AloneExpired x now now')
    (hlog : s.LogFails false (recordOf s x).id) :
    ∃ e s', expireTasks now' s = (.error e, s') ∧ s.rollback s' = s' := by
  obtain ⟨s₁, hround⟩ := expireWithChildren_fails now' hlog
  have hrounds : Txn.mapList (expireWithChildren now') (s.expiredRows now') s =
      (.error taskHistoryTagsError, s₁) := by
    rw [expiredRows_alone hs h]
    exact Txn.bind_of_error hround
  have hread : ((fun s : Store => s.expiredRows now') <$> Txn.get : Sql _) s = (.ok (s.expiredRows now'), s) := rfl
  have hsweep : expireTasksTx now' s = (.error taskHistoryTagsError, s.rollback s₁) :=
    Txn.atomically_of_error ((Txn.bind_of_ok hread).trans (Txn.bind_of_error hrounds))
  exact ⟨_, _, Txn.bind_of_error hsweep, rfl⟩

theorem expireTasksTx_alone (hs : s.Schema) (h : s.AloneExpired x now now')
    (hlog : ¬s.LogFails false (recordOf s x).id) (hchildren : ∀ r ∈ s.tasks, x.hasChild r = false) :
    ∃ expired s', expireTasksTx now' s = (.ok expired, s') := by
  obtain ⟨tasks, s₁, hround⟩ := expireWithChildren_total x now' hlog hchildren
  have hrounds : Txn.mapList (expireWithChildren now') (s.expiredRows now') s = (.ok [tasks], s₁) := by
    rw [expiredRows_alone hs h, Txn.mapList, Txn.bind_of_ok hround]
    rfl
  have hbody : (do
      let rows ← (fun s => s.expiredRows now') <$> Txn.get
      let expired ← Txn.mapList (expireWithChildren now') rows
      pure expired.flatten : Sql (List TaskRecord)) s = (.ok [tasks].flatten, s₁) := Txn.bind_of_ok hrounds
  exact ⟨_, _, Txn.atomically_of_ok hbody⟩

end Operations

/-! ### The comparison -/

section Comparison

variable {s s₁ s₂ : Store} {x : TaskRow} {now now' : Int}

/-- The history rows that a step adds, up to row ids and times. -/
theorem Store.Expires.unstamped {logged : List TaskRow} {gone cleaned : List Int}
    (h : s.Expires now logged gone cleaned s₁) :
    s₁.taskHistory.map TaskHistoryRow.unstamped =
      s.taskHistory.map TaskHistoryRow.unstamped ++ logged.map fun row => (expiredEntry 0 row) := by
  obtain ⟨entries, hhist, hlog⟩ := h.history
  have hmap := congrArg (List.map TaskHistoryRow.unstamped) hlog
  rw [List.map_map, List.map_map] at hmap
  rw [hhist, List.map_append]
  exact congrArg _ hmap

/-- If both expire the same row and no edge has to go, then they leave the same tables. -/
theorem sameUpToTimes_of_expires (h₁ : s.Expires now [x] [x.id] [] s₁) (h₂ : s.Expires now' [x] [x.id] [x.id] s₂)
    (hedges : ∀ e ∈ s.taskDeps, e.1 ≠ x.id) : s₁.SameUpToTimes s₂ where
  tasks := by rw [h₁.tasks, h₂.tasks]
  taskDeps := by
    rw [h₁.edges, h₂.edges]
    refine List.filter_congr fun e he => ?_
    have hne := hedges e he
    simp [hne]
  taskTags := by rw [h₁.tags, h₂.tags]
  taskHistory := by rw [h₁.unstamped, h₂.unstamped]

/-- For a pending or paused task past its deadline, and no other expired task, `expire_single` leaves what
`expire_tasks` leaves, with no child and no edge of the task left, if and only if the task has no pending or paused
child and no edge.  If it fails, then so does `expire_tasks`, and neither changes a table. -/
theorem expire_single_iff (hs : s.Schema) (h : s.AloneExpired x now now') :
    (∀ task s₁, expireSingle x.id now s = (.ok task, s₁) →
      (ExpiredAlike x s₁ (expireTasks now' s).2 ↔ s.Unattached x)) ∧
    ∀ e s₁, expireSingle x.id now s = (.error e, s₁) →
      s.rollback s₁ = s₁ ∧ s.rollback (expireTasks now' s).2 = (expireTasks now' s).2 := by
  refine ⟨fun task s₁ hrun => ?_, fun e s₁ hrun => ?_⟩
  · have hsingle := expireSingle_ok hs h hrun
    have hdeps : s₁.taskDeps = s.taskDeps := by
      rw [hsingle.edges]
      simp
    constructor
    · intro halike
      have hedges : ∀ e ∈ s.taskDeps, e.1 ≠ x.id ∧ e.2 ≠ x.id := by
        rw [← hdeps]
        exact halike.edges
      have honly : ∀ r ∈ s.tasks, x.hasChild r = true → r = x := by
        intro r hr hchild
        by_contra hne
        have hid : r.id ≠ x.id := fun hid => hne (hs.eq_of_id hr h.mem hid)
        have hleft : r ∈ s₁.tasks := by
          rw [hsingle.tasks]
          exact List.mem_filter.2 ⟨hr, by simpa using hid⟩
        rw [halike.children r hleft] at hchild
        cases hchild
      refine ⟨fun r hr => ?_, hedges⟩
      -- the sweep has logged a child of `x`, or it has changed nothing
      rcases hsweep : expireTasksTx now' s with ⟨e | expired, s₂⟩
      · have hfailed : (expireTasks now' s).2 = s₂ := by
          unfold expireTasks
          rw [Txn.bind_of_error hsweep]
        obtain ⟨s₃, _, rfl⟩ := transaction_error hsweep
        have htasks := halike.same.tasks
        rw [hfailed, hsingle.tasks, Store.rollback_tasks] at htasks
        have hlen := congrArg List.length htasks
        rw [List.length_map, List.length_map] at hlen
        have hall := List.length_filter_eq_length_iff.1 hlen x h.mem
        simp at hall
      · obtain ⟨_, logged, hperm, hexpires⟩ := expireTasksTx_ok hsweep
        have hhist := halike.same.taskHistory.length_eq
        rw [expireTasks_alone hs h honly (fun e he => (hedges e he).2) hsweep, hsingle.unstamped,
          hexpires.unstamped] at hhist
        simp only [List.length_append, List.length_map, List.length_singleton, hperm.length_eq,
          sweepRows_alone hs h] at hhist
        have hnone : s.tasks.filter x.hasChild = [] := by
          apply List.eq_nil_of_length_eq_zero
          omega
        rw [← Bool.not_eq_true]
        exact List.filter_eq_nil_iff.1 hnone r hr
    · intro hfree
      have hlog : ¬s.LogFails false (recordOf s x).id := by
        intro hfails
        obtain ⟨s', hrow⟩ := expireRow_fails now hfails
        rw [expireSingle_eq hs h, transaction, Txn.atomically_of_error (Txn.bind_of_error hrow)] at hrun
        cases hrun
      obtain ⟨expired, s₂, hsweep⟩ := expireTasksTx_alone hs h hlog hfree.children
      have hnone : s.tasks.filter x.hasChild = [] := by
        rw [List.filter_eq_nil_iff]
        intro r hr
        rw [Bool.not_eq_true]
        exact hfree.children r hr
      obtain ⟨hrows, logged, hperm, hexpires⟩ := expireTasksTx_ok hsweep
      have hids : expired.map (·.id) = [x.id] := by
        have hmap := congrArg (List.map (·.id)) hrows
        rwa [List.map_map, sweepRows_alone hs h, hnone] at hmap
      rw [sweepRows_alone hs h, hnone, List.nil_append, List.perm_singleton] at hperm
      rw [hperm, hids, expiredRows_alone hs h] at hexpires
      rw [expireTasks_alone hs h (fun r hr hchild => by rw [hfree.children r hr] at hchild; cases hchild)
        (fun e he => (hfree.edges e he).2) hsweep]
      refine ⟨sameUpToTimes_of_expires hsingle hexpires fun e he => (hfree.edges e he).1, fun r hr => ?_, ?_⟩
      · rw [hsingle.tasks] at hr
        exact hfree.children r (List.mem_filter.1 hr).1
      · rw [hdeps]
        exact hfree.edges
  · have hlog : s.LogFails false (recordOf s x).id := by
      by_contra hok
      obtain ⟨record, s', hrow⟩ := expireRow_total x now hok
      have hbody : (do let task ← expireRow x now; pure (some task) : Sql (Option TaskRecord)) s =
          (.ok (some record), s') :=
        Txn.bind_of_ok hrow
      rw [expireSingle_eq hs h, transaction, Txn.atomically_of_ok hbody] at hrun
      cases hrun
    obtain ⟨_, _, rfl⟩ := transaction_error hrun
    obtain ⟨e', s', hsweep, htables⟩ := expireTasks_fails hs h hlog
    rw [hsweep]
    exact ⟨rfl, htables⟩

end Comparison

/-- `a` waits past its deadline, and `b` depends on it. -/
def overdueDependency : Store :=
  execAll sampleSha256 openMemory
    [.submitDirect { TaskSubmission.new "a" with ttl := some ⟨1000000000⟩ } 0,
      .submitDirect { TaskSubmission.new "b" with dependencies := [1] } 0]

/-- The row of `a`. -/
def overdueA : TaskRow :=
  { { TaskSubmission.new "a" with ttl := some ⟨1000000000⟩ }.newRow (sampleSha256 [97, 58]) 0 with
    id := 1, inst := 0 }

/-- `a` expires at dispatch, and `b` stays blocked on a task that is not there any more; the sweep fails `b`. -/
theorem dependent_left_blocked :
    overdueDependency.AloneExpired overdueA 5000 5000 ∧
      ∃ task s₁, expireSingle 1 5000 overdueDependency = (.ok task, s₁) ∧
        s₁.tasks.map (fun r => (r.id, r.status)) = [(2, .blocked)] ∧ s₁.taskDeps = [(2, 1)] ∧
        (expireTasks 5000 overdueDependency).2.tasks = [] ∧
        ¬ExpiredAlike overdueA s₁ (expireTasks 5000 overdueDependency).2 := by
  refine ⟨⟨by decide +kernel, by decide +kernel, by decide +kernel, by decide +kernel, by decide +kernel⟩, ?_⟩
  have hok : (expireSingle 1 5000 overdueDependency).1.toOption.isSome = true := by decide +kernel
  have hrows : (expireSingle 1 5000 overdueDependency).2.tasks.map (fun r => (r.id, r.status)) = [(2, .blocked)] := by
    decide +kernel
  have hdeps : (expireSingle 1 5000 overdueDependency).2.taskDeps = [(2, 1)] := by decide +kernel
  have hswept : (expireTasks 5000 overdueDependency).2.tasks = [] := by decide +kernel
  rcases hrun : expireSingle 1 5000 overdueDependency with ⟨e | task, s₁⟩
  · rw [hrun] at hok
    cases hok
  · rw [hrun] at hrows hdeps
    refine ⟨task, s₁, rfl, hrows, hdeps, hswept, fun h => ?_⟩
    exact (h.edges (2, 1) (by rw [hdeps]; exact List.mem_singleton_self _)).2 rfl

/-- `a` alone. -/
def waitingA : Store :=
  execAll sampleSha256 openMemory [.submitDirect { TaskSubmission.new "a" with ttl := some ⟨1000000000⟩ } 0]

private theorem waitingA_alone : waitingA.AloneExpired overdueA 5000 6000 :=
  ⟨by decide +kernel, by decide +kernel, by decide +kernel, by decide +kernel, by decide +kernel⟩

/-- It has neither children nor edges, so both leave the same tables. -/
theorem waitingA_alike :
    waitingA.Unattached overdueA ∧
      ∀ task s₁, expireSingle overdueA.id 5000 waitingA = (.ok task, s₁) →
        (ExpiredAlike overdueA s₁ (expireTasks 6000 waitingA).2 ↔ waitingA.Unattached overdueA) :=
  ⟨⟨by decide +kernel, by decide +kernel⟩,
    (expire_single_iff (schema_execAll sampleSha256 _ openMemory_fresh.schema) waitingA_alone).1⟩

end Taskmill
