import Taskmill.Schema
import Taskmill.SubmitCases

/-!
# Superseding and submitting afresh

A submission that supersedes the task with its key goes through one of two statements of `supersede_existing`, and a
fresh one through the `INSERT` of `submit_one`.  The three have column lists of their own.  The `UPDATE` keeps the
schedule, the parent, the policy, `created_at`, the memo and the pause columns of the old row; the second `INSERT`
leaves `run_after`, the recurring columns and the policy at their defaults; and neither looks at the dependencies of
the submission or at its group.  `supersede_iff` says when nothing of this shows.
-/

namespace Taskmill

open Transact

/-! ### What is compared -/

/-- The store without a task: its row, its tags and its edges are gone. -/
def Store.without (s : Store) (id : Int) : Store :=
  { s.delete id with taskDeps := s.taskDeps.filter fun e => !(e.1 == id) && !(e.2 == id) }

/-- The tasks that a task depends on. -/
def Store.dependenciesOf (s : Store) (id : Int) : List Int := (s.taskDeps.filter fun e => e.1 == id).map Prod.snd

/-- The columns that a submission determines, the status and the pause columns. -/
def TaskRow.determined (r : TaskRow) : TaskRow :=
  { r with id := 0, inst := 0, taskType := "", key := "", startedAt := none }

/-- The task with the key is in `s₁`, which a superseding submission has left, as it is in `s₂`, which a fresh one has
left, and the old task has one more history row. -/
structure Store.SupersededAsFresh (s : Store) (key : String) (old : TaskRow) (now : Int) (s₁ s₂ : Store) : Prop where
  row : ∃ r₁ r₂, s₁.taskByKey key = some r₁ ∧ s₂.taskByKey key = some r₂ ∧ r₁.determined = r₂.determined ∧
    s₁.tagsOf r₁.id = s₂.tagsOf r₂.id ∧ s₁.dependenciesOf r₁.id = s₂.dependenciesOf r₂.id
  logged : s₁.taskHistory = s.taskHistory ++
    [historyRow s.nextHistoryId (rowToTaskRecord old) .superseded {} (old.startedAt.map (now - ·)) none now]

/-- The columns that the `UPDATE` keeps are those that the submission asks for. -/
structure TaskSubmission.Restates (sub : TaskSubmission) (old : TaskRow) (now : Int) : Prop where
  parentId : old.parentId = sub.parentId
  runAfter : old.runAfter = sub.runAfter
  interval : old.recurringIntervalSecs = sub.recurring.map fun r => asI64 r.interval.asSecs
  maxExecutions : old.recurringMaxExecutions = sub.recurring.bind fun r => r.maxExecutions.map fun n => asI64 n
  executionCount : old.recurringExecutionCount = 0
  notPaused : old.recurringPaused = false
  onDepFailure : old.onDepFailure = sub.onDependencyFailure
  createdAt : old.createdAt = now
  memo : old.memo = none
  pauseReasons : old.pauseReasons = .none
  pauseDurationMs : old.pauseDurationMs = 0
  pausedAtMs : old.pausedAtMs = none

/-- The submission asks for nothing that the second `INSERT` leaves out. -/
structure TaskSubmission.Plain (sub : TaskSubmission) : Prop where
  runAfter : sub.runAfter = none
  recurring : sub.recurring = none
  onDepFailure : sub.onDependencyFailure = .cancel

/-- Nothing of the old task shows after the submission, and nothing of the submission is lost. -/
def Store.SupersedesAsFresh (s : Store) (sub : TaskSubmission) (old : TaskRow) (now : Int) : Prop :=
  (∀ dep ∈ sub.dependencies, s.historyStatus dep ≠ none) ∧ s.groupPaused sub.groupKey = false ∧
    match old.status with
    | .pending | .paused | .blocked =>
      sub.Restates old now ∧ (s.without old.id).tagsOf (s.without old.id).nextTaskId = [] ∧
        s.dependenciesOf old.id = (s.without old.id).dependenciesOf (s.without old.id).nextTaskId
    | .running | .waiting =>
      sub.Plain ∧
        s.dependenciesOf (s.without old.id).nextTaskId =
          (s.without old.id).dependenciesOf (s.without old.id).nextTaskId

/-! ### A fresh submission -/

/-- A new row after its dependencies and its group have been looked up. -/
def Store.settleRow (s : Store) (sub : TaskSubmission) (active : List Int) (now : Int) (row : TaskRow) : TaskRow :=
  if active = [] then if s.groupPaused sub.groupKey then row.pauseFor .group now else row
  else { row with status := .blocked }

section Fresh

variable {sha256 : List UInt8 → String} {sub : TaskSubmission} {skipRequeue : Bool} {now : Int} {s s' : Store}

/-- An update of the row that was added last. -/
private theorem updateTasks_last {tasks : List TaskRow} {row : TaskRow} {p : TaskRow → Bool} (f : TaskRow → TaskRow)
    (h : ∀ r ∈ tasks, p r = false) :
    ((tasks ++ [row]).map fun r => if p r then f r else r) = tasks ++ [if p row then f row else row] := by
  rw [List.map_append, List.map_singleton]
  congr 1
  calc tasks.map (fun r => if p r then f r else r)
      = tasks.map id := List.map_congr_left fun r hr => by rw [h r hr]; rfl
    _ = tasks := List.map_id tasks

/-- Every dependency that is not in history gets an edge. -/
theorem activeDeps_eq_nil {policy : DependencyFailurePolicy} {deps active : List Int}
    (h : s.activeDeps policy deps = .ok active) :
    active = [] ↔ ∀ dep ∈ deps, s.historyStatus dep ≠ none := by
  have hneed : ∀ deps needed, needActiveCheck s policy deps = .ok needed →
      (needed = [] ↔ ∀ dep ∈ deps, s.historyStatus dep ≠ none) := by
    intro deps
    induction deps with
    | nil =>
      intro needed h
      cases h
      simp
    | cons d deps ih =>
      intro needed h
      unfold needActiveCheck at h
      rw [List.forall_mem_cons]
      split at h
      · rename_i hd
        rw [ih needed h]
        simp [hd]
      · rename_i hd
        split at h
        · cases h
        · cases h
        · rw [ih needed h]
          simp [hd]
      · rename_i hd
        cases hrest : needActiveCheck s policy deps with
        | error e =>
          rw [hrest] at h
          cases h
        | ok rest =>
          rw [hrest] at h
          cases h
          simp [hd]
  have hact : ∀ needed active, activeDependencies s needed = .ok active → (active = [] ↔ needed = []) := by
    intro needed active h
    cases needed with
    | nil =>
      cases h
      simp
    | cons d needed =>
      unfold activeDependencies at h
      split at h
      · cases hrest : activeDependencies s needed with
        | error e =>
          rw [hrest] at h
          cases h
        | ok rest =>
          rw [hrest] at h
          cases h
          simp
      · cases h
  rw [activeDeps_of_le (activeDeps_ok_le h)] at h
  cases hn : needActiveCheck s policy deps with
  | error e =>
    rw [hn] at h
    cases h
  | ok needed =>
    rw [hn] at h
    rw [hact needed active h, hneed deps needed hn]

theorem tagsOf_append (tags : List (Int × String × String)) (id : Int) (entries : List (String × String)) :
    (s.withTags (tags ++ entries.map fun tag => (id, tag))).tagsOf id = (s.withTags tags).tagsOf id ++ entries := by
  unfold Store.tagsOf
  have hown : ((entries.map fun tag => (id, tag)).filter fun t => t.1 == id) = entries.map fun tag => (id, tag) := by
    rw [List.filter_eq_self]
    intro t ht
    obtain ⟨tag, _, rfl⟩ := List.mem_map.1 ht
    exact beq_self_eq_true id
  rw [Store.withTags_taskTags, List.filter_append, hown, List.map_append, List.map_map]
  congr 1
  exact List.map_id entries

/-- Tags that could be inserted are there after the others. -/
theorem insertTags_ok {id : Int} {tags : List (String × String)} {u : Unit} (h : insertTags id tags s = (.ok u, s')) :
    s' = s.withTags (s.taskTags ++ tags.map fun tag => (id, tag)) := by
  by_cases href : s.TagsRefused id tags
  · obtain ⟨tt, herr⟩ := insertTags_refused href
    cases herr.symm.trans h
  · rw [Store.TagsRefused, not_or, not_not] at href
    cases (insertTags_free href.1 href.2).symm.trans h
    rfl

theorem attachDependencies_ok {id : Int} {deps : List Int} {policy : DependencyFailurePolicy} {u : Unit}
    (h : attachDependencies id deps policy s = (.ok u, s')) :
    ∃ active, s.activeDeps policy deps = .ok active ∧
      s' = if active = [] then s else (s.addEdges (edgesFrom id active)).block id := by
  rw [attachDependencies_apply] at h
  cases hactive : s.activeDeps policy deps with
  | error e =>
    rw [hactive] at h
    cases h
  | ok active =>
    simp only [hactive] at h
    refine ⟨active, rfl, ?_⟩
    split at h
    · rename_i hnil
      cases h
      rw [if_pos hnil]
    · rename_i hne
      rw [if_neg hne]
      split at h
      · split at h
        · cases h
        · cases h
          rfl
      · cases h

/-- The last statements of a fresh submission: the edges, the status and the group pause of the row `n`. -/
def Store.settle (s : Store) (sub : TaskSubmission) (n : Int) (active : List Int) (now : Int) : Store :=
  (if active = [] then s else (s.addEdges (edgesFrom n active)).block n).pauseNew n sub.groupKey now

theorem settle_tasks {tasks : List TaskRow} {row : TaskRow} (hs : s.tasks = tasks ++ [row])
    (hst : row.status = .pending) (hold : ∀ r ∈ tasks, (r.id == row.id) = false) (active : List Int) :
    (s.settle sub row.id active now).tasks = tasks ++ [s.settleRow sub active now row] := by
  unfold Store.settle Store.pauseNew Store.settleRow
  by_cases hempty : active = []
  · rw [if_pos hempty, if_pos hempty]
    split
    · rw [Store.updateTasks_tasks, hs, updateTasks_last _ fun r hr => by rw [hold r hr, Bool.false_and]]
      simp [hst]
    · exact hs
  · have hblocked : ((s.addEdges (edgesFrom row.id active)).block row.id).tasks =
        tasks ++ [{ row with status := .blocked }] := by
      unfold Store.block
      rw [Store.updateTasks_tasks, Store.addEdges_tasks, hs, updateTasks_last _ hold]
      simp
    rw [if_neg hempty, if_neg hempty]
    split
    · rw [Store.updateTasks_tasks, hblocked, updateTasks_last _ fun r hr => by rw [hold r hr, Bool.false_and]]
      simp
    · exact hblocked

theorem settle_rest (n : Int) (active : List Int) : (s.settle sub n active now).taskTags = s.taskTags ∧
    (s.settle sub n active now).taskDeps = s.taskDeps ++ edgesFrom n active := by
  have hpause : ∀ t : Store, (t.pauseNew n sub.groupKey now).taskTags = t.taskTags ∧
      (t.pauseNew n sub.groupKey now).taskDeps = t.taskDeps := by
    intro t
    unfold Store.pauseNew
    split
    · exact ⟨rfl, rfl⟩
    · exact ⟨rfl, rfl⟩
  unfold Store.settle
  rw [(hpause _).1, (hpause _).2]
  split
  · rename_i hempty
    rw [hempty]
    exact ⟨rfl, (List.append_nil _).symm⟩
  · exact ⟨rfl, rfl⟩

theorem dependenciesOf_append {s s' : Store} {n : Int} {active : List Int}
    (h : s'.taskDeps = s.taskDeps ++ edgesFrom n active) :
    s'.dependenciesOf n = s.dependenciesOf n ++ active := by
  unfold Store.dependenciesOf
  have hown : ((edgesFrom n active).filter fun e => e.1 == n) = edgesFrom n active := by
    rw [List.filter_eq_self]
    intro e he
    simpa using (mem_edgesFrom.1 he).1
  rw [h, List.filter_append, hown, List.map_append]
  congr 1
  unfold edgesFrom
  rw [List.map_map]
  exact List.map_id active

theorem finishInsert_ok {n : Int} {outcome : SubmitOutcome} (h : finishInsert sub n now s = (.ok outcome, s')) :
    ∃ active, (active = [] ↔ ∀ dep ∈ sub.dependencies, s.historyStatus dep ≠ none) ∧ ∃ hierarchy hasTags,
      s' = (s.tagged (s.taskTags ++ sub.tags.entries.map fun tag => (n, tag)) hierarchy hasTags).settle sub n
        active now := by
  obtain ⟨tags, hierarchy, hasTags, hcase⟩ := finishInsert_cases sub n now s
  rcases hcase with ⟨_, herr⟩ | ⟨htags, hcase⟩
  · cases herr.symm.trans h
  rcases hcase with ⟨e, s₂, _, herr⟩ | ⟨s₂, hattach, hok⟩
  · cases herr.symm.trans h
  cases hok.symm.trans h
  obtain ⟨active, hactive, rfl⟩ := attachDependencies_ok hattach
  have hnil := activeDeps_eq_nil hactive
  have htable : tags = s.taskTags ++ sub.tags.entries.map fun tag => (n, tag) :=
    congrArg Store.taskTags (insertTags_ok htags)
  refine ⟨active, hnil, hierarchy, hasTags, ?_⟩
  rw [← htable]
  rfl

private theorem settleRow_names {active : List Int} (row : TaskRow) :
    (s.settleRow sub active now row).id = row.id ∧ (s.settleRow sub active now row).key = row.key := by
  unfold Store.settleRow
  split
  · split
    · exact ⟨rfl, rfl⟩
    · exact ⟨rfl, rfl⟩
  · exact ⟨rfl, rfl⟩

/-- The row that was added last. -/
private theorem find_last {tasks : List TaskRow} {row : TaskRow} {key : String}
    (h : tasks.find? (·.key == key) = none) (hrow : row.key = key) :
    (tasks ++ [row]).find? (·.key == key) = some row := by
  rw [List.find?_append, h]
  simp [hrow]

/-- The row that a fresh submission inserts, with the id and the number it gets. -/
def Store.freshRow (s : Store) (sub : TaskSubmission) (key : String) (now : Int) : TaskRow :=
  { sub.newRow key now with id := s.nextTaskId, inst := s.nextInst }

/-- A fresh submission has left the store `s'`, with edges to the tasks `active`. -/
structure Store.SubmittedFresh (s : Store) (sub : TaskSubmission) (key : String) (now : Int)
    (active : List Int) (s' : Store) :
    Prop where
  active_iff : active = [] ↔ ∀ dep ∈ sub.dependencies, s.historyStatus dep ≠ none
  row : s'.taskByKey key = some (s.settleRow sub active now (s.freshRow sub key now))
  tags : s'.tagsOf s.nextTaskId = s.tagsOf s.nextTaskId ++ sub.tags.entries
  dependencies : s'.dependenciesOf s.nextTaskId = s.dependenciesOf s.nextTaskId ++ active

theorem submitOne_submittedFresh (hv : sub.validate = .ok ()) (hk : s.taskByKey (sub.effectiveKey sha256) = none)
    {outcome : SubmitOutcome} (h : submitOne sha256 sub skipRequeue now s = (.ok outcome, s')) :
    ∃ active, s.SubmittedFresh sub (sub.effectiveKey sha256) now active s' := by
  rw [submitOne_fresh hv hk] at h
  obtain ⟨active, hnil, hierarchy, hasTags, rfl⟩ := finishInsert_ok h
  have hold : ∀ r ∈ s.tasks, (r.id == s.nextTaskId) = false := by
    intro r hr
    rw [beq_eq_false_iff_ne]
    intro hid
    have hmem : r.id ∈ s.ids := List.mem_map_of_mem hr
    rw [hid] at hmem
    exact nextRowid_not_mem s.ids hmem
  refine ⟨active, hnil, ?_, ?_, ?_⟩
  · have htasks : ∀ t : Store, t.tasks = s.tasks ++ [s.freshRow sub (sub.effectiveKey sha256) now] →
        t.pausedGroups = s.pausedGroups → (t.settle sub s.nextTaskId active now).taskByKey (sub.effectiveKey sha256) =
          some (s.settleRow sub active now (s.freshRow sub (sub.effectiveKey sha256) now)) := by
      intro t ht hgroups
      have hsame : t.settleRow sub active now = s.settleRow sub active now := by
        unfold Store.settleRow Store.groupPaused
        rw [hgroups]
      have hlast : (t.settle sub s.nextTaskId active now).tasks =
          s.tasks ++ [t.settleRow sub active now (s.freshRow sub (sub.effectiveKey sha256) now)] :=
            settle_tasks ht rfl hold active
      rw [← hsame]
      unfold Store.taskByKey
      exact (congrArg (List.find? _) hlast).trans (find_last hk (settleRow_names _).2)
    exact htasks _ rfl rfl
  · unfold Store.tagsOf
    rw [(settle_rest _ active).1]
    exact tagsOf_append s.taskTags s.nextTaskId sub.tags.entries
  · exact dependenciesOf_append (s := s) (settle_rest _ active).2

end Fresh

/-! ### A superseding submission -/

section Supersede

variable {sha256 : List UInt8 → String} {sub : TaskSubmission} {skipRequeue : Bool} {now : Int} {s s₁ s₂ : Store}
    {old : TaskRow}

/-- The row with a key after a change that keeps the keys. -/
private theorem taskByKey_map {tasks : List TaskRow} {key : String} {f : TaskRow → TaskRow}
    (hf : ∀ r, (f r).key = r.key) :
    (tasks.map f).find? (·.key == key) = (tasks.find? (·.key == key)).map f := by
  rw [List.find?_map]
  congr 2
  funext r
  simp [hf]

/-- What the `UPDATE` leaves. -/
theorem supersedeInPlace_ok {outcome : SubmitOutcome} {id : Int}
    (h : supersedeInPlace sub id now s = (.ok outcome, s₁)) :
    s₁.tasks = s.tasks.map (fun r => if r.id == id then sub.supersedeRow s.nextInst now r else r) ∧
      s₁.tagsOf id = sub.tags.entries ∧ s₁.taskDeps = s.taskDeps ∧ s₁.taskHistory = s.taskHistory := by
  obtain ⟨_, s₂, h₂, h⟩ := Txn.bind_ok h
  cases h₂
  obtain ⟨_, s₃, h₃, h⟩ := Txn.bind_ok h
  cases h₃
  obtain ⟨_, s₄, h₄, h⟩ := Txn.bind_ok h
  cases h
  obtain rfl := insertTags_ok h₄
  refine ⟨rfl, ?_, rfl, rfl⟩
  have happend := tagsOf_append (s := s) (s.taskTags.filter fun t => !(t.1 == id)) id sub.tags.entries
  have hnone : (s.withTags (s.taskTags.filter fun t => !(t.1 == id))).tagsOf id = [] := by
    unfold Store.tagsOf
    rw [Store.withTags_taskTags, List.filter_filter]
    simp
  rw [hnone, List.nil_append] at happend
  exact happend

/-- What the `DELETE` and the second `INSERT` leave. -/
theorem supersedeReplace_ok {outcome : SubmitOutcome} {key : String} {id : Int}
    (h : supersedeReplace sub key id now s = (.ok outcome, s₁)) :
    s₁.tasks = (s.delete id).tasks ++
      [{ sub.baseRow key now with id := (s.delete id).nextTaskId, inst := s.nextInst }] ∧
      s₁.tagsOf (s.delete id).nextTaskId = (s.delete id).tagsOf (s.delete id).nextTaskId ++ sub.tags.entries ∧
      s₁.taskDeps = s.taskDeps ∧ s₁.taskHistory = s.taskHistory := by
  obtain ⟨_, s₂, h₂, h⟩ := Txn.bind_ok h
  cases h₂
  obtain ⟨n, s₃, h₃, h⟩ := Txn.bind_ok h
  obtain ⟨rfl, rfl⟩ := insertTask_ok h₃
  obtain ⟨_, s₄, h₄, h⟩ := Txn.bind_ok h
  cases h
  obtain rfl := insertTags_ok h₄
  refine ⟨rfl, ?_, rfl, rfl⟩
  exact tagsOf_append (s := s) (s.delete id).taskTags (s.delete id).nextTaskId sub.tags.entries

/-- The status of a new row tells whether it has dependencies or its group is paused. -/
theorem settleRow_pending {active : List Int} {row : TaskRow} (hst : row.status = .pending) :
    (s.settleRow sub active now row).status = .pending ↔ active = [] ∧ s.groupPaused sub.groupKey = false := by
  unfold Store.settleRow
  by_cases hempty : active = []
  · by_cases hgroup : s.groupPaused sub.groupKey = true
    · simp [hempty, hgroup, TaskRow.pauseFor]
    · simp [hempty, hgroup, hst]
  · simp [hempty]

/-- A new row that is pending has the columns of the `INSERT`. -/
private theorem settleRow_plain {active : List Int} {row : TaskRow} (hempty : active = [])
    (hgroup : s.groupPaused sub.groupKey = false) :
    s.settleRow sub active now row = row := by
  unfold Store.settleRow
  rw [if_pos hempty, hgroup]
  rfl

/-- The row after the `UPDATE` is a fresh one if and only if what the `UPDATE` keeps fits. -/
theorem supersedeRow_fresh_iff {inst : Nat} {key : String} {active : List Int} :
    (sub.supersedeRow inst now old).determined = (s.settleRow sub active now (s.freshRow sub key now)).determined ↔
      (active = [] ∧ s.groupPaused sub.groupKey = false) ∧ sub.Restates old now := by
  have hpending : (s.settleRow sub active now (s.freshRow sub key now)).status = .pending ↔
      active = [] ∧ s.groupPaused sub.groupKey = false := settleRow_pending rfl
  constructor
  · intro h
    obtain ⟨hempty, hgroup⟩ := hpending.1 (congrArg TaskRow.status h).symm
    rw [settleRow_plain hempty hgroup] at h
    simp only [TaskRow.determined, Store.freshRow, TaskSubmission.supersedeRow, TaskSubmission.newRow,
      TaskSubmission.baseRow, TaskRow.mk.injEq] at h
    refine ⟨⟨hempty, hgroup⟩, ?_⟩
    constructor <;> simp [h]
  · rintro ⟨⟨hempty, hgroup⟩, hrestates⟩
    rw [settleRow_plain hempty hgroup]
    obtain ⟨h₁, h₂, h₃, h₄, h₅, h₆, h₇, h₈, h₉, h₁₀, h₁₁, h₁₂⟩ := hrestates
    simp [TaskRow.determined, Store.freshRow, TaskSubmission.supersedeRow, TaskSubmission.newRow,
      TaskSubmission.baseRow, *]

/-- The row of the second `INSERT` is a fresh one if and only if the submission asks for nothing that it leaves
out. -/
theorem baseRow_fresh_iff {inst : Nat} {id : Int} {key key' : String} {active : List Int} :
    ({ sub.baseRow key' now with id := id, inst := inst } : TaskRow).determined =
        (s.settleRow sub active now (s.freshRow sub key now)).determined ↔
      (active = [] ∧ s.groupPaused sub.groupKey = false) ∧ sub.Plain := by
  have hpending : (s.settleRow sub active now (s.freshRow sub key now)).status = .pending ↔
      active = [] ∧ s.groupPaused sub.groupKey = false := settleRow_pending rfl
  constructor
  · intro h
    obtain ⟨hempty, hgroup⟩ := hpending.1 (congrArg TaskRow.status h).symm
    rw [settleRow_plain hempty hgroup] at h
    simp only [TaskRow.determined, Store.freshRow, TaskSubmission.newRow, TaskSubmission.baseRow,
      TaskRow.mk.injEq] at h
    refine ⟨⟨hempty, hgroup⟩, ?_⟩
    constructor
    · simp [h]
    · cases hrec : sub.recurring with
      | none => rfl
      | some schedule => simp [hrec] at h
    · simp [h]
  · rintro ⟨⟨hempty, hgroup⟩, ⟨hrun, hrec, hpolicy⟩⟩
    rw [settleRow_plain hempty hgroup]
    simp [TaskRow.determined, Store.freshRow, TaskSubmission.newRow, TaskSubmission.baseRow, *]

/-- The comparison of the two rows with the key. -/
private theorem supersededAsFresh_iff {key : String} {r₁ r₂ : TaskRow} (hrow₁ : s₁.taskByKey key = some r₁)
    (hrow₂ : s₂.taskByKey key = some r₂) (hlogged : s₁.taskHistory = s.taskHistory ++
      [historyRow s.nextHistoryId (rowToTaskRecord old) .superseded {} (old.startedAt.map (now - ·)) none now]) :
    s.SupersededAsFresh key old now s₁ s₂ ↔ r₁.determined = r₂.determined ∧ s₁.tagsOf r₁.id = s₂.tagsOf r₂.id ∧
      s₁.dependenciesOf r₁.id = s₂.dependenciesOf r₂.id := by
  constructor
  · rintro ⟨⟨r₁', r₂', h₁, h₂, h⟩, _⟩
    cases h₁.symm.trans hrow₁
    cases h₂.symm.trans hrow₂
    exact h
  · exact fun h => ⟨⟨r₁, r₂, hrow₁, hrow₂, h⟩, hlogged⟩

/-- A superseding submission logs the old row and goes through one of the two branches. -/
theorem supersedeExisting_ok {key : String} {outcome : SubmitOutcome} (hold : s.taskByKey key = some old)
    (h : supersedeExisting sub key now s = (.ok outcome, s₁)) :
    ∃ tags, (match old.status with
      | .pending | .paused | .blocked => supersedeInPlace sub old.id now
      | .running | .waiting => supersedeReplace sub key old.id now)
      (s.log (historyRow s.nextHistoryId (rowToTaskRecord old) .superseded {} (old.startedAt.map (now - ·))
        none now) tags) = (.ok outcome, s₁) := by
  obtain ⟨row, s', hrow, h⟩ := Txn.bind_ok h
  obtain ⟨rfl, rfl⟩ : s.taskByKey key = row ∧ s = s' := by
    cases hrow
    exact ⟨rfl, rfl⟩
  simp only [hold] at h
  obtain ⟨_, s₂, h₂, h⟩ := Txn.bind_ok h
  obtain ⟨tags, rfl⟩ := insertHistory_leaves h₂
  exact ⟨tags, h⟩

/-- The `UPDATE` and a fresh submission. -/
theorem supersedeInPlace_iff {key : String} {active : List Int} {entry : TaskHistoryRow}
    {tags : List (Int × String × String)} {outcome : SubmitOutcome} (hold : s.taskByKey key = some old)
    (hentry : entry = historyRow s.nextHistoryId (rowToTaskRecord old) .superseded {}
      (old.startedAt.map (now - ·)) none now)
    (hfresh : (s.without old.id).SubmittedFresh sub key now active s₂)
    (h : supersedeInPlace sub old.id now (s.log entry tags) = (.ok outcome, s₁)) :
    s.SupersededAsFresh key old now s₁ s₂ ↔
      (∀ dep ∈ sub.dependencies, s.historyStatus dep ≠ none) ∧ s.groupPaused sub.groupKey = false ∧
        sub.Restates old now ∧ (s.without old.id).tagsOf (s.without old.id).nextTaskId = [] ∧
          s.dependenciesOf old.id = (s.without old.id).dependenciesOf (s.without old.id).nextTaskId := by
  obtain ⟨htasks, htags, hdeps, hhist⟩ := supersedeInPlace_ok h
  have hrow : s₁.taskByKey key = some (sub.supersedeRow s.nextInst now old) := by
    unfold Store.taskByKey
    rw [htasks, taskByKey_map]
    · have hfind : s.tasks.find? (·.key == key) = some old := hold
      rw [Store.log_tasks, hfind]
      simp
    · intro r
      split
      · rfl
      · rfl
  have hkept : s₁.dependenciesOf old.id = s.dependenciesOf old.id := by
    unfold Store.dependenciesOf
    rw [hdeps]
    rfl
  have hempty : active = [] ↔ ∀ dep ∈ sub.dependencies, s.historyStatus dep ≠ none := hfresh.active_iff
  have hid : (sub.supersedeRow s.nextInst now old).id = old.id := rfl
  have hgroup : (s.without old.id).groupPaused sub.groupKey = s.groupPaused sub.groupKey := rfl
  rw [supersededAsFresh_iff hrow hfresh.row (hhist.trans (by rw [hentry]; rfl)), supersedeRow_fresh_iff, hid,
    (settleRow_names _).1, htags, hkept, hgroup]
  have hfreshId : ((s.without old.id).freshRow sub key now).id = (s.without old.id).nextTaskId := rfl
  rw [hfreshId, hfresh.tags, hfresh.dependencies, List.self_eq_append_left]
  constructor
  · rintro ⟨⟨⟨hnil, hpaused⟩, hrestates⟩, hleft, hedges⟩
    rw [hnil, List.append_nil] at hedges
    exact ⟨hempty.1 hnil, hpaused, hrestates, hleft, hedges⟩
  · rintro ⟨hdone, hpaused, hrestates, hleft, hedges⟩
    have hnil := hempty.2 hdone
    rw [hnil, List.append_nil]
    exact ⟨⟨⟨rfl, hpaused⟩, hrestates⟩, hleft, hedges⟩

/-- The second `INSERT` and a fresh submission. -/
theorem supersedeReplace_iff {key : String} {active : List Int} {entry : TaskHistoryRow}
    {tags : List (Int × String × String)} {outcome : SubmitOutcome}
    (hentry : entry = historyRow s.nextHistoryId (rowToTaskRecord old) .superseded {}
      (old.startedAt.map (now - ·)) none now)
    (hfree : (s.without old.id).taskByKey key = none)
    (hfresh : (s.without old.id).SubmittedFresh sub key now active s₂)
    (h : supersedeReplace sub key old.id now (s.log entry tags) = (.ok outcome, s₁)) :
    s.SupersededAsFresh key old now s₁ s₂ ↔
      (∀ dep ∈ sub.dependencies, s.historyStatus dep ≠ none) ∧ s.groupPaused sub.groupKey = false ∧ sub.Plain ∧
        s.dependenciesOf (s.without old.id).nextTaskId =
          (s.without old.id).dependenciesOf (s.without old.id).nextTaskId := by
  obtain ⟨htasks, htags, hdeps, hhist⟩ := supersedeReplace_ok h
  have hrow : s₁.taskByKey key =
      some { sub.baseRow key now with id := (s.without old.id).nextTaskId, inst := s.nextInst } := by
    unfold Store.taskByKey
    rw [htasks]
    exact find_last hfree rfl
  have hkept : s₁.dependenciesOf (s.without old.id).nextTaskId = s.dependenciesOf (s.without old.id).nextTaskId := by
    unfold Store.dependenciesOf
    rw [hdeps]
    rfl
  have htagged : s₁.tagsOf (s.without old.id).nextTaskId =
      (s.without old.id).tagsOf (s.without old.id).nextTaskId ++ sub.tags.entries := htags
  have hempty : active = [] ↔ ∀ dep ∈ sub.dependencies, s.historyStatus dep ≠ none := hfresh.active_iff
  have hgroup : (s.without old.id).groupPaused sub.groupKey = s.groupPaused sub.groupKey := rfl
  have hfreshId : ((s.without old.id).freshRow sub key now).id = (s.without old.id).nextTaskId := rfl
  rw [supersededAsFresh_iff hrow hfresh.row (hhist.trans (by rw [hentry]; rfl)), baseRow_fresh_iff,
    (settleRow_names _).1, hfreshId, htagged, hkept, hgroup, hfresh.tags, hfresh.dependencies]
  constructor
  · rintro ⟨⟨⟨hnil, hpaused⟩, hplain⟩, _, hedges⟩
    rw [hnil, List.append_nil] at hedges
    exact ⟨hempty.1 hnil, hpaused, hplain, hedges⟩
  · rintro ⟨hdone, hpaused, hplain, hedges⟩
    have hnil := hempty.2 hdone
    rw [hnil, List.append_nil]
    exact ⟨⟨⟨rfl, hpaused⟩, hplain⟩, rfl, hedges⟩

/-- A superseding submission leaves the columns, the tags, the dependencies, the status and the pause columns of a
fresh one, and one history row for the old task, if and only if nothing of the old task shows and nothing of the
submission is lost. -/
theorem supersede_iff (hs : s.Schema) (hold : s.taskByKey (sub.effectiveKey sha256) = some old)
    (hstrategy : sub.onDuplicate = .supersede) {outcome outcome' : SubmitOutcome}
    (h₁ : submitOne sha256 sub skipRequeue now s = (.ok outcome, s₁))
    (h₂ : submitOne sha256 sub skipRequeue now (s.without old.id) = (.ok outcome', s₂)) :
    s.SupersededAsFresh (sub.effectiveKey sha256) old now s₁ s₂ ↔ s.SupersedesAsFresh sub old now := by
  have hv : sub.validate = .ok () := by
    cases hv : sub.validate with
    | ok u => rfl
    | error e => cases (submitOne_invalid hv).symm.trans h₁
  have hfree : (s.without old.id).taskByKey (sub.effectiveKey sha256) = none := hs.taskByKey_delete hold
  obtain ⟨active, hfresh⟩ := submitOne_submittedFresh hv hfree h₂
  rw [submitOne_duplicate hv hold, hstrategy] at h₁
  obtain ⟨tags, hbranch⟩ := supersedeExisting_ok hold h₁
  unfold Store.SupersedesAsFresh
  cases hst : old.status with
  | pending => exact supersedeInPlace_iff hold rfl hfresh (by simpa only [hst] using hbranch)
  | paused => exact supersedeInPlace_iff hold rfl hfresh (by simpa only [hst] using hbranch)
  | blocked => exact supersedeInPlace_iff hold rfl hfresh (by simpa only [hst] using hbranch)
  | running => exact supersedeReplace_iff rfl hfree hfresh (by simpa only [hst] using hbranch)
  | waiting => exact supersedeReplace_iff rfl hfree hfresh (by simpa only [hst] using hbranch)

end Supersede

/-! ### Two runs -/

/-- `a` is delayed. -/
def delayedA : Store := execAll sampleSha256 openMemory
    [.submitDirect { TaskSubmission.new "a" with runAfter := some 1000000 } 0]

/-- A new version of `a`, without a delay. -/
def replacement : TaskSubmission := { TaskSubmission.new "a" with onDuplicate := .supersede }

/-- A store that a submission has left. -/
private theorem submitOne_left {sub : TaskSubmission} {now : Int} {s : Store}
    (h : (submitOne sampleSha256 sub false now s).1.toOption.isSome = true) :
    ∃ outcome, submitOne sampleSha256 sub false now s =
      (.ok outcome, (submitOne sampleSha256 sub false now s).2) := by
  rcases hrun : submitOne sampleSha256 sub false now s with ⟨e | outcome, s'⟩
  · rw [hrun] at h
    cases h
  · exact ⟨outcome, rfl⟩

/-- The new version keeps the delay and `created_at` of the old one. -/
theorem delay_kept :
    ∃ old, delayedA.taskByKey (replacement.effectiveKey sampleSha256) = some old ∧
      (∃ outcome, submitOne sampleSha256 replacement false 1000 delayedA =
        (.ok outcome, (submitOne sampleSha256 replacement false 1000 delayedA).2)) ∧
      (∃ outcome, submitOne sampleSha256 replacement false 1000 (delayedA.without old.id) =
        (.ok outcome, (submitOne sampleSha256 replacement false 1000 (delayedA.without old.id)).2)) ∧
      (submitOne sampleSha256 replacement false 1000 delayedA).2.tasks.map (fun r => (r.runAfter, r.createdAt)) =
        [(some 1000000, 0)] ∧
      (submitOne sampleSha256 replacement false 1000 (delayedA.without old.id)).2.tasks.map
        (fun r => (r.runAfter, r.createdAt)) =
        [(none, 1000)] ∧
      ¬delayedA.SupersededAsFresh (replacement.effectiveKey sampleSha256) old 1000
        (submitOne sampleSha256 replacement false 1000 delayedA).2
        (submitOne sampleSha256 replacement false 1000 (delayedA.without old.id)).2 := by
  have hrow : (delayedA.taskByKey (replacement.effectiveKey sampleSha256)).map (·.id) = some 1 := by decide +kernel
  obtain ⟨old, hold, hid⟩ := Option.map_eq_some_iff.1 hrow
  have hkept : (submitOne sampleSha256 replacement false 1000 delayedA).2.tasks.map
    (fun r => (r.runAfter, r.createdAt)) =
      [(some 1000000, 0)] := by decide +kernel
  have hfresh : (submitOne sampleSha256 replacement false 1000 (delayedA.without 1)).2.tasks.map
      (fun r => (r.runAfter, r.createdAt)) = [(none, 1000)] := by decide +kernel
  refine ⟨old, hold, submitOne_left (by decide +kernel), ?_, hkept, ?_, ?_⟩
  · rw [hid]
    exact submitOne_left (by decide +kernel)
  · rw [hid]
    exact hfresh
  · rw [hid]
    rintro ⟨⟨r₁, r₂, h₁, h₂, hsame, _⟩, _⟩
    have hin₁ := List.mem_map_of_mem (f := fun r : TaskRow => (r.runAfter, r.createdAt))
      (List.mem_of_find?_eq_some h₁)
    have hin₂ := List.mem_map_of_mem (f := fun r : TaskRow => (r.runAfter, r.createdAt))
      (List.mem_of_find?_eq_some h₂)
    rw [hkept, List.mem_singleton] at hin₁
    rw [hfresh, List.mem_singleton] at hin₂
    have hcreated : r₁.determined.createdAt = r₂.determined.createdAt := by rw [hsame]
    change r₁.createdAt = r₂.createdAt at hcreated
    rw [Prod.mk.injEq] at hin₁ hin₂
    rw [hin₁.2, hin₂.2] at hcreated
    cases hcreated

/-- `a` runs. -/
def runningTask : Store := execAll sampleSha256 openMemory [.submitDirect (.new "a") 0, .claimTask 1 0]

/-- A plain new version of a running task is a fresh task. -/
theorem running_replaced :
    ∃ old outcome outcome' s₁ s₂, submitOne sampleSha256 replacement false 1000 runningTask = (.ok outcome, s₁) ∧
      submitOne sampleSha256 replacement false 1000 (runningTask.without old.id) = (.ok outcome', s₂) ∧
      (runningTask.SupersededAsFresh (replacement.effectiveKey sampleSha256) old 1000 s₁ s₂ ↔
        runningTask.SupersedesAsFresh replacement old 1000) := by
  have hrow : (runningTask.taskByKey (replacement.effectiveKey sampleSha256)).map (·.id) = some 1 := by decide +kernel
  obtain ⟨old, hold, hid⟩ := Option.map_eq_some_iff.1 hrow
  obtain ⟨outcome, h₁⟩ : ∃ outcome, submitOne sampleSha256 replacement false 1000 runningTask = (.ok outcome, _) :=
    submitOne_left (by decide +kernel)
  obtain ⟨outcome', h₂⟩ : ∃ outcome, submitOne sampleSha256 replacement false 1000 (runningTask.without old.id) =
      (.ok outcome, _) := by
    rw [hid]
    exact submitOne_left (by decide +kernel)
  exact ⟨old, outcome, outcome', _, _, h₁, h₂,
    supersede_iff (schema_execAll sampleSha256 _ openMemory_fresh.schema) hold rfl h₁ h₂⟩

end Taskmill
