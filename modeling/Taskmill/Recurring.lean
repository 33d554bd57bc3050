import Mathlib
import Taskmill.Logs
import Taskmill.PauseClock
import Taskmill.RecurringPause
import Taskmill.Tags

/-!
# Recurring schedules

The completion of a recurring task deletes its row and inserts the next instance under the same key, with the
columns of the record and the tags of the row (`src/store/lifecycle/transitions.rs`).  `Schedule` counts beside the
store how many instances with a key were executed.

The interval is stored in whole seconds, so that the next instance of a schedule with a fraction of a second is due
too early, and both numbers of the schedule are stored as 64-bit ones.
-/

namespace Taskmill

open Transact

/-- What the instances of a schedule have in common. -/
structure Template where
  taskType : String
  key : String
  label : String
  priority : Priority
  payload : Option (List UInt8)
  expectedIo : IoBudget
  groupKey : Option String
  ttlSeconds : Option Int
  ttlFrom : TtlFrom
  maxRetries : Option Int
  failFast : Bool
  recurringIntervalSecs : Option Int
  recurringMaxExecutions : Option Int
deriving DecidableEq

def TaskRow.template (r : TaskRow) : Template where
  taskType := r.taskType
  key := r.key
  label := r.label
  priority := r.priority
  payload := r.payload
  expectedIo := r.expectedIo
  groupKey := r.groupKey
  ttlSeconds := r.ttlSeconds
  ttlFrom := r.ttlFrom
  maxRetries := r.maxRetries
  failFast := r.failFast
  recurringIntervalSecs := r.recurringIntervalSecs
  recurringMaxExecutions := r.recurringMaxExecutions

/-- What the instances of the submission have in common. -/
def TaskSubmission.template (sha256 : List UInt8 → String) (sub : TaskSubmission) : Template :=
  (sub.newRow (sub.effectiveKey sha256) 0).template

/-- The schedule goes on after `executed` executions. -/
def RecurringSchedule.GoesOn (schedule : RecurringSchedule) (executed : Nat) : Prop :=
  ∀ n, schedule.maxExecutions = some n → executed < n

/-- The columns hold the numbers of the schedule: the interval is whole seconds, and `as i64` changes neither
number. -/
structure RecurringSchedule.Storable (schedule : RecurringSchedule) : Prop where
  whole : schedule.interval.nanos % 1000000000 = 0
  interval : schedule.interval.asSecs < 2 ^ 63
  maxExecutions : ∀ n, schedule.maxExecutions = some n → n < 2 ^ 63

/-- The instance that runs after `executed` others. -/
@[mk_iff]
structure TaskRow.Scheduled (template : Template) (executed : Nat) (r : TaskRow) : Prop where
  template : r.template = template
  count : r.recurringExecutionCount = executed
  unpaused : r.recurringPaused = false
  unmarked : r.requeue = false

instance (template : Template) (executed : Nat) (r : TaskRow) : Decidable (r.Scheduled template executed) :=
  decidable_of_iff' _ (TaskRow.scheduled_iff template executed r)

/-- The rows with a key. -/
def Store.instances (s : Store) (key : String) : List TaskRow := s.tasks.filter (·.key == key)

/-- The store, and how many instances of the schedule were executed. -/
structure Schedule where
  store : Store
  executed : Nat

/-- How many instances are completed in a step. -/
def completedIn (key : String) (before after : Store) : Nat :=
  (before.instances key).countP fun r =>
    !after.tasks.any (·.inst == r.inst) && loggedAs before after r.inst == some .completed

def Schedule.step (sha256 : List UInt8 → String) (key : String) (σ : Schedule) (a : Action) : Schedule where
  store := a.exec sha256 σ.store
  executed := σ.executed + completedIn key σ.store (a.exec sha256 σ.store)

/-- The row of the submission, as `submit_one` inserts it, is in the queue, and the tag tables are intact. -/
structure Schedule.Start (template : Template) (σ : Schedule) : Prop where
  schema : σ.store.Schema
  tags : σ.store.TagsIntact
  first : ∃ r ∈ σ.store.tasks, r.Scheduled template 0
  executed : σ.executed = 0

/-- The schedule is not disturbed: nobody submits its key or pauses it, and its instance stays in the queue or
completes.  The records of completions are those of tasks in the queue, and that of an instance was read in this
life of it. -/
structure Schedule.Undisturbed (sha256 : List UInt8 → String) (key : String) (σ : Schedule) (a : Action) : Prop where
  submissions : ∀ sub ∈ a.submissions, sub.effectiveKey sha256 ≠ key
  unpaused : ∀ r ∈ σ.store.instances key, a ≠ .update (.setRecurringPaused r.id true)
  completes : ∀ r ∈ σ.store.instances key, a.Spares sha256 true r σ.store ∨ a.Completes r.id
  current : a.Current σ.store
  read : ∀ task ∈ a.completes, ∀ r ∈ σ.store.instances key, r.id = task.id → task.inst = r.inst ∧
    task.template = r.template ∧ task.recurringExecutionCount = r.recurringExecutionCount ∧
      task.recurringPaused = r.recurringPaused

/-- The next instance, created at `now` by the completion of the one after `executed` others. -/
structure TaskRow.Renewed (template : Template) (interval : Duration) (executed : Nat) (s : Store) (now : Int)
    (r : TaskRow) :
    Prop where
  scheduled : r.Scheduled template (executed + 1)
  createdAt : r.createdAt = now
  runAfter : r.runAfter = some (now + interval.asMillis)
  paused : s.groupPaused template.groupKey = true → r.status = .paused ∧ r.pauseReasons = .group
  pending : s.groupPaused template.groupKey = false → r.status = .pending ∧ r.pauseReasons = .none

/-- The right number of instances: while the schedule goes on there is exactly one, with the right count, and none
after the last one. -/
structure Schedule.Regular (template : Template) (schedule : RecurringSchedule) (σ : Schedule) : Prop where
  bounded : ∀ n, schedule.maxExecutions = some n → σ.executed ≤ n
  present : schedule.GoesOn σ.executed → ∃ r, σ.store.instances template.key = [r] ∧ r.Scheduled template σ.executed
  finished : schedule.maxExecutions = some σ.executed → σ.store.instances template.key = []

/-- A step that executes an instance before the last one leaves the next one, with the same tags. -/
def Schedule.Renews (sha256 : List UInt8 → String) (template : Template) (schedule : RecurringSchedule) (σ : Schedule)
    (a : Action) : Prop :=
  (σ.step sha256 template.key a).executed ≠ σ.executed →
    schedule.GoesOn (σ.executed + 1) →
      ∃ r r' now, σ.store.instances template.key = [r] ∧ (a.exec sha256 σ.store).instances template.key = [r'] ∧
        a.times = [now] ∧ r'.Renewed template schedule.interval σ.executed σ.store now ∧
        (a.exec sha256 σ.store).tagsOf r'.id = σ.store.tagsOf r.id

/-! ### Completions -/

section Completion

variable {s s' : Store} {r : TaskRow} {now : Int} {skipTags : Bool}

/-- A life that is there was there before, with its id and its key. -/
theorem Steps.old_life {b : Bool} (h : Steps b s s') {r' : TaskRow} (hr' : r' ∈ s'.tasks)
    (hlt : r'.inst < s.nextInst) :
    ∃ r ∈ s.tasks, r.inst = r'.inst ∧ r.id = r'.id ∧ r.key = r'.key := by
  let Old (t : Store) : Prop := s.nextInst ≤ t.nextInst ∧
    ∀ r' ∈ t.tasks, r'.inst < s.nextInst → ∃ r ∈ s.tasks, r.inst = r'.inst ∧ r.id = r'.id ∧ r.key = r'.key
  have hold : Old s' := by
    refine Steps.invariant (I := Old) (fun t t' hst ht => ?_) h ⟨Nat.le_refl _, fun r hr _ => ⟨r, hr, rfl, rfl, rfl⟩⟩
    cases hst with
    | update p f hf hb =>
      refine ⟨ht.1, fun x hx hlt => ?_⟩
      obtain ⟨x₀, hx₀, rfl⟩ := List.mem_map.1 hx
      by_cases hsel : p x₀ = true
      · rw [if_pos hsel] at hlt ⊢
        obtain ⟨hid, hinst, hkey⟩ := hf x₀
        rw [hinst] at hlt
        rw [hid, hinst, hkey]
        exact ht.2 x₀ hx₀ hlt
      · rw [if_neg hsel] at hlt ⊢
        exact ht.2 x₀ hx₀ hlt
    | renew id f hf hb =>
      refine ⟨Nat.le_succ_of_le ht.1, fun x hx hlt => ?_⟩
      obtain ⟨x₀, hx₀, rfl⟩ := List.mem_map.1 hx
      by_cases hsel : (x₀.id == id) = true
      · rw [if_pos hsel, (hf x₀).2.1] at hlt
        have := ht.1
        omega
      · rw [if_neg hsel] at hlt ⊢
        exact ht.2 x₀ hx₀ hlt
    | delete p => exact ⟨ht.1, fun x hx => ht.2 x (List.mem_of_mem_filter hx)⟩
    | add row hk hb =>
      refine ⟨Nat.le_succ_of_le ht.1, fun x hx hlt => ?_⟩
      rcases List.mem_append.1 hx with hx | hx
      · exact ht.2 x hx hlt
      · rw [List.mem_singleton.1 hx] at hlt
        have hle := ht.1
        simp only at hlt
        omega
    | _ => exact ht
  exact hold.2 r' hr' hlt

/-- A row stays, with its tags. -/
structure Store.Keeps (r : TaskRow) (s s' : Store) : Prop where
  row : ∃ r' ∈ s'.tasks, r'.id = r.id ∧ r'.requeue = r.requeue ∧ r'.key = r.key ∧ r'.inst = r.inst
  tags : s'.tagsOf r.id = s.tagsOf r.id

/-- A row is completed with the record `task`. -/
structure Store.Executes (r : TaskRow) (task : TaskRecord) (s s' : Store) : Prop where
  gone : ∀ r' ∈ s'.tasks, r'.inst ≠ r.inst
  logged : ∃ h ∈ s'.taskHistory, h ∉ s.taskHistory ∧ h.inst = task.inst
  next : task.recurs ≠ none → ∃ r' ∈ s'.tasks, r'.key = r.key ∧ s'.tagsOf r'.id = s.tagsOf r.id

private theorem tagsOf_completeRow {task : TaskRecord} {metrics : IoBudget} {id : Int} (hid : id ≠ task.id) :
    (s.completeRow skipTags now (task, metrics)).tagsOf id = s.tagsOf id := by
  have hfilter : ((s.taskTags.filter fun t => !(t.1 == task.id)).filter fun t => t.1 == id) =
      s.taskTags.filter fun t => t.1 == id := by
    rw [List.filter_filter]
    refine List.filter_congr fun t _ => ?_
    by_cases ht : t.1 = id
    · simp [ht, hid]
    · simp [ht]
  rw [Store.completeRow, Store.finishRow]
  split
  · split
    · rfl
    · exact congrArg (List.map Prod.snd) hfilter
  · rfl

private theorem tagsOf_withTags {id new : Int} {tags : List (String × String)} (h : id ≠ new) :
    ((s.taskTags ++ tags.map fun tag => (new, tag)).filter fun t => t.1 == id).map Prod.snd = s.tagsOf id := by
  have hnone : ((tags.map fun tag => (new, tag)).filter fun t => t.1 == id) = [] := by
    rw [List.filter_eq_nil_iff]
    intro t ht
    obtain ⟨tag, _, rfl⟩ := List.mem_map.1 ht
    simpa using h.symm
  rw [List.filter_append, hnone, List.append_nil]
  rfl

private theorem pauseInstance_taskTags (id : Int) (group : Option String) :
    (s.pauseInstance id group now).taskTags = s.taskTags := by
  rw [Store.pauseInstance]
  split
  · rfl
  · rfl

/-- The completion of another task leaves the tags. -/
private theorem completeInner_tagsOf {task : TaskRecord} {metrics : IoBudget} {result : Option (Int × Int)}
    (hr : r ∈ s.tasks) (hid : r.id ≠ task.id) (h : completeInner task metrics skipTags now s = (.ok result, s')) :
    s'.tagsOf r.id = s.tagsOf r.id := by
  have hrow : r ∈ (s.completeRow skipTags now (task, metrics)).tasks := by
    have hkept : r ∈ s.tasks.filter fun r => !(r.id == task.id && !r.requeue) := List.mem_filter.2 ⟨hr, by simp [hid]⟩
    rw [Store.completeRow, Store.finishRow]
    split
    · split
      · exact hkept
      · exact hkept
    · exact List.mem_map.2 ⟨r, hr, if_neg (by simpa using hid)⟩
  rcases completeInner_cases h with rfl | ⟨interval, _, _, rfl⟩
  · exact tagsOf_completeRow hid
  · have hne : r.id ≠ (s.completeRow skipTags now (task, metrics)).nextTaskId := Store.id_ne_nextTaskId hrow
    rw [Store.tagsOf, pauseInstance_taskTags]
    exact (tagsOf_withTags hne).trans (tagsOf_completeRow hid)

/-- The row is out of the tables, and the id and the key that it had are free. -/
private structure Store.Without (r : TaskRow) (s s₁ : Store) : Prop where
  rows : ∀ x ∈ s₁.tasks, x.inst ≠ r.inst ∧ x.key ≠ r.key
  tags : ∀ t ∈ s₁.taskTags, t.1 ≠ s₁.nextTaskId
  nextInst : s₁.nextInst = s.nextInst

private theorem completeRow_without {task : TaskRecord} {metrics : IoBudget} {ids : List Int} (hs : s.Schema)
    (htidy : s.Tidy skipTags ids) (hmem : task.id ∈ ids) (hr : r ∈ s.tasks) (hreq : r.requeue = false)
    (hid : task.id = r.id) :
    s.Without r (s.completeRow skipTags now (task, metrics)) := by
  have hdel : (s.logCompleted skipTags now (task, metrics)).deletable task.id = true :=
    List.any_eq_true.2 ⟨r, hr, by simp [hid, hreq]⟩
  have htasks : (s.completeRow skipTags now (task, metrics)).tasks = s.tasks.filter fun x =>
      !(x.id == task.id && !x.requeue) := by
    rw [Store.completeRow, Store.finishRow, if_pos hdel]
    split
    · rfl
    · rfl
  have htags : ∀ t ∈ (s.completeRow skipTags now (task, metrics)).taskTags, t ∈ s.taskTags ∧ t.1 ≠ task.id := by
    intro t ht
    rw [Store.completeRow, Store.finishRow, if_pos hdel] at ht
    by_cases hskip : skipTags = true
    · rw [if_pos hskip] at ht
      refine ⟨ht, fun heq => htidy.skipped hskip t ht ?_⟩
      rw [heq]
      exact hmem
    · rw [if_neg hskip] at ht
      obtain ⟨ht, hne⟩ := List.mem_filter.1 ht
      exact ⟨ht, by simpa using hne⟩
  constructor
  · intro x hx
    rw [htasks] at hx
    obtain ⟨hx, hsel⟩ := List.mem_filter.1 hx
    have hne : x ≠ r := by
      intro heq
      simp [heq, hid, hreq] at hsel
    constructor
    · exact fun hinst => hne (List.inj_on_of_nodup_map hs.insts hx hr hinst)
    · exact fun hk => hne (List.inj_on_of_nodup_map hs.keys hx hr hk)
  · intro t ht heq
    obtain ⟨ht, hne⟩ := htags t ht
    obtain ⟨x, hx, hxid⟩ := List.mem_map.1 (htidy.intact.tasks t ht)
    have hxne : x.id ≠ task.id := by
      rw [hxid]
      exact hne
    have hx₁ : x ∈ (s.completeRow skipTags now (task, metrics)).tasks := by
      rw [htasks]
      exact List.mem_filter.2 ⟨hx, by simp [hxne]⟩
    exact Store.id_ne_nextTaskId hx₁ (hxid.trans heq)
  · rw [Store.completeRow, Store.finishRow, if_pos hdel]
    split
    · rfl
    · rfl

/-- The next instance is the last row, and it has the tags. -/
private theorem addInstance_row (s : Store) (task : TaskRecord) (tags : List (String × String)) (interval now : Int) :
    ∃ x, x.id = s.nextTaskId ∧ x.key = task.key ∧ x.inst = s.nextInst ∧
      ((s.addInstance task tags interval now).pauseInstance s.nextTaskId task.groupKey now).tasks =
        s.tasks ++ [x] := by
  let row : TaskRow := { task.nextInstance interval now with id := s.nextTaskId, inst := s.nextInst }
  have hadd : (s.addInstance task tags interval now).tasks = s.tasks ++ [row] := rfl
  rw [Store.pauseInstance]
  split
  · refine ⟨row.pauseFor .group now, rfl, rfl, rfl, ?_⟩
    have hold : (s.tasks.map fun r => if (r.id == s.nextTaskId) = true then r.pauseFor .group now else r) =
        s.tasks := by
      conv_rhs => rw [← List.map_id s.tasks]
      refine List.map_congr_left fun x hx => ?_
      rw [if_neg (by simpa using Store.id_ne_nextTaskId hx)]
      rfl
    rw [Store.updateTasks_tasks, hadd, List.map_append, hold, List.map_cons, List.map_nil, if_pos (beq_iff_eq.2 rfl)]
  · exact ⟨row, rfl, rfl, rfl, hadd⟩

private theorem addInstance_tagsOf (task : TaskRecord) (tags : List (String × String)) (interval : Int)
    (h : ∀ t ∈ s.taskTags, t.1 ≠ s.nextTaskId) :
    ((s.addInstance task tags interval now).pauseInstance s.nextTaskId task.groupKey now).tagsOf s.nextTaskId =
      tags := by
  have hold : (s.taskTags.filter fun t => t.1 == s.nextTaskId) = [] := by
    rw [List.filter_eq_nil_iff]
    intro t ht
    simpa using h t ht
  have hnew : ((tags.map fun tag => (s.nextTaskId, tag)).filter fun t => t.1 == s.nextTaskId) =
      tags.map fun tag => (s.nextTaskId, tag) := by
    rw [List.filter_eq_self]
    intro t ht
    obtain ⟨tag, _, rfl⟩ := List.mem_map.1 ht
    simp
  rw [Store.tagsOf, pauseInstance_taskTags]
  show ((s.taskTags ++ tags.map fun tag => (s.nextTaskId, tag)).filter fun t => t.1 == s.nextTaskId).map Prod.snd =
    tags
  rw [List.filter_append, hold, hnew, List.nil_append, List.map_map]
  simp [Function.comp_def]

/-- The completion of the row itself. -/
private theorem completeInner_executes {task : TaskRecord} {metrics : IoBudget} {result : Option (Int × Int)}
    {ids : List Int} (hs : s.Schema) (htidy : s.Tidy skipTags ids) (hmem : task.id ∈ ids) (hr : r ∈ s.tasks)
    (hreq : r.requeue = false) (hid : task.id = r.id) (hkey : task.key = r.key)
    (h : completeInner task metrics skipTags now s = (.ok result, s')) :
    s.Executes r task s' := by
  have hlog : ¬ s.LogFails skipTags task.id := by
    intro hf
    obtain ⟨e, s₁, herr⟩ : ∃ e s₁, completeInner task metrics skipTags now s = (.error e, s₁) :=
      completeInner_log_fails hf
    rw [herr] at h
    cases h
  have hlogged : ∃ row ∈ s'.taskHistory, row ∉ s.taskHistory ∧ row.inst = task.inst := by
    refine ⟨historyRow s.nextHistoryId task .completed metrics (computeDurationMs now task) task.lastError now, ?_,
      ?_, rfl⟩
    · rw [completeInner_history h]
      exact List.mem_append_right _ (List.mem_singleton_self _)
    · intro hold
      exact nextRowid_not_mem _ (List.mem_map_of_mem (f := fun h : TaskHistoryRow => h.id) hold)
  have hwithout : s.Without r (s.completeRow skipTags now (task, metrics)) :=
    completeRow_without hs htidy hmem hr hreq hid
  have hdel : s.deletable task.id = true := List.any_eq_true.2 ⟨r, hr, by simp [hid, hreq]⟩
  rw [completeInner_apply _ _ _ _ _ hlog] at h
  cases hrec : task.recurs with
  | none =>
    simp only [hrec] at h
    cases h
    exact ⟨fun x hx => (hwithout.rows x hx).1, hlogged, fun hne => absurd hrec hne⟩
  | some interval =>
    simp only [hrec, hdel, if_true] at h
    generalize s.completeRow skipTags now (task, metrics) = s₁ at h hwithout
    have hpile : s₁.piledUp task.key = false := by
      rw [Store.piledUp, List.any_eq_false]
      intro x hx hsel
      rw [hkey] at hsel
      simp only [Bool.and_eq_true, beq_iff_eq] at hsel
      exact (hwithout.rows x hx).2 hsel.1
    have hfree : s₁.taskByKey task.key = none := by
      refine List.find?_eq_none.2 fun x hx hsel => (hwithout.rows x hx).2 ?_
      rw [← hkey]
      simpa using hsel
    have hrefused : ¬ s₁.TagsRefused s₁.nextTaskId (s.tagsOf task.id) := by
      rw [Store.TagsRefused, not_or, not_not]
      refine ⟨htidy.intact.tagsOf_nodup task.id, ?_⟩
      rintro ⟨t, ht, heq, _⟩
      exact hwithout.tags t ht heq
    rw [createNextInstance_ok hpile hfree hrefused] at h
    cases h
    obtain ⟨x, hxid, hxkey, hxinst, hrows⟩ := addInstance_row s₁ task (s.tagsOf task.id) interval now
    refine ⟨fun x' hx' => ?_, hlogged, fun _ => ⟨x, ?_, hxkey.trans hkey, ?_⟩⟩
    · rw [hrows, List.mem_append, List.mem_singleton] at hx'
      rcases hx' with hx' | rfl
      · exact (hwithout.rows x' hx').1
      · have hlt := hs.inst_lt r hr
        have hnext := hwithout.nextInst
        omega
    · rw [hrows]
      exact List.mem_append_right _ (List.mem_singleton_self _)
    · rw [hxid, ← hid]
      exact addInstance_tagsOf task _ interval hwithout.tags

/-! ### The completions of a batch -/

variable {item : TaskRecord × IoBudget} {result : Int × Option (Int × Int) × List Int}

/-- The resolution of the dependents keeps the ids, the keys and the lives, and the tags and the history. -/
private theorem completeAndResolve_cases (hs : s.Schema)
    (h : completeAndResolve skipTags now item s = (.ok result, s')) :
    ∃ recurring s₁, completeInner item.1 item.2 skipTags now s = (.ok recurring, s₁) ∧
      s' = s₁.release [item.1.id] now := by
  obtain ⟨recurring, s₁, h₁, h⟩ := Txn.bind_ok h
  have hsteps : Steps false s (completeInner item.1 item.2 skipTags now s).2 := steps_completeInner s
  rw [h₁] at hsteps
  obtain ⟨unblocked, s₂, h₂, h⟩ := Txn.bind_ok h
  rw [resolveDependentsInner_apply (hs.steps hsteps).ids] at h₂
  cases h₂
  cases h
  exact ⟨recurring, s₁, h₁, rfl⟩

private theorem completeAndResolve_others (hs : s.Schema) (hr : r ∈ s.tasks) (hid : r.id ≠ item.1.id)
    (h : completeAndResolve skipTags now item s = (.ok result, s')) : s.Keeps r s' := by
  refine ⟨completeAndResolve_kept hs hr hid h, ?_⟩
  obtain ⟨recurring, s₁, h₁, rfl⟩ := completeAndResolve_cases hs h
  show s₁.tagsOf r.id = s.tagsOf r.id
  exact completeInner_tagsOf hr hid h₁

private theorem completeAndResolve_history (hs : s.Schema)
    (h : completeAndResolve skipTags now item s = (.ok result, s')) :
    s.taskHistory ⊆ s'.taskHistory := by
  obtain ⟨recurring, s₁, h₁, rfl⟩ := completeAndResolve_cases hs h
  show s.taskHistory ⊆ s₁.taskHistory
  rw [completeInner_history h₁]
  exact List.subset_append_left ..

private theorem completeAndResolve_executes {ids : List Int} (hs : s.Schema) (htidy : s.Tidy skipTags ids)
    (hmem : item.1.id ∈ ids) (hr : r ∈ s.tasks) (hreq : r.requeue = false) (hid : item.1.id = r.id)
    (hkey : item.1.key = r.key) (h : completeAndResolve skipTags now item s = (.ok result, s')) :
    s.Executes r item.1 s' := by
  obtain ⟨recurring, s₁, h₁, rfl⟩ := completeAndResolve_cases hs h
  have hone : s.Executes r item.1 s₁ := completeInner_executes hs htidy hmem hr hreq hid hkey h₁
  obtain ⟨hgone, hlogged, hnext⟩ := hone
  have hsame : ∀ x, (if s₁.frees [item.1.id] x then s₁.freeRow now x else x).id = x.id ∧
      (if s₁.frees [item.1.id] x then s₁.freeRow now x else x).key = x.key ∧
      (if s₁.frees [item.1.id] x then s₁.freeRow now x else x).inst = x.inst := by
    intro x
    split
    · rw [Store.freeRow]
      split
      · exact ⟨rfl, rfl, rfl⟩
      · exact ⟨rfl, rfl, rfl⟩
    · exact ⟨rfl, rfl, rfl⟩
  refine ⟨fun x' hx' => ?_, hlogged, fun hrec => ?_⟩
  · obtain ⟨x, hx, rfl⟩ := List.mem_map.1 hx'
    rw [(hsame x).2.2]
    exact hgone x hx
  · obtain ⟨x, hx, hxkey, hxtags⟩ := hnext hrec
    refine ⟨_, List.mem_map_of_mem hx, (hsame x).2.1.trans hxkey, ?_⟩
    rw [(hsame x).1]
    exact hxtags

private theorem mapList_keeps (items : List (TaskRecord × IoBudget)) {s : Store} {r : TaskRow}
    {results : List (Int × Option (Int × Int) × List Int)} (hs : s.Schema) (hr : r ∈ s.tasks)
    (hid : ∀ item ∈ items, r.id ≠ item.1.id)
    (h : Txn.mapList (completeAndResolve skipTags now) items s = (.ok results, s')) : s.Keeps r s' := by
  induction items generalizing s r results with
  | nil =>
    cases h
    exact ⟨⟨r, hr, rfl, rfl, rfl, rfl⟩, rfl⟩
  | cons item items ih =>
    obtain ⟨result, s₁, h₁, h⟩ := Txn.bind_ok h
    obtain ⟨results, s₂, h₂, h⟩ := Txn.bind_ok h
    cases h
    have hsteps : Steps false s (completeAndResolve skipTags now item s).2 := steps_completeAndResolve item s
    rw [h₁] at hsteps
    obtain ⟨⟨r₁, hr₁, hid₁, hreq₁, hkey₁, hinst₁⟩, htags₁⟩ :=
      completeAndResolve_others hs hr (hid item List.mem_cons_self) h₁
    have hother : ∀ item ∈ items, r₁.id ≠ item.1.id := by
      intro later hlater
      rw [hid₁]
      exact hid later (List.mem_cons_of_mem _ hlater)
    obtain ⟨⟨r₂, hr₂, hid₂, hreq₂, hkey₂, hinst₂⟩, htags₂⟩ := ih (hs.steps hsteps) hr₁ hother h₂
    rw [hid₁] at htags₂
    exact ⟨⟨r₂, hr₂, hid₂.trans hid₁, hreq₂.trans hreq₁, hkey₂.trans hkey₁, hinst₂.trans hinst₁⟩, htags₂.trans htags₁⟩

/-- The items of a batch leave rows that satisfy the schema, and history rows. -/
private theorem mapList_completes (items : List (TaskRecord × IoBudget)) {s : Store}
    {results : List (Int × Option (Int × Int) × List Int)} (hs : s.Schema)
    (h : Txn.mapList (completeAndResolve skipTags now) items s = (.ok results, s')) :
    Steps false s s' ∧ s.taskHistory ⊆ s'.taskHistory := by
  induction items generalizing s results with
  | nil =>
    cases h
    exact ⟨.refl, fun _ hh => hh⟩
  | cons item items ih =>
    obtain ⟨result, s₁, h₁, h⟩ := Txn.bind_ok h
    obtain ⟨results, s₂, h₂, h⟩ := Txn.bind_ok h
    cases h
    have hsteps : Steps false s (completeAndResolve skipTags now item s).2 := steps_completeAndResolve item s
    rw [h₁] at hsteps
    obtain ⟨hrest, hhistory⟩ := ih (hs.steps hsteps) h₂
    exact ⟨hsteps.trans hrest, fun x hx => hhistory (completeAndResolve_history hs h₁ hx)⟩

/-- A batch that goes task by task completes every task in it. -/
private theorem mapList_executes {items : List (TaskRecord × IoBudget)}
    {results : List (Int × Option (Int × Int) × List Int)} (hs : s.Schema)
    (htidy : s.Tidy skipTags (items.map (·.1.id))) (hnodup : (items.map (·.1.id)).Nodup)
    (hqueue : ∀ item ∈ items, ∃ x ∈ s.tasks, x.id = item.1.id) {item : TaskRecord × IoBudget} (hitem : item ∈ items)
    (hr : r ∈ s.tasks) (hreq : r.requeue = false) (hid : item.1.id = r.id) (hkey : item.1.key = r.key)
    (h : Txn.mapList (completeAndResolve skipTags now) items s = (.ok results, s')) : s.Executes r item.1 s' := by
  obtain ⟨before, after, rfl⟩ := List.append_of_mem hitem
  have hdistinct : (∀ x ∈ before, x.1.id ≠ item.1.id) ∧ ∀ x ∈ after, x.1.id ≠ item.1.id ∧
      ∀ y ∈ before, y.1.id ≠ x.1.id := by
    rw [List.map_append, List.map_cons, List.nodup_append, List.nodup_cons] at hnodup
    obtain ⟨_, ⟨hnot, _⟩, hdisj⟩ := hnodup
    refine ⟨fun x hx => hdisj _ (List.mem_map_of_mem hx) _ List.mem_cons_self, fun x hx =>
      ⟨fun heq => hnot ?_, fun y hy => ?_⟩⟩
    · rw [← heq]
      exact List.mem_map_of_mem (f := fun i : TaskRecord × IoBudget => i.1.id) hx
    · exact hdisj _ (List.mem_map_of_mem hy) _ (List.mem_cons_of_mem _ (List.mem_map_of_mem hx))
  obtain ⟨rs₁, s₁, rs₂, h₁, h₂, _⟩ := Txn.mapList_append_ok h
  obtain ⟨result, s₂, hone, h₂⟩ := Txn.bind_ok h₂
  obtain ⟨rs₃, s₃, h₃, h₂⟩ := Txn.bind_ok h₂
  cases h₂
  -- the items before
  obtain ⟨hsteps₁, hhistory₁⟩ := mapList_completes before hs h₁
  have hs₁ : s₁.Schema := hs.steps hsteps₁
  have htidy₁ : s₁.Tidy skipTags ((before ++ item :: after).map (·.1.id)) := by
    refine (Txn.Triple.mapList (fun x hx => tidy_completeAndResolve ?_) s htidy).1 _ _ h₁
    exact List.mem_map_of_mem (f := fun i : TaskRecord × IoBudget => i.1.id) (List.mem_append_left _ hx)
  obtain ⟨⟨r₁, hr₁, hid₁, hreq₁, hkey₁, hinst₁⟩, htags₁⟩ := mapList_keeps before hs hr
    (fun x hx => (hid ▸ (hdistinct.1 x hx)).symm) h₁
  -- the item itself
  have hsteps₂ : Steps false s₁ (completeAndResolve skipTags now item s₁).2 := steps_completeAndResolve item s₁
  rw [hone] at hsteps₂
  have hs₂ : s₂.Schema := hs₁.steps hsteps₂
  obtain ⟨hgone, ⟨row, hrow, hnew, hrowInst⟩, hnext⟩ :=
    completeAndResolve_executes hs₁ htidy₁ (List.mem_map_of_mem hitem) hr₁
    (hreq₁.trans hreq) (hid.trans hid₁.symm) (hkey.trans hkey₁.symm) hone
  -- the items after
  obtain ⟨hsteps₃, hhistory₃⟩ := mapList_completes after hs₂ h₃
  refine ⟨fun x hx hinst => ?_, ⟨row, hhistory₃ hrow, fun hold => hnew (hhistory₁ hold), hrowInst⟩, fun hrec => ?_⟩
  · have hlt : x.inst < s₂.nextInst := by
      have hfirst := hs.inst_lt r hr
      have hle₁ : s.nextInst ≤ s₁.nextInst := hsteps₁.nextInst_le
      have hle₂ : s₁.nextInst ≤ s₂.nextInst := hsteps₂.nextInst_le
      omega
    obtain ⟨x₂, hx₂, hinst₂, _⟩ := hsteps₃.old_life hx hlt
    exact hgone x₂ hx₂ (hinst₂.trans (hinst.trans hinst₁.symm))
  · obtain ⟨x, hx, hxkey, hxtags⟩ := hnext hrec
    -- its id is none of those to come, whose rows are still there
    have hlater : ∀ later ∈ after, x.id ≠ later.1.id := by
      intro later hl heq
      obtain ⟨y, hy, hyid⟩ := hqueue later (List.mem_append_right _ (List.mem_cons_of_mem _ hl))
      obtain ⟨⟨y₁, hy₁, hyid₁, _, hykey₁, _⟩, _⟩ := mapList_keeps before hs hy
        (fun z hz => by rw [hyid]; exact ((hdistinct.2 later hl).2 z hz).symm) h₁
      have hne₁ : y₁.id ≠ item.1.id := by
        rw [hyid₁, hyid]
        exact (hdistinct.2 later hl).1
      obtain ⟨⟨y₂, hy₂, hyid₂, _, hykey₂, _⟩, _⟩ := completeAndResolve_others hs₁ hy₁ hne₁ hone
      have hsame : x = y₂ := hs₂.eq_of_id hx hy₂ (heq.trans ((hyid₂.trans hyid₁).trans hyid).symm)
      have hykey : y.key = r.key := by
        rw [← hkey₁, ← hxkey, hsame, hykey₂, hykey₁]
      rw [List.inj_on_of_nodup_map hs.keys hy hr hykey, ← hid] at hyid
      exact (hdistinct.2 later hl).1 hyid.symm
    obtain ⟨⟨x₃, hx₃, hxid₃, _, hxkey₃, _⟩, htags₃⟩ := mapList_keeps after hs₂ hx hlater h₃
    refine ⟨x₃, hx₃, hxkey₃.trans (hxkey.trans hkey₁), ?_⟩
    rw [hxid₃, htags₃, hxtags, hid₁, htags₁]

end Completion

/-! ### The rows with the key -/

section Instances

variable {sha256 : List UInt8 → String} {template : Template} {schedule : RecurringSchedule}
    {σ : Schedule} {a : Action}
  {r r' : TaskRow} {n : Nat}

theorem mem_instances {s : Store} {key : String} : r ∈ s.instances key ↔ r ∈ s.tasks ∧ r.key = key := by
  simp [Store.instances]

theorem Store.Schema.instances_eq {s : Store} (hs : s.Schema) (hr : r ∈ s.tasks) : s.instances r.key = [r] := by
  have hnodup : (s.instances r.key).Nodup := (List.Nodup.of_map _ hs.ids).filter _
  refine List.perm_singleton.1 ((List.perm_ext_iff_of_nodup hnodup (List.nodup_singleton r)).2 fun x => ?_)
  rw [mem_instances, List.mem_singleton]
  constructor
  · rintro ⟨hx, hkey⟩
    exact List.inj_on_of_nodup_map hs.keys hx hr hkey
  · rintro rfl
    exact ⟨hr, rfl⟩

/-- The columns of the schedule are those of the submission. -/
private structure Template.Of (schedule : RecurringSchedule) (template : Template) : Prop where
  interval : template.recurringIntervalSecs = some (schedule.interval.asSecs : Int)
  maxExecutions : template.recurringMaxExecutions = schedule.maxExecutions.map fun n : Nat => (n : Int)

/-- The record is that of an instance of the schedule. -/
private structure TaskRecord.Instance (template : Template) (executed : Nat) (task : TaskRecord) : Prop where
  template : task.template = template
  count : task.recurringExecutionCount = executed
  unpaused : task.recurringPaused = false

private theorem TaskRecord.Instance.recurs_iff {task : TaskRecord} (ht : template.Of schedule)
    (h : task.Instance template n) (interval : Int) : task.recurs = some interval ↔
      interval = schedule.interval.asSecs ∧ schedule.GoesOn (n + 1) := by
  have hinterval : task.recurringIntervalSecs = some (schedule.interval.asSecs : Int) := by
    rw [← ht.interval, ← h.template]
    rfl
  have hmax : task.recurringMaxExecutions = schedule.maxExecutions.map fun n : Nat => (n : Int) := by
    rw [← ht.maxExecutions, ← h.template]
    rfl
  unfold TaskRecord.recurs RecurringSchedule.GoesOn
  rw [hinterval, hmax, h.unpaused, h.count]
  cases schedule.maxExecutions with
  | none => simp [eq_comm]
  | some m =>
    by_cases hlt : n + 1 < m
    · have hlt' : (n : Int) + 1 < m := by omega
      simp [hlt, hlt', eq_comm]
    · have hlt' : ¬ (n : Int) + 1 < m := by omega
      simp [hlt, hlt']

private theorem TaskRow.Scheduled.same (h : r.Scheduled template n) (ht : r'.template = r.template)
    (hcount : r'.recurringExecutionCount = r.recurringExecutionCount)
    (hpaused : r'.recurringPaused = r.recurringPaused) (hmark : r'.requeue = r.requeue) : r'.Scheduled template n :=
  ⟨ht.trans h.template, hcount.trans h.count, hpaused.trans h.unpaused, hmark.trans h.unmarked⟩

/-- A row with the key after a step: the instance that was there, or the next one. -/
private def Schedule.Allows (template : Template) (schedule : RecurringSchedule) (σ : Schedule) (a : Action)
    (r : TaskRow) : Prop :=
  (∃ r₀ ∈ σ.store.instances template.key, r.inst = r₀.inst ∧ r.Scheduled template σ.executed) ∨
    (σ.store.instances template.key ≠ [] ∧ σ.store.nextInst ≤ r.inst ∧ schedule.GoesOn (σ.executed + 1) ∧
      ∃ now ∈ a.times, r.Renewed template schedule.interval σ.executed σ.store now)

private theorem TaskRow.Renewed.not_blocked {interval : Duration} {s : Store} {now : Int}
    (h : r.Renewed template interval n s now) : r.status ≠ .blocked := by
  cases hg : s.groupPaused template.groupKey with
  | true =>
    rw [(h.paused hg).1]
    nofun
  | false =>
    rw [(h.pending hg).1]
    nofun

/-- The next instance of a record. -/
private theorem nextInstance_renewed {task : TaskRecord} {s : Store} {now : Int}
    (hwhole : schedule.interval.nanos % 1000000000 = 0) (h : task.Instance template n) (id : Int) (inst : Nat) :
    (if s.groupPaused task.groupKey then
        { task.nextInstance schedule.interval.asSecs now with id := id, inst := inst }.pauseFor .group now
      else { task.nextInstance schedule.interval.asSecs now with id := id, inst := inst }).Renewed template
        schedule.interval n s now := by
  have hgroup : task.groupKey = template.groupKey := by
    rw [← h.template]
    rfl
  have hcount : task.recurringExecutionCount + 1 = ((n + 1 : Nat) : Int) := by
    rw [h.count]
    rfl
  have hafter : some (now + (schedule.interval.asSecs : Int) * 1000) =
      some (now + (schedule.interval.asMillis : Int)) := by
    unfold Duration.asSecs Duration.asMillis
    have hmillis : schedule.interval.nanos / 1000000 = schedule.interval.nanos / 1000000000 * 1000 := by omega
    rw [hmillis]
    simp
  have hbit : PauseReasons.none ||| PauseReasons.group = PauseReasons.group := by decide
  rw [hgroup]
  cases hg : s.groupPaused template.groupKey with
  | true =>
    rw [if_pos rfl]
    exact ⟨⟨h.template, hcount, rfl, rfl⟩, rfl, hafter, fun _ => ⟨rfl, hbit⟩, fun hfalse =>
      absurd (hg.symm.trans hfalse) nofun⟩
  | false =>
    rw [if_neg nofun]
    exact ⟨⟨h.template, hcount, rfl, rfl⟩, rfl, hafter, fun htrue => absurd (hg.symm.trans htrue) nofun,
      fun _ => ⟨rfl, rfl⟩⟩

/-- A submission with another key does not concern the schedule. -/
private theorem allows_submission {sub : TaskSubmission} {now : Int} {s : Store} {P : TaskRow → Prop}
    (hkey : sub.effectiveKey sha256 ≠ template.key) :
    sub.KeepsRows sha256 (fun r => r.key = template.key → P r) now s where
  pending _ _ h := absurd h hkey
  paused _ _ h := absurd h hkey
  blocked h := absurd h hkey
  upgraded _ _ hr _ _ h := absurd (hr.symm.trans h) hkey
  requeued _ _ hr _ h := absurd (hr.symm.trans h) hkey
  superseded _ _ _ hr _ h := absurd (hr.symm.trans h) hkey
  replaced _ _ _ _ _ h := absurd h hkey

/-- After a step, a row with the key is the instance that was there or the next one. -/
private theorem allows_exec (hs : σ.store.Schema) (ht : template.Of schedule)
    (hwhole : schedule.interval.nanos % 1000000000 = 0)
    (hsched : ∀ r ∈ σ.store.instances template.key, r.Scheduled template σ.executed)
    (hund : σ.Undisturbed sha256 template.key a) :
    (a.exec sha256 σ.store).Rows fun r => r.key = template.key → σ.Allows template schedule a r := by
  have hself : σ.store.Rows fun r => r.key = template.key → σ.Allows template schedule a r := by
    intro r hr hkey
    have hmem := mem_instances.2 ⟨hr, hkey⟩
    exact .inl ⟨r, hmem, rfl, hsched r hmem⟩
  -- a row that is in the queue and keeps the columns of the schedule
  have hchange {r r' : TaskRow} (hr : r ∈ σ.store.tasks) (hinst : r'.inst = r.inst) (htemp : r'.template = r.template)
      (hcount : r'.recurringExecutionCount = r.recurringExecutionCount)
        (hpaused : r'.recurringPaused = r.recurringPaused)
      (hmark : r'.requeue = r.requeue) : r'.key = template.key → σ.Allows template schedule a r' := by
    intro hkey
    have hsame : r.key = template.key := (congrArg Template.key htemp).symm.trans hkey
    have hmem := mem_instances.2 ⟨hr, hsame⟩
    exact .inl ⟨r, hmem, hinst, (hsched r hmem).same htemp hcount hpaused hmark⟩
  have hcompletion (tasks : List TaskRecord) (now : Int) (hnow : now ∈ a.times)
      (hrec : ∀ task ∈ tasks, task.key = template.key → σ.store.instances template.key ≠ [] ∧
        task.Instance template σ.executed) :
      CompletionKeepsRows (fun r => r.key = template.key → σ.Allows template schedule a r) tasks now σ.store := by
    refine ⟨fun r hr _ hreq inst _ hkey => ?_, fun task htask interval hrecurs id inst hinst hkey => ?_⟩
    · -- no instance is to be requeued
      have hmark : r.requeue = false := by
        rcases hr hkey with ⟨_, _, _, hsch⟩ | ⟨_, _, _, now', _, hren⟩
        · exact hsch.unmarked
        · exact hren.scheduled.unmarked
      rw [hreq] at hmark
      cases hmark
    · have hsame : task.key = template.key := by
        split at hkey
        · exact hkey
        · exact hkey
      obtain ⟨hne, hinstance⟩ := hrec task htask hsame
      obtain ⟨rfl, hgoes⟩ := (hinstance.recurs_iff ht interval).1 hrecurs
      refine .inr ⟨hne, ?_, hgoes, now, hnow, nextInstance_renewed hwhole hinstance id inst⟩
      split
      · exact hinst
      · exact hinst
  have hfree (now : Int) : FreeingKeepsRows (fun r => r.key = template.key → σ.Allows template schedule a r)
      now σ.store := by
    intro r hr hblocked hkey
    have hsame : r.key = template.key := by
      unfold Store.freeRow at hkey
      split at hkey
      · exact hkey
      · exact hkey
    rcases hr hsame with ⟨r₀, hr₀, hinst, hsch⟩ | ⟨_, _, _, now', _, hren⟩
    · refine .inl ⟨r₀, hr₀, ?_⟩
      unfold Store.freeRow
      split
      · exact ⟨hinst, hsch.same rfl rfl rfl rfl⟩
      · exact ⟨hinst, hsch.same rfl rfl rfl rfl⟩
    · exact absurd hblocked hren.not_blocked
  -- the records are those of the instances
  have hrecord : ∀ task ∈ a.completes, task.key = template.key →
      σ.store.instances template.key ≠ [] ∧ task.Instance template σ.executed := by
    intro task htask hkey
    obtain ⟨row, hrow, hid, hrowkey⟩ := hund.current.2 task htask
    have hmem := mem_instances.2 ⟨hrow, hrowkey.trans hkey⟩
    obtain ⟨_, htemp, hcount, hpaused⟩ := hund.read task htask row hmem hid
    have hsch := hsched row hmem
    exact ⟨List.ne_nil_of_mem hmem, htemp.trans hsch.template, hcount.trans hsch.count, hpaused.trans hsch.unpaused⟩
  refine a.rows_exec sha256 hs hself ?_
  cases a with
  | update u =>
    intro r hr hsel
    cases u with
    | setRecurringPaused id paused =>
      intro hkey
      have hmem := mem_instances.2 ⟨hr, hkey⟩
      simp only [RowUpdate.selects, Bool.and_eq_true, beq_iff_eq] at hsel
      cases paused with
      | true =>
        have hnot := hund.unpaused r hmem
        rw [hsel.1] at hnot
        exact absurd rfl hnot
      | false => exact hchange hr rfl rfl rfl (hsched r hmem).unpaused.symm rfl hkey
    | _ => exact hchange hr rfl rfl rfl rfl rfl
  | submitDirect sub now => exact allows_submission (hund.submissions sub (List.mem_singleton_self _))
  | processSubmitBatch skipRequeue batch =>
    refine Along.of_mem fun σ' m hm _ => ?_
    have hne := hund.submissions m.1 (List.mem_map_of_mem hm)
    exact ⟨allows_submission hne, fun _ h => absurd h hne⟩
  | submitChunk skipRequeue last now chunk =>
    exact Along.of_mem fun σ' item hitem _ _ =>
      allows_submission (hund.submissions item.2 (List.mem_map_of_mem hitem))
  | claimTask id now => exact fun r hr _ _ => hchange hr rfl rfl rfl rfl rfl
  | popById id now => exact fun r hr _ _ => hchange hr rfl rfl rfl rfl rfl
  | popNextBatch limit aging now => exact fun r hr _ => hchange hr rfl rfl rfl rfl rfl
  | complete id metrics now =>
    intro row hrow
    refine hcompletion _ now (List.mem_singleton_self _) fun task htask hkey => ?_
    rw [List.mem_singleton.1 htask] at hkey ⊢
    have hmem := mem_instances.2 ⟨List.mem_of_find?_eq_some hrow, hkey⟩
    have hsch := hsched row hmem
    exact ⟨List.ne_nil_of_mem hmem, hsch.template, hsch.count, hsch.unpaused⟩
  | completeWithRecord task metrics now => exact hcompletion _ now (List.mem_singleton_self _) hrecord
  | completeBatch items now => exact ⟨hcompletion _ now (List.mem_singleton_self _) hrecord, hfree now⟩
  | resolveDependents id now => exact hfree now
  | failDependents id now => exact hfree now
  | fail id error retryable maxRetries metrics backoff now =>
    exact fun r hr _ => hchange (List.mem_of_find?_eq_some hr) rfl rfl rfl rfl rfl
  | failWithRecord task error retryable maxRetries metrics backoff now =>
    exact fun _ r hr _ => hchange hr rfl rfl rfl rfl rfl
  | recoverRunning now =>
    refine ⟨fun r hr _ => ?_, fun r hr _ _ => ?_, fun r hr _ _ _ => ?_⟩
    · exact hchange hr rfl rfl rfl rfl rfl
    · exact hchange hr rfl rfl rfl rfl rfl
    · exact hchange hr rfl rfl rfl rfl rfl
  | _ => trivial

end Instances

/-! ### One step -/

section Step

variable {sha256 : List UInt8 → String} {template : Template} {schedule : RecurringSchedule}
    {σ : Schedule} {a : Action}
  {r : TaskRow}

/-- A completion of the instance either fails, or executes it with its record. -/
private theorem exec_executes (sha256 : List UInt8 → String) {s : Store} (hs : s.Schema) (htags : s.TagsIntact)
    (hspares : a.SparesTags s) (hcur : a.Current s) (hr : r ∈ s.tasks) (hreq : r.requeue = false)
    (hrec : r.recurringIntervalSecs ≠ none)
    (hread : ∀ task ∈ a.completes, r.id = task.id → task.inst = r.inst ∧ task.template = r.template ∧
      task.recurringExecutionCount = r.recurringExecutionCount ∧ task.recurringPaused = r.recurringPaused)
    (hc : a.Completes r.id) :
    (a.exec sha256 s).tasks = s.tasks ∨ ∃ task : TaskRecord, task.inst = r.inst ∧ task.template = r.template ∧
      task.recurringExecutionCount = r.recurringExecutionCount ∧ task.recurringPaused = r.recurringPaused ∧
      s.Executes r task (a.exec sha256 s) := by
  have htidy {ids : List Int} (h : s.FlagHolds ids) : s.Tidy (!s.hasTags) ids :=
    ⟨htags, fun hskip => h (by simpa using hskip)⟩
  cases a with
  | complete id metrics now =>
    obtain rfl : id = r.id := hc
    rcases h : completeTx r.id metrics now s with ⟨e | u, s'⟩
    · obtain ⟨s₁, _, rfl⟩ := transaction_error h
      left
      rw [Action.exec, h]
      rfl
    · right
      have hbody := transaction_ok h
      simp only [hs.taskById_eq hr] at hbody
      obtain ⟨result, s₁, h₁, hbody⟩ := Txn.bind_ok hbody
      cases hbody
      rw [Action.exec, h]
      exact ⟨rowToTaskRecord r, rfl, rfl, rfl, rfl,
        completeInner_executes hs (htidy hspares) (List.mem_singleton_self _) hr hreq rfl rfl h₁⟩
  | completeWithRecord task metrics now =>
    have hid : task.id = r.id := hc
    rcases h : completeWithRecordTx task metrics now s with ⟨e | result, s'⟩
    · obtain ⟨s₁, _, rfl⟩ := transaction_error h
      left
      rw [Action.exec, h]
      rfl
    · right
      obtain ⟨hinst, htemp, hcount, hpaused⟩ := hread task List.mem_cons_self hid.symm
      rw [Action.exec, h]
      exact ⟨task, hinst, htemp, hcount, hpaused,
        completeInner_executes hs (htidy hspares) (List.mem_singleton_self _) hr hreq
        hid (congrArg Template.key htemp) (transaction_ok h)⟩
  | completeBatch items now =>
    obtain ⟨item, hitem, hid⟩ := List.mem_map.1 hc.1
    obtain ⟨hinst, htemp, hcount, hpaused⟩ := hread item.1 (List.mem_map_of_mem hitem) hid.symm
    have hkey : item.1.key = r.key := congrArg Template.key htemp
    rcases h : completeBatchTx items now s with ⟨e | results, s'⟩
    · left
      rw [Action.exec, h]
      exact completeBatchTx_error h
    · right
      rw [Action.exec, h]
      refine ⟨item.1, hinst, htemp, hcount, hpaused, ?_⟩
      obtain _ | ⟨⟨task, metrics⟩, _ | ⟨second, rest⟩⟩ := items
      · cases hitem
      · obtain rfl := List.mem_singleton.1 hitem
        obtain ⟨result, s₁, h₁, h⟩ := Txn.bind_ok h
        cases h
        exact completeAndResolve_executes hs (htidy hspares) (List.mem_singleton_self _) hr hreq hid hkey
          (transaction_ok h₁)
      · rw [completeBatchTx_several (by simp)] at h
        generalize (task, metrics) :: second :: rest = items at *
        have hany : items.any (fun item => item.1.recurringIntervalSecs.isSome) = true := by
          refine List.any_eq_true.2 ⟨item, hitem, ?_⟩
          have hsome : item.1.recurringIntervalSecs = r.recurringIntervalSecs :=
            congrArg Template.recurringIntervalSecs htemp
          rw [hsome]
          exact Option.isSome_iff_ne_none.2 hrec
        rw [if_pos hany] at h
        have hnodup : (items.map (·.1.id)).Nodup := by
          have hdistinct := hcur.1
          rwa [Action.completes, List.map_map] at hdistinct
        refine mapList_executes hs (htidy hspares) hnodup (fun x hx => ?_) hitem hr hreq hid hkey (transaction_ok h)
        obtain ⟨row, hrow, hrowid, _⟩ := hcur.2 x.1 (List.mem_map_of_mem hx)
        exact ⟨row, hrow, hrowid⟩
  | _ => exact hc.elim

/-- A completion writes rows with the status `completed`. -/
private theorem writes_completed {s : Store} {id : Int} (hc : a.Completes id) {h : TaskHistoryRow}
    (hw : a.Writes s h) :
    h.status = .completed := by
  cases a with
  | complete id metrics now =>
    obtain ⟨r, _, _, hof⟩ := hw
    exact hof.status
  | completeWithRecord task metrics now => exact TaskHistoryRow.Of.status hw
  | completeBatch items now =>
    obtain ⟨item, _, hof⟩ := hw
    exact hof.status
  | _ => exact hc.elim

private theorem times_of_completes {id : Int} (hc : a.Completes id) : ∃ now, a.times = [now] := by
  cases a with
  | complete id metrics now => exact ⟨now, rfl⟩
  | completeWithRecord task metrics now => exact ⟨now, rfl⟩
  | completeBatch items now => exact ⟨now, rfl⟩
  | _ => exact hc.elim

/-- An instance that is still there was not completed. -/
private theorem completedIn_kept {key : String} {s s' : Store} (h : s.instances key = [r])
    (hkept : ∃ r' ∈ s'.tasks, r'.inst = r.inst) :
    completedIn key s s' = 0 := by
  have hany : s'.tasks.any (·.inst == r.inst) = true := by
    obtain ⟨r', hr', hinst⟩ := hkept
    exact List.any_eq_true.2 ⟨r', hr', by simpa using hinst⟩
  simp [completedIn, h, hany]

private theorem completedIn_executed {key : String} {s : Store} {task : TaskRecord} (h : s.instances key = [r])
    (hc : a.Completes r.id) (hinst : task.inst = r.inst) (hex : s.Executes r task (a.exec sha256 s)) :
    completedIn key s (a.exec sha256 s) = 1 := by
  have hany : (a.exec sha256 s).tasks.any (·.inst == r.inst) = false := by
    rw [List.any_eq_false]
    intro r' hr'
    simpa using hex.gone r' hr'
  obtain ⟨row, hrow, hnew, hrowInst⟩ := hex.logged
  obtain ⟨st, hst⟩ := exists_loggedAs hrow hnew
  rw [hrowInst, hinst] at hst
  obtain ⟨row', hrow', hnew', _, hstatus⟩ := loggedAs_some hst
  have hwrites : a.Writes s row' := (a.logs_exec sha256 s row' hrow').resolve_left hnew'
  rw [← hstatus, writes_completed hc hwrites] at hst
  simp [completedIn, h, hany, hst]

/-- What a step does to an undisturbed schedule: there is no instance, it stays, or it is executed. -/
private inductive Schedule.Moves (sha256 : List UInt8 → String) (template : Template) (schedule : RecurringSchedule)
    (σ : Schedule) (a : Action) : Prop
  | absent (before : σ.store.instances template.key = [])
  (after : (a.exec sha256 σ.store).instances template.key = [])
    (count : (σ.step sha256 template.key a).executed = σ.executed)
  | stays (r r' : TaskRow) (before : σ.store.instances template.key = [r])
    (after : (a.exec sha256 σ.store).instances template.key = [r']) (scheduled : r'.Scheduled template σ.executed)
    (count : (σ.step sha256 template.key a).executed = σ.executed)
  | renews (r r' : TaskRow) (now : Int) (before : σ.store.instances template.key = [r])
    (after : (a.exec sha256 σ.store).instances template.key = [r']) (time : a.times = [now])
    (renewed : r'.Renewed template schedule.interval σ.executed σ.store now)
    (tags : (a.exec sha256 σ.store).tagsOf r'.id = σ.store.tagsOf r.id) (goes : schedule.GoesOn (σ.executed + 1))
    (count : (σ.step sha256 template.key a).executed = σ.executed + 1)
  | ends (r : TaskRow) (before : σ.store.instances template.key = [r])
  (after : (a.exec sha256 σ.store).instances template.key = [])
    (last : ¬ schedule.GoesOn (σ.executed + 1)) (count : (σ.step sha256 template.key a).executed = σ.executed + 1)

/-- The schedule is regular, and the tables are in order. -/
private structure Schedule.Kept (template : Template) (schedule : RecurringSchedule) (σ : Schedule) : Prop where
  schema : σ.store.Schema
  tags : σ.store.TagsIntact
  regular : σ.Regular template schedule

private theorem Schedule.Kept.moves (h : σ.Kept template schedule) (ht : template.Of schedule)
    (hwhole : schedule.interval.nanos % 1000000000 = 0) (hund : σ.Undisturbed sha256 template.key a)
    (hspares : a.SparesTags σ.store) : σ.Moves sha256 template schedule a := by
  obtain ⟨hs, htags, hreg⟩ := h
  have hsched : ∀ r ∈ σ.store.instances template.key, r.Scheduled template σ.executed := by
    intro r hr
    by_cases hgoes : schedule.GoesOn σ.executed
    · obtain ⟨r₀, hone, hsch⟩ := hreg.present hgoes
      rw [hone, List.mem_singleton] at hr
      rw [hr]
      exact hsch
    · unfold RecurringSchedule.GoesOn at hgoes
      push Not at hgoes
      obtain ⟨n, hn, hle⟩ := hgoes
      have hbound := hreg.bounded n hn
      obtain rfl : n = σ.executed := by omega
      rw [hreg.finished hn] at hr
      cases hr
  have hallows := allows_exec hs ht hwhole hsched hund
  have hs' : (a.exec sha256 σ.store).Schema := hs.steps (a.steps sha256 σ.store)
  rcases hinst : σ.store.instances template.key with _ | ⟨r, rest⟩
  · -- nothing has the key, and nothing gets it
    have hnone : (a.exec sha256 σ.store).instances template.key = [] := by
      refine List.eq_nil_iff_forall_not_mem.2 fun r hr => ?_
      obtain ⟨hr, hkey⟩ := mem_instances.1 hr
      rcases hallows r hr hkey with ⟨r₀, hr₀, _⟩ | ⟨hne, _⟩
      · rw [hinst] at hr₀
        cases hr₀
      · exact hne hinst
    refine .absent hinst hnone ?_
    simp [Schedule.step, completedIn, hinst]
  · have hr := mem_instances.1 (show r ∈ σ.store.instances template.key by rw [hinst]; exact List.mem_cons_self)
    have hone : σ.store.instances template.key = [r] := by
      rw [← hr.2]
      exact hs.instances_eq hr.1
    have hmem : r ∈ σ.store.instances template.key := by
      rw [hone]
      exact List.mem_singleton_self _
    have hsch := hsched r hmem
    have hlt := hs.inst_lt r hr.1
    -- the life is kept, with its key
    have hstays (hkept : ∃ r' ∈ (a.exec sha256 σ.store).tasks, r'.inst = r.inst) :
        σ.Moves sha256 template schedule a := by
      obtain ⟨r', hr', hlife⟩ := hkept
      obtain ⟨x, hx, hxinst, _, hxkey⟩ := (a.steps sha256 σ.store).old_life hr' (by omega)
      rw [List.inj_on_of_nodup_map hs.insts hx hr.1 (hxinst.trans hlife), hr.2] at hxkey
      have hafter : (a.exec sha256 σ.store).instances template.key = [r'] := by
        rw [hxkey]
        exact hs'.instances_eq hr'
      refine .stays r r' hone hafter ?_ ?_
      · rcases hallows r' hr' hxkey.symm with ⟨_, _, _, h⟩ | ⟨_, hle, _⟩
        · exact h
        · omega
      · simp [Schedule.step, completedIn_kept hone ⟨r', hr', hlife⟩]
    rcases hund.completes r hmem with hsp | hc
    · obtain ⟨r', hr', his⟩ := a.holds_exec sha256 hs hr.1 hsp
      exact hstays ⟨r', hr', his.inst rfl⟩
    · have hrec : r.recurringIntervalSecs ≠ none := by
        have hcol : r.recurringIntervalSecs = template.recurringIntervalSecs :=
          congrArg Template.recurringIntervalSecs hsch.template
        rw [hcol, ht.interval]
        nofun
      rcases exec_executes sha256 hs htags hspares hund.current hr.1 hsch.unmarked hrec
        (fun task htask hid => hund.read task htask r hmem hid)
          hc with hsame | ⟨task, htinst, htemp, hcount, hpaused, hex⟩
      · exact hstays ⟨r, by rw [hsame]; exact hr.1, rfl⟩
      · have hinstance : task.Instance template σ.executed :=
          ⟨htemp.trans hsch.template, hcount.trans hsch.count, hpaused.trans hsch.unpaused⟩
        have hexecuted : (σ.step sha256 template.key a).executed = σ.executed + 1 := by
          simp [Schedule.step, completedIn_executed hone hc htinst hex]
        by_cases hgoes : schedule.GoesOn (σ.executed + 1)
        · have hrecurs : task.recurs ≠ none := by
            rw [(hinstance.recurs_iff ht _).2 ⟨rfl, hgoes⟩]
            nofun
          obtain ⟨r', hr', hkey', htags'⟩ := hex.next hrecurs
          obtain ⟨now, hnow⟩ := times_of_completes hc
          have hafter : (a.exec sha256 σ.store).instances template.key = [r'] := by
            rw [← hr.2, ← hkey']
            exact hs'.instances_eq hr'
          rcases hallows r' hr' (hkey'.trans hr.2) with ⟨r₀, hr₀, hold, _⟩ | ⟨_, _, _, now', hnow', hren⟩
          · rw [hone, List.mem_singleton] at hr₀
            rw [hr₀] at hold
            exact absurd hold (hex.gone r' hr')
          · rw [hnow, List.mem_singleton] at hnow'
            rw [hnow'] at hren
            exact .renews r r' now hone hafter hnow hren htags' hgoes hexecuted
        · refine .ends r hone (List.eq_nil_iff_forall_not_mem.2 fun x hx => ?_) hgoes hexecuted
          obtain ⟨hx, hxkey⟩ := mem_instances.1 hx
          rcases hallows x hx hxkey with ⟨r₀, hr₀, hold, _⟩ | ⟨_, _, hmore, _⟩
          · rw [hone, List.mem_singleton] at hr₀
            rw [hr₀] at hold
            exact hex.gone x hx hold
          · exact hgoes hmore

private theorem Schedule.Regular.step (hreg : σ.Regular template schedule)
    (hmoves : σ.Moves sha256 template schedule a) :
    (σ.step sha256 template.key a).Regular template schedule := by
  cases hmoves with
  | absent before after count =>
    refine ⟨?_, fun hgoes => ?_, fun _ => after⟩
    · rw [count]
      exact hreg.bounded
    · rw [count] at hgoes
      obtain ⟨r, hone, _⟩ := hreg.present hgoes
      rw [before] at hone
      cases hone
  | stays r r' before after scheduled count =>
    refine ⟨?_, fun _ => ⟨r', after, ?_⟩, fun hover => ?_⟩
    · rw [count]
      exact hreg.bounded
    · rw [count]
      exact scheduled
    · rw [count] at hover
      rw [hreg.finished hover] at before
      cases before
  | renews r r' now before after time renewed tags goes count =>
    refine ⟨fun n hn => ?_, fun _ => ⟨r', after, ?_⟩, fun hover => ?_⟩
    · rw [count]
      exact Nat.le_of_lt (goes n hn)
    · rw [count]
      exact renewed.scheduled
    · rw [count] at hover
      have := goes _ hover
      omega
  | ends r before after last count =>
    refine ⟨fun n hn => ?_, fun hgoes => ?_, fun _ => after⟩
    · have hle := hreg.bounded n hn
      have hne : n ≠ σ.executed := by
        rintro rfl
        rw [hreg.finished hn] at before
        cases before
      rw [count]
      omega
    · rw [count] at hgoes
      exact absurd hgoes last

private theorem Schedule.Kept.step (h : σ.Kept template schedule) (hmoves : σ.Moves sha256 template schedule a)
    (hspares : a.SparesTags σ.store) : (σ.step sha256 template.key a).Kept template schedule where
  schema := h.schema.steps (a.steps sha256 σ.store)
  tags := (a.tags_exec h.tags hspares).1
  regular := h.regular.step hmoves

end Step

/-- A task with a schedule that its columns can hold, in a run that leaves its schedule alone and no tags without
their row.  While the schedule goes on there is exactly one row with the key, with the count of the executions so
far, and there is none after the last one; every execution before the last one leaves the next instance, with the
columns and the tags of the schedule, due an interval after it, and paused iff its group is. -/
theorem schedule_kept (sha256 : List UInt8 → String) (sub : TaskSubmission) (schedule : RecurringSchedule)
    (hrec : sub.recurring = some schedule) (hmax : ∀ n, schedule.maxExecutions = some n → 1 ≤ n)
    (hstored : schedule.Storable) (σ : Schedule)
    (h : Runs (Schedule.Start (sub.template sha256)) (Schedule.step sha256 (sub.effectiveKey sha256))
      (fun σ a => σ.Undisturbed sha256 (sub.effectiveKey sha256) a ∧ a.SparesTags σ.store) σ) :
    σ.Regular (sub.template sha256) schedule ∧
      ∀ a, σ.Undisturbed sha256 (sub.effectiveKey sha256) a → a.SparesTags σ.store →
        σ.Renews sha256 (sub.template sha256) schedule a := by
  have ht : (sub.template sha256).Of schedule := by
    constructor
    · show sub.recurring.map _ = _
      rw [hrec, Option.map_some, asI64_of_lt hstored.interval]
    · show sub.recurring.bind _ = _
      rw [hrec, Option.bind_some]
      exact Option.map_congr fun n hn => asI64_of_lt (hstored.maxExecutions n hn)
  have hkept : σ.Kept (sub.template sha256) schedule := by
    refine h.invariant (fun σ hstart => ?_) fun σ a hσ hguard => ?_
    · obtain ⟨r, hr, hsch⟩ := hstart.first
      have hone : σ.store.instances (sub.template sha256).key = [r] := by
        rw [← hsch.template]
        exact hstart.schema.instances_eq hr
      refine ⟨hstart.schema, hstart.tags, ?_, fun _ => ⟨r, hone, ?_⟩, fun hover => ?_⟩
      · rw [hstart.executed]
        exact fun n _ => Nat.zero_le n
      · rw [hstart.executed]
        exact hsch
      · rw [hstart.executed] at hover
        exact absurd (hmax 0 hover) (by omega)
    · exact hσ.step (hσ.moves ht hstored.whole hguard.1 hguard.2) hguard.2
  refine ⟨hkept.regular, fun a hund hspares hexecuted hgoes => ?_⟩
  cases hkept.moves ht hstored.whole hund hspares with
  | absent before after count => exact absurd count hexecuted
  | stays r r' before after scheduled count => exact absurd count hexecuted
  | renews r r' now before after time renewed tags goes count =>
    exact ⟨r, r', now, before, after, time, renewed, tags⟩
  | ends r before after last count => exact absurd hgoes last

/-- A task of type `a` with a tag that recurs twice. -/
private def twiceA (interval : Duration) : TaskSubmission :=
  { TaskSubmission.new "a" with
    tags := ⟨[("owner", "ops")], Tags.nodup_single "owner" "ops"⟩
    recurring := some { interval := interval, initialDelay := none, maxExecutions := some 2 } }

/-- It has been submitted. -/
private def startA (interval : Duration) : Schedule :=
  ⟨execAll sampleSha256 openMemory [.submitDirect (twiceA interval) 0], 0⟩

private theorem startA_start {interval : Duration}
    (h : ∃ r ∈ (startA interval).store.tasks, r.Scheduled ((twiceA interval).template sampleSha256) 0) :
    (startA interval).Start ((twiceA interval).template sampleSha256) where
  schema := schema_execAll sampleSha256 _ openMemory_fresh.schema
  tags := by
    have hfresh : openMemory.TagsIntact := ⟨nofun, nofun, List.nodup_nil⟩
    exact ((Action.submitDirect (twiceA interval) 0).tags_exec hfresh trivial).1
  first := h
  executed := rfl

private theorem claim_undisturbed (σ : Schedule) (key : String) (id now : Int) :
    σ.Undisturbed sampleSha256 key (.claimTask id now) where
  submissions _ h := absurd h List.not_mem_nil
  unpaused _ _ h := Action.noConfusion h
  completes _ _ := .inl trivial
  current := ⟨List.nodup_nil, fun _ h => absurd h List.not_mem_nil⟩
  read _ h := absurd h List.not_mem_nil

private theorem complete_undisturbed {σ : Schedule} {key : String} {id : Int} (now : Int)
    (h : ∀ r ∈ σ.store.instances key, id = r.id) : σ.Undisturbed sampleSha256 key (.complete id {} now) where
  submissions _ h := absurd h List.not_mem_nil
  unpaused _ _ h := Action.noConfusion h
  completes r hr := .inr (h r hr)
  current := ⟨List.nodup_nil, fun _ h => absurd h List.not_mem_nil⟩
  read _ h := absurd h List.not_mem_nil

/-- The task is claimed. -/
private def claimedA (interval : Duration) : Schedule :=
  (startA interval).step sampleSha256 ((twiceA interval).effectiveKey sampleSha256) (.claimTask 1 1)

private theorem claimedA_runs {interval : Duration} {guard : Schedule → Action → Prop}
    (h : ∃ r ∈ (startA interval).store.tasks, r.Scheduled ((twiceA interval).template sampleSha256) 0)
    (hguard : guard (startA interval) (.claimTask 1 1)) :
    Runs (Schedule.Start ((twiceA interval).template sampleSha256))
      (Schedule.step sampleSha256 ((twiceA interval).effectiveKey sampleSha256)) guard (claimedA interval) :=
  Runs.next (.start (startA_start h)) (Action.claimTask 1 1) hguard

private theorem claimedA_goesOn (interval : Duration) (h : (claimedA interval).executed = 0) :
    RecurringSchedule.GoesOn ⟨interval, none, some 2⟩ ((claimedA interval).executed + 1) := by
  intro n hn
  obtain rfl := Option.some.inj hn
  omega

/-- It is executed for the first time, and due again a minute later. -/
theorem executed_once :
    (claimedA ⟨60000000000⟩).Regular ((twiceA ⟨60000000000⟩).template sampleSha256) ⟨⟨60000000000⟩, none, some 2⟩ ∧
      ∃ r' now, ((Action.complete 1 {} 10).exec sampleSha256 (claimedA ⟨60000000000⟩).store).instances
          ((twiceA ⟨60000000000⟩).effectiveKey sampleSha256) = [r'] ∧
        r'.Renewed ((twiceA ⟨60000000000⟩).template sampleSha256) ⟨60000000000⟩ 0
          (claimedA ⟨60000000000⟩).store now := by
  obtain ⟨hregular, hrenews⟩ := schedule_kept sampleSha256 (twiceA ⟨60000000000⟩) ⟨⟨60000000000⟩, none, some 2⟩ rfl
    (by simp) ⟨by decide, by decide, by simp⟩ (claimedA ⟨60000000000⟩)
    (claimedA_runs (by decide +kernel) ⟨claim_undisturbed _ _ 1 1, trivial⟩)
  refine ⟨hregular, ?_⟩
  obtain ⟨r, r', now, _, hafter, _, hrenewed, _⟩ := hrenews (.complete 1 {} 10)
    (complete_undisturbed 10 (by decide +kernel)) (fun hflag => absurd hflag (by decide +kernel)) (by decide +kernel)
    (claimedA_goesOn ⟨60000000000⟩ (by decide +kernel))
  exact ⟨r', now, hafter, hrenewed⟩

/-- An interval of one and a half seconds is one second. -/
theorem due_too_early :
    ¬ ∀ (sha256 : List UInt8 → String) (sub : TaskSubmission) (schedule : RecurringSchedule) (σ : Schedule),
      sub.recurring = some schedule → (∀ n, schedule.maxExecutions = some n → 1 ≤ n) →
      Runs (Schedule.Start (sub.template sha256)) (Schedule.step sha256 (sub.effectiveKey sha256))
        (fun σ a => σ.Undisturbed sha256 (sub.effectiveKey sha256) a) σ →
      σ.Regular (sub.template sha256) schedule ∧
        ∀ a, σ.Undisturbed sha256 (sub.effectiveKey sha256) a → σ.Renews sha256 (sub.template sha256) schedule a := by
  intro h
  obtain ⟨_, hrenews⟩ := h sampleSha256 (twiceA ⟨1500000000⟩) ⟨⟨1500000000⟩, none, some 2⟩
    (claimedA ⟨1500000000⟩) rfl (by simp) (claimedA_runs (by decide +kernel) (claim_undisturbed _ _ 1 1))
  obtain ⟨r, r', now, _, hafter, htimes, hrenewed, _⟩ := hrenews (.complete 1 {} 10)
    (complete_undisturbed 10 (by decide +kernel)) (by decide +kernel)
    (claimedA_goesOn ⟨1500000000⟩ (by decide +kernel))
  obtain rfl : now = 10 := (List.cons.inj htimes).1.symm
  have hrow : ∀ r ∈ ((Action.complete 1 {} 10).exec sampleSha256 (claimedA ⟨1500000000⟩).store).instances
      ((twiceA ⟨1500000000⟩).effectiveKey sampleSha256), r.runAfter = some 1010 := by decide +kernel
  have hdue := hrow r' (by
    have hmem : r' ∈ [r'] := List.mem_singleton_self _
    rwa [← hafter] at hmem)
  rw [hrenewed.runAfter] at hdue
  exact absurd hdue (by decide)

end Taskmill
