import Taskmill.Cascade
import Taskmill.Completion

/-!
# Properties of single rows

A step of the store changes a row in one of a few ways, and inserts rows of a few shapes.  `Action.KeepsRows` lists
them for every step and asks of a property `P` of rows that it survives each; `Action.rows_exec` says that `P` then
holds of all rows after the step if it held before.  What an operation does to a row within its transaction, such as
the status `pending` of a dependent that goes on to `paused`, does not count.
-/

namespace Taskmill

open Transact

/-- All rows have the property. -/
def Store.Rows (s : Store) (P : TaskRow → Prop) : Prop := ∀ r ∈ s.tasks, P r

section Rows

variable {P : TaskRow → Prop} {s : Store}

theorem Store.Rows.congr {s' : Store} (hs : s.Rows P) (h : s'.tasks = s.tasks) : s'.Rows P := by
  intro r hr
  rw [h] at hr
  exact hs r hr

theorem Store.Rows.update (hs : s.Rows P) {p : TaskRow → Bool} {f : TaskRow → TaskRow}
    (hf : ∀ r ∈ s.tasks, p r = true → P (f r)) : (s.updateTasks p f).Rows P := by
  intro r' hr'
  obtain ⟨r, hr, rfl⟩ := List.mem_map.1 hr'
  split
  · rename_i hp
    exact hf r hr hp
  · exact hs r hr

theorem Store.Rows.delete (hs : s.Rows P) (p : TaskRow → Bool) : (s.deleteTasks p).Rows P :=
  fun r hr => hs r (List.mem_of_mem_filter hr)

theorem Store.Rows.add (hs : s.Rows P) {row : TaskRow}
    (hrow : P { row with id := s.nextTaskId, inst := s.nextInst }) :
    (s.addTask row).Rows P := by
  intro r hr
  rcases List.mem_append.1 hr with hr | hr
  · exact hs r hr
  · rw [List.mem_singleton] at hr
    rw [hr]
    exact hrow

end Rows

/-- What a transaction on `s₀` has come to, as far as `P` is concerned: the paused groups are those of `s₀`, and
lives are numbered on from there. -/
structure Store.Within (P : TaskRow → Prop) (s₀ s : Store) : Prop where
  rows : s.Rows P
  schema : s.Schema
  groups : s.pausedGroups = s₀.pausedGroups
  next : s₀.nextInst ≤ s.nextInst

theorem Store.Within.groupPaused {P : TaskRow → Prop} {s₀ s : Store} (h : s₀.Within P s) (group : Option String) :
    s.groupPaused group = s₀.groupPaused group := by
  unfold Store.groupPaused
  rw [h.groups]

theorem Steps.nextInst_le {b : Bool} {s s' : Store} (h : Steps b s s') : s.nextInst ≤ s'.nextInst := by
  refine Steps.invariant (I := fun t => s.nextInst ≤ t.nextInst) (fun t t' hst ht => ?_) h (Nat.le_refl _)
  cases hst with
  | renew id f hf hb =>
    show s.nextInst ≤ t.nextInst + 1
    omega
  | add row hk hb =>
    show s.nextInst ≤ t.nextInst + 1
    omega
  | _ => exact ht

/-! ### The single `UPDATE`s -/

/-- The `WHERE` clause. -/
def RowUpdate.selects : RowUpdate → TaskRow → Bool
  | .requeue id, r => r.id == id && r.status == .running
  | .setRunAfter id _, r => r.id == id && r.status == .pending
  | .incrementRetry id _, r => r.id == id
  | .requeueForRetry id _ _ _, r => r.id == id
  | .pause id _ _, r => r.id == id
  | .resume id _, r => r.id == id && r.status == .paused
  | .resumeSole sel reason _, r => sel.selects r && r.status == .paused && r.pauseReasons == reason
  | .clearBit sel reason, r => sel.selects r && r.status == .paused && r.pauseReasons &&& reason != 0
  | .addGroupBit group, r => r.groupKey == some group && r.status == .paused && r.pauseReasons &&& .group == 0
  | .pausePendingInGroup group _, r => r.groupKey == some group && r.status == .pending
  | .pausePendingByTypePrefix like _, r => like r.taskType && (r.status == .pending || r.status == .paused)
  | .setWaiting id _, r => r.id == id && r.status == .running
  | .setRunningForFinalize id _, r => r.id == id && r.status == .waiting
  | .setRecurringPaused id _, r => r.id == id && r.recurringIntervalSecs.isSome

/-- The `SET` clause. -/
def RowUpdate.change : RowUpdate → TaskRow → TaskRow
  | .requeue _, r => { r with status := .pending, startedAt := none }
  | .setRunAfter _ runAfter, r => { r with runAfter := some runAfter }
  | .incrementRetry _ error, r => { r with retryCount := r.retryCount + 1, lastError := some error }
  | .requeueForRetry _ error delay now, r => r.retry error delay now
  | .pause _ reason now, r => { r.pauseFor reason now with startedAt := none }
  | .resume _ now, r => r.resume now
  | .resumeSole _ _ now, r => r.resume now
  | .clearBit _ reason, r => { r with pauseReasons := r.pauseReasons &&& ~~~reason }
  | .addGroupBit _, r => { r with pauseReasons := r.pauseReasons ||| .group }
  | .pausePendingInGroup _ now, r => r.pauseFor .group now
  | .pausePendingByTypePrefix _ now, r => r.pauseFor .module now
  | .setWaiting _ memo, r => { r with status := .waiting, startedAt := none, memo := memo }
  | .setRunningForFinalize _ now, r => { r with status := .running, startedAt := some now }
  | .setRecurringPaused _ paused, r => { r with recurringPaused := paused }

/-- The single `UPDATE`s that make rows pending. -/
def RowUpdate.wakes : RowUpdate → Bool
  | .requeue _ | .requeueForRetry .. | .resume .. | .resumeSole .. => true
  | _ => false

theorem RowUpdate.exec_update (u : RowUpdate) (s : Store) : u.exec s = s.updateTasks u.selects u.change := by
  cases u <;> rfl

/-! ### What a step may do to the rows -/

/-- The submission has a key of its own and no dependency to wait for. -/
def TaskSubmission.Lands (sha256 : List UInt8 → String) (sub : TaskSubmission) (now : Int) (s : Store) : Prop :=
  s.taskByKey (sub.effectiveKey sha256) = none ∧
    (s.addTask (sub.newRow (sub.effectiveKey sha256) now)).activeDeps sub.onDependencyFailure sub.dependencies =
      .ok []

/-- A submission that is not refused leaves rows with `P`. -/
structure TaskSubmission.KeepsRows (sha256 : List UInt8 → String) (P : TaskRow → Prop) (sub : TaskSubmission)
    (now : Int) (s : Store) : Prop where
  pending : sub.Lands sha256 now s → s.groupPaused sub.groupKey = false →
    P { sub.newRow (sub.effectiveKey sha256) now with id := s.nextTaskId, inst := s.nextInst }
  paused : sub.Lands sha256 now s → s.groupPaused sub.groupKey = true →
    P ({ sub.newRow (sub.effectiveKey sha256) now with id := s.nextTaskId, inst := s.nextInst }.pauseFor .group now)
  blocked :
    P { sub.newRow (sub.effectiveKey sha256) now with id := s.nextTaskId, inst := s.nextInst, status := .blocked }
  upgraded : ∀ r ∈ s.tasks, r.key = sub.effectiveKey sha256 → r.status = .pending ∨ r.status = .paused →
    sub.priority < r.priority → P { r with priority := sub.priority }
  requeued : ∀ r ∈ s.tasks, r.key = sub.effectiveKey sha256 → r.status = .running ∨ r.status = .paused →
    P { r with requeue := true, requeuePriority := some sub.priority }
  superseded : sub.onDuplicate = .supersede → ∀ r ∈ s.tasks, r.key = sub.effectiveKey sha256 →
    r.status = .pending ∨ r.status = .paused ∨ r.status = .blocked → P (sub.supersedeRow s.nextInst now r)
  replaced : sub.onDuplicate = .supersede → ∀ r ∈ s.tasks, r.key = sub.effectiveKey sha256 →
    r.status = .running ∨ r.status = .waiting →
    P { sub.baseRow (sub.effectiveKey sha256) now with id := (s.delete r.id).nextTaskId, inst := s.nextInst }

/-- The completion of the tasks `tasks` leaves rows with `P`. -/
structure CompletionKeepsRows (P : TaskRow → Prop) (tasks : List TaskRecord) (now : Int) (s : Store) : Prop where
  reset : ∀ r, P r → r.id ∈ tasks.map (·.id) → r.requeue = true → ∀ inst, s.nextInst ≤ inst → P (r.resetRequeued inst)
  next : ∀ task ∈ tasks, ∀ interval, task.recurs = some interval → ∀ id inst, s.nextInst ≤ inst →
    P (if s.groupPaused task.groupKey then { task.nextInstance interval now with id := id, inst := inst }.pauseFor
      .group now else { task.nextInstance interval now with id := id, inst := inst })

/-- The release of dependents leaves rows with `P`. -/
def FreeingKeepsRows (P : TaskRow → Prop) (now : Int) (s : Store) : Prop :=
  ∀ r, P r → r.status = .blocked → P (s.freeRow now r)

/-- A crash recovery leaves rows with `P`. -/
structure RecoveryKeepsRows (P : TaskRow → Prop) (now : Int) (s : Store) : Prop where
  reset : ∀ r ∈ s.tasks, r.status = .running → P { r with status := .pending, startedAt := none }
  settled : ∀ r ∈ s.tasks, r.status = .paused → r.pausedAtMs.isSome = true →
    P { r with pauseDurationMs := r.pauseDurationMs + (now - r.pausedAtMs.getD now), pausedAtMs := none }
  unblocked : ∀ r ∈ s.tasks, r.status = .blocked → (∀ e ∈ s.taskDeps, e.1 = r.id → e.2 ∉ s.ids) →
    (∃ e ∈ s.taskDeps, e.2 ∉ s.ids) → P { r with status := .pending }

/-- What a step may do to a row with `P` leaves it with `P`. -/
def Action.KeepsRows (sha256 : List UInt8 → String) (P : TaskRow → Prop) (s : Store) : Action → Prop
  | .update u => ∀ r ∈ s.tasks, u.selects r = true → P (u.change r)
  | .submitDirect sub now => sub.KeepsRows sha256 P now s
  | .processSubmitBatch skipRequeue batch =>
    Along (fun σ m => (submitOne sha256 m.1 skipRequeue m.2 σ).2)
      (fun σ m => s.Within P σ → m.1.KeepsRows sha256 P m.2 σ ∧
        ((submitOne sha256 m.1 skipRequeue m.2 σ).1.toBool = false →
          P { m.1.newRow (m.1.effectiveKey sha256) m.2 with id := σ.nextTaskId, inst := σ.nextInst })) s batch
  | .submitChunk skipRequeue last now chunk =>
    Along (fun s item => (submitItem sha256 skipRequeue last now item s).2)
      (fun σ item => s.Within P σ → last item.1 (item.2.effectiveKey sha256) = true → item.2.KeepsRows sha256 P now σ)
      s chunk
  | .claimTask id now | .popById id now => ∀ r ∈ s.tasks, r.id = id → r.status = .pending → P (r.claim now)
  | .popNextBatch _ _ now => ∀ r ∈ s.tasks, r.eligible now = true → P (r.claim now)
  | .complete id _ now => ∀ row, s.taskById id = some row → CompletionKeepsRows P [rowToTaskRecord row] now s
  | .completeWithRecord task _ now => CompletionKeepsRows P [task] now s
  | .completeBatch items now => CompletionKeepsRows P (items.map (·.1)) now s ∧ FreeingKeepsRows P now s
  | .resolveDependents _ now | .failDependents _ now => FreeingKeepsRows P now s
  | .fail id error retryable maxRetries _ backoff now =>
    ∀ r, s.taskById id = some r → (rowToTaskRecord r).willRetry retryable maxRetries = true →
      P (r.retry error (backoff.delay r.retryCount) now)
  | .failWithRecord task error retryable maxRetries _ backoff now =>
    task.willRetry retryable maxRetries = true → ∀ r ∈ s.tasks, r.id = task.id →
      P (r.retry error (backoff.delay task.retryCount) now)
  | .recoverRunning now => RecoveryKeepsRows P now s
  | _ => True

/-! ### The proof -/

/-- The ids that `pop_next_batch` selects are those of eligible rows. -/
theorem Store.Schema.eligible_of_nextIds {s : Store} (h : s.Schema) {limit : Nat}
    {aging : Option AgingParams} {now : Int} {r : TaskRow} (hr : r ∈ s.tasks)
    (hid : r.id ∈ s.nextIds limit aging now) : r.eligible now = true := by
  obtain ⟨r', hr', he⟩ := List.mem_map.1 hid
  have hsorted : r' ∈ s.ordered aging (·.eligible now) := List.mem_of_mem_take hr'
  rw [Store.ordered, List.mem_insertionSort, List.mem_filter] at hsorted
  rw [← h.eq_of_id hsorted.1 hr he]
  exact hsorted.2

section Submission

variable {P : TaskRow → Prop} {sha256 : List UInt8 → String} {sub : TaskSubmission} {now : Int} {s : Store}

/-- The dependency handling of the last row blocks it, or leaves it alone if there is nothing to wait for. -/
private theorem attachDependencies_rows {taskId : Int} {rows : List TaskRow} {row : TaskRow} {s s' : Store}
    {result : Except StoreError Unit} (ht : s.tasks = rows ++ [row]) (hold : ∀ r ∈ rows, r.id ≠ taskId)
    (hid : row.id = taskId)
    (h : attachDependencies taskId sub.dependencies sub.onDependencyFailure s = (result, s')) :
    s'.pausedGroups = s.pausedGroups ∧
      ((s'.tasks = rows ++ [row] ∧
        (result = .ok () → s.activeDeps sub.onDependencyFailure sub.dependencies = .ok [])) ∨
        (result = .ok () ∧ s'.tasks = rows ++ [{ row with status := .blocked }])) := by
  have hblock : ∀ t : Store, t.tasks = rows ++ [row] →
      (t.block taskId).tasks = rows ++ [{ row with status := .blocked }] := by
    intro t htt
    rw [Store.block, Store.updateTasks_tasks, htt, List.map_append, List.map_cons, List.map_nil,
      if_pos (by simp [hid])]
    refine congrArg (· ++ _) ?_
    conv_rhs => rw [← List.map_id rows]
    refine List.map_congr_left fun r hr => ?_
    simp [hold r hr]
  rw [attachDependencies_apply] at h
  split at h
  · cases h
    exact ⟨rfl, .inl ⟨ht, nofun⟩⟩
  · rename_i active hactive
    split at h
    · rename_i hempty
      cases h
      exact ⟨rfl, .inl ⟨ht, fun _ => by rw [hactive, hempty]⟩⟩
    · split at h
      · split at h
        · cases h
          exact ⟨rfl, .inl ⟨ht, nofun⟩⟩
        · cases h
          exact ⟨rfl, .inr ⟨rfl, hblock _ ht⟩⟩
      · cases h
        exact ⟨rfl, .inl ⟨ht, nofun⟩⟩

/-- The new row of a submission: pending after an error or in a group that is not paused, paused or blocked. -/
private theorem finishInsert_rows (hs : s.Rows P) (row : TaskRow) (hst : row.status = .pending)
    (hpending : (s.addTask row).activeDeps sub.onDependencyFailure sub.dependencies = .ok [] →
      s.groupPaused sub.groupKey = false → P { row with id := s.nextTaskId, inst := s.nextInst })
    (hpaused : (s.addTask row).activeDeps sub.onDependencyFailure sub.dependencies = .ok [] →
      s.groupPaused sub.groupKey = true → P ({ row with id := s.nextTaskId, inst := s.nextInst }.pauseFor .group now))
    (hblocked : P { row with id := s.nextTaskId, inst := s.nextInst, status := .blocked })
    (hlate : (finishInsert sub s.nextTaskId now (s.addTask row)).1.toBool = false →
      P { row with id := s.nextTaskId, inst := s.nextInst }) :
    (finishInsert sub s.nextTaskId now (s.addTask row)).2.Rows P := by
  have hold : ∀ r ∈ s.tasks, r.id ≠ s.nextTaskId := fun r hr => Store.id_ne_nextTaskId hr
  obtain ⟨tags, hierarchy, hasTags, ⟨_, h⟩ | ⟨_, ⟨e, s₂, hatt, h⟩ | ⟨s₂, hatt, h⟩⟩⟩ :=
    finishInsert_cases sub s.nextTaskId now (s.addTask row)
  · rw [h] at hlate ⊢
    exact (hs.add (hlate rfl)).congr rfl
  · rw [h] at hlate ⊢
    obtain ⟨_, ⟨ht, _⟩ | ⟨herr, _⟩⟩ := attachDependencies_rows rfl hold rfl hatt
    · exact (hs.add (hlate rfl)).congr ht
    · cases herr
  · rw [h]
    obtain ⟨hgroups, ht⟩ := attachDependencies_rows rfl hold rfl hatt
    have hgroup : s₂.groupPaused sub.groupKey = s.groupPaused sub.groupKey := by
      unfold Store.groupPaused
      rw [hgroups]
      rfl
    have hactive : ((s.addTask row).tagged tags hierarchy hasTags).activeDeps sub.onDependencyFailure
      sub.dependencies =
        (s.addTask row).activeDeps sub.onDependencyFailure sub.dependencies := by
      apply activeDeps_congr
      · rfl
      · rfl
    rw [hactive] at ht
    show (s₂.pauseNew s.nextTaskId sub.groupKey now).Rows P
    rw [Store.pauseNew, hgroup]
    intro r hr
    cases hg : s.groupPaused sub.groupKey with
    | false =>
      rw [hg, if_neg (by simp)] at hr
      rcases ht with ⟨ht, hdeps⟩ | ⟨_, ht⟩
      · rw [ht, List.mem_append, List.mem_singleton] at hr
        rcases hr with hr | rfl
        · exact hs r hr
        · exact hpending (hdeps rfl) hg
      · rw [ht, List.mem_append, List.mem_singleton] at hr
        rcases hr with hr | rfl
        · exact hs r hr
        · exact hblocked
    | true =>
      rw [hg, if_pos rfl, Store.updateTasks_tasks] at hr
      obtain ⟨r₀, hr₀, rfl⟩ := List.mem_map.1 hr
      rcases ht with ⟨ht, hdeps⟩ | ⟨_, ht⟩
      · rw [ht, List.mem_append, List.mem_singleton] at hr₀
        rcases hr₀ with hr₀ | rfl
        · rw [if_neg (by simp [hold r₀ hr₀])]
          exact hs r₀ hr₀
        · rw [if_pos (by simp [hst])]
          exact hpaused (hdeps rfl) hg
      · rw [ht, List.mem_append, List.mem_singleton] at hr₀
        rcases hr₀ with hr₀ | rfl
        · rw [if_neg (by simp [hold r₀ hr₀])]
          exact hs r₀ hr₀
        · rw [if_neg (by simp)]
          exact hblocked

private theorem skipExisting_rows {key : String} {priority : Priority} {skipRequeue : Bool} (hs : s.Rows P)
    (hup : ∀ r ∈ s.tasks, r.key = key → r.status = .pending ∨ r.status = .paused → priority < r.priority →
      P { r with priority := priority })
    (hre : ∀ r ∈ s.tasks, r.key = key → r.status = .running ∨ r.status = .paused →
      P { r with requeue := true, requeuePriority := some priority }) :
    (skipExisting key priority skipRequeue s).2.Rows P := by
  refine skipExisting_state (I := fun t : Store => t.Rows P) hs (hs.update fun r hr hp => ?_)
    (hs.update fun r hr hp => ?_)
  · simp only [Bool.and_eq_true, Bool.or_eq_true, beq_iff_eq, decide_eq_true_eq] at hp
    exact hup r hr hp.1.1 hp.1.2 hp.2
  · simp only [Bool.and_eq_true, beq_iff_eq] at hp
    exact hre r hr hp.1.1 (by simpa using hp.1.2)

private theorem supersedeReplace_rows {key : String} {row : TaskRow} (hs : s.Rows P) (hschema : s.Schema)
    (hrow : s.taskByKey key = some row)
    (hnew : P { sub.baseRow key now with id := (s.delete row.id).nextTaskId, inst := s.nextInst }) :
    (supersedeReplace sub key row.id now s).2.Rows P := by
  obtain ⟨tags, h⟩ := supersedeReplace_state sub now hschema hrow
  have hdel : (s.delete row.id).Rows P := hs.delete _
  rw [h]
  exact (hdel.add hnew).congr rfl

private theorem supersedeExisting_rows {key : String} (hs : s.Rows P) (hschema : s.Schema)
    (hplace : ∀ r ∈ s.tasks, r.key = key → r.status = .pending ∨ r.status = .paused ∨ r.status = .blocked →
      P (sub.supersedeRow s.nextInst now r))
    (hreplace : ∀ r ∈ s.tasks, r.key = key → r.status = .running ∨ r.status = .waiting →
      P { sub.baseRow key now with id := (s.delete r.id).nextTaskId, inst := s.nextInst }) :
    (supersedeExisting sub key now s).2.Rows P := by
  refine supersedeExisting_state (I := fun t : Store => t.Rows P) hs (fun _ _ entry tags => hs.congr rfl)
    (fun existing hrow hst entry tags => ?_) fun existing hrow hst entry tags => ?_
  · have hmem : existing ∈ s.tasks := List.mem_of_find?_eq_some hrow
    have hkey : existing.key = key := by simpa using List.find?_some hrow
    have hupd : (s.updateTasks (·.id == existing.id) (sub.supersedeRow s.nextInst now)).Rows P := by
      refine hs.update fun r hr hid => ?_
      obtain rfl := hschema.eq_of_id hr hmem (by simpa using hid)
      exact hplace r hmem hkey hst
    obtain ⟨tt, h⟩ := supersedeInPlace_state sub existing.id now (s.log entry tags)
    rw [h]
    exact hupd.congr rfl
  · have hmem : existing ∈ s.tasks := List.mem_of_find?_eq_some hrow
    have hkey : existing.key = key := by simpa using List.find?_some hrow
    refine supersedeReplace_rows (hs.congr rfl) ?_ hrow (hreplace existing hmem hkey hst)
    exact hschema.stmt (b := false) (.history s _ tags)

/-- A submission with a key of its own. -/
theorem submitOne_fresh_rows {skipRequeue : Bool} (hs : s.Rows P) (hk : s.taskByKey (sub.effectiveKey sha256) = none)
    (hpending : sub.Lands sha256 now s → s.groupPaused sub.groupKey = false →
      P { sub.newRow (sub.effectiveKey sha256) now with id := s.nextTaskId, inst := s.nextInst })
    (hpaused : sub.Lands sha256 now s → s.groupPaused sub.groupKey = true →
      P ({ sub.newRow (sub.effectiveKey sha256) now with id := s.nextTaskId, inst := s.nextInst }.pauseFor .group
        now))
    (hblocked :
      P { sub.newRow (sub.effectiveKey sha256) now with id := s.nextTaskId, inst := s.nextInst, status := .blocked })
    (hlate : (submitOne sha256 sub skipRequeue now s).1.toBool = false →
      P { sub.newRow (sub.effectiveKey sha256) now with id := s.nextTaskId, inst := s.nextInst }) :
    (submitOne sha256 sub skipRequeue now s).2.Rows P := by
  cases hv : sub.validate with
  | error e =>
    rw [submitOne_invalid hv]
    exact hs
  | ok u =>
    rw [submitOne_fresh hv hk] at hlate ⊢
    exact finishInsert_rows hs _ rfl (fun hdeps => hpending ⟨hk, hdeps⟩)
      (fun hdeps => hpaused ⟨hk, hdeps⟩) hblocked hlate

/-- A submission with the key of a task. -/
theorem submitOne_duplicate_rows {skipRequeue : Bool} (hs : s.Rows P) (hschema : s.Schema) {row : TaskRow}
    (hkey : s.taskByKey (sub.effectiveKey sha256) = some row)
    (hupgraded : ∀ r ∈ s.tasks, r.key = sub.effectiveKey sha256 → r.status = .pending ∨ r.status = .paused →
      sub.priority < r.priority → P { r with priority := sub.priority })
    (hrequeued : ∀ r ∈ s.tasks, r.key = sub.effectiveKey sha256 → r.status = .running ∨ r.status = .paused →
      P { r with requeue := true, requeuePriority := some sub.priority })
    (hsuperseded : sub.onDuplicate = .supersede → ∀ r ∈ s.tasks, r.key = sub.effectiveKey sha256 →
      r.status = .pending ∨ r.status = .paused ∨ r.status = .blocked → P (sub.supersedeRow s.nextInst now r))
    (hreplaced : sub.onDuplicate = .supersede → ∀ r ∈ s.tasks, r.key = sub.effectiveKey sha256 →
      r.status = .running ∨ r.status = .waiting →
      P { sub.baseRow (sub.effectiveKey sha256) now with id := (s.delete r.id).nextTaskId, inst := s.nextInst }) :
    (submitOne sha256 sub skipRequeue now s).2.Rows P := by
  cases hv : sub.validate with
  | error e =>
    rw [submitOne_invalid hv]
    exact hs
  | ok u =>
    rw [submitOne_duplicate hv hkey]
    cases hdup : sub.onDuplicate with
    | skip => exact skipExisting_rows hs hupgraded hrequeued
    | supersede => exact supersedeExisting_rows hs hschema (hsuperseded hdup) (hreplaced hdup)
    | reject => exact hs

theorem submitOne_rows {skipRequeue : Bool} (hs : s.Rows P) (hschema : s.Schema) (hk : sub.KeepsRows sha256 P now s)
    (hlate : (submitOne sha256 sub skipRequeue now s).1.toBool = false →
      P { sub.newRow (sub.effectiveKey sha256) now with id := s.nextTaskId, inst := s.nextInst }) :
    (submitOne sha256 sub skipRequeue now s).2.Rows P := by
  cases hkey : s.taskByKey (sub.effectiveKey sha256) with
  | none => exact submitOne_fresh_rows hs hkey hk.pending hk.paused hk.blocked hlate
  | some row => exact submitOne_duplicate_rows hs hschema hkey hk.upgraded hk.requeued hk.superseded hk.replaced

private theorem submitOne_within {skipRequeue : Bool} {s₀ : Store} (hs : s₀.Within P s)
    (hk : sub.KeepsRows sha256 P now s) (hlate : (submitOne sha256 sub skipRequeue now s).1.toBool = false →
      P { sub.newRow (sub.effectiveKey sha256) now with id := s.nextTaskId, inst := s.nextInst }) :
    s₀.Within P (submitOne sha256 sub skipRequeue now s).2 where
  rows := submitOne_rows hs.rows hs.schema hk hlate
  schema := hs.schema.steps (steps_submitOne s)
  groups := (steps_submitOne s).pausedGroups.trans hs.groups
  next := hs.next.trans (steps_submitOne s).nextInst_le

private theorem submitEach_rows {skipRequeue : Bool} {s₀ : Store} (batch : List (TaskSubmission × Int)) {s : Store}
    (hs : s₀.Within P s)
    (ha : Along (fun σ m => (submitOne sha256 m.1 skipRequeue m.2 σ).2)
      (fun σ m => s₀.Within P σ → m.1.KeepsRows sha256 P m.2 σ ∧
        ((submitOne sha256 m.1 skipRequeue m.2 σ).1.toBool = false →
          P { m.1.newRow (m.1.effectiveKey sha256) m.2 with id := σ.nextTaskId, inst := σ.nextInst })) s batch) :
    (submitEach sha256 skipRequeue batch s).2.Rows P := by
  induction batch generalizing s with
  | nil => exact hs.rows
  | cons m batch ih => exact ih (submitOne_within hs (ha.1 hs).1 (ha.1 hs).2) ha.2

private theorem submitChunk_rows {skipRequeue : Bool} {last : Nat → String → Bool} {s₀ : Store}
    (chunk : List (Nat × TaskSubmission)) {s s' : Store} {results : List SubmitOutcome} (hs : s₀.Within P s)
    (ha : Along (fun s item => (submitItem sha256 skipRequeue last now item s).2)
      (fun σ item => s₀.Within P σ → last item.1 (item.2.effectiveKey sha256) = true →
        item.2.KeepsRows sha256 P now σ)
      s chunk)
    (h : Txn.mapList (submitItem sha256 skipRequeue last now) chunk s = (.ok results, s')) : s'.Rows P := by
  induction chunk generalizing s results with
  | nil =>
    cases h
    exact hs.rows
  | cons item chunk ih =>
    obtain ⟨result, s₁, h₁, h⟩ := Txn.bind_ok h
    obtain ⟨rest, s₂, h₂, h⟩ := Txn.bind_ok h
    cases h
    have hnext := ha.2
    dsimp only at hnext
    rw [h₁] at hnext
    refine ih ?_ hnext h₂
    rw [submitItem] at h₁
    split at h₁
    · rename_i hlast
      have hone : s₀.Within P (submitOne sha256 item.2 skipRequeue now s).2 :=
        submitOne_within hs (ha.1 hs hlast) (by rw [h₁]; rintro ⟨⟩)
      rwa [h₁] at hone
    · cases h₁
      exact hs

end Submission

section Completion

variable {P : TaskRow → Prop} {now : Int}

theorem Store.Within.freeRow {s₀ s : Store} (h : s₀.Within P s) (r : TaskRow) :
    s.freeRow now r = s₀.freeRow now r := by
  rw [Store.freeRow, Store.freeRow, h.groupPaused]

private theorem resetRequeued_rows {s : Store} (hs : s.Rows P) {id : Int}
    (hreset : ∀ r ∈ s.tasks, r.id = id → P (r.resetRequeued s.nextInst)) : (s.resetRequeued id).Rows P := by
  have hupd : (s.updateTasks (·.id == id) (TaskRow.resetRequeued s.nextInst)).Rows P :=
    hs.update fun r hr hid => hreset r hr (by simpa using hid)
  exact hupd.congr rfl

private theorem completeRow_rows {s : Store} {task : TaskRecord} {metrics : IoBudget} {skipTags : Bool}
    (hs : s.Rows P) (hreset : ∀ r, P r → r.id = task.id → r.requeue = true → P (r.resetRequeued s.nextInst)) :
    (s.completeRow skipTags now (task, metrics)).Rows P := by
  have hlog : (s.logCompleted skipTags now (task, metrics)).Rows P := hs.congr rfl
  rw [Store.completeRow, Store.finishRow]
  split
  · split
    · exact hlog.delete _
    · exact (hlog.delete fun r => r.id == task.id && !r.requeue).congr rfl
  · rename_i hnone
    refine resetRequeued_rows hlog fun r hr hid => hreset r (hlog r hr) hid ?_
    by_contra hreq
    refine hnone (List.any_eq_true.2 ⟨r, hr, ?_⟩)
    simpa [hid] using hreq

private theorem completeRow_groups (s : Store) (item : TaskRecord × IoBudget) (skipTags : Bool) (now : Int) :
    (s.completeRow skipTags now item).pausedGroups = s.pausedGroups := by
  rw [Store.completeRow, Store.finishRow]
  split
  · split
    · rfl
    · rfl
  · rfl

private theorem completeRow_nextInst (s : Store) (item : TaskRecord × IoBudget) (skipTags : Bool) (now : Int) :
    s.nextInst ≤ (s.completeRow skipTags now item).nextInst := by
  rw [Store.completeRow, Store.finishRow]
  split
  · split
    · exact Nat.le_refl _
    · exact Nat.le_refl _
  · show s.nextInst ≤ if _ then s.nextInst + 1 else s.nextInst
    split
    · exact Nat.le_succ _
    · exact Nat.le_refl _

private theorem completeInner_keeps {s₀ : Store} {tasks : List TaskRecord} {task : TaskRecord} {metrics : IoBudget}
    {skipTags : Bool} (hk : CompletionKeepsRows P tasks now s₀) (htask : task ∈ tasks) :
    Txn.Ensures (s₀.Within P) (completeInner task metrics skipTags now) fun _ => s₀.Within P := by
  intro s hs result s' h
  have hsteps : Steps false s (completeInner task metrics skipTags now s).2 := steps_completeInner s
  rw [h] at hsteps
  have hschema : s'.Schema := hs.schema.steps hsteps
  have hnextInst : s₀.nextInst ≤ s'.nextInst := hs.next.trans hsteps.nextInst_le
  have hreset : ∀ r, P r → r.id = task.id → r.requeue = true → P (r.resetRequeued s.nextInst) := by
    intro r hr hid hreq
    exact hk.reset r hr (List.mem_map.2 ⟨task, htask, hid.symm⟩) hreq _ hs.next
  have hrow : (s.completeRow skipTags now (task, metrics)).Rows P := completeRow_rows hs.rows hreset
  have hgroups : (s.completeRow skipTags now (task, metrics)).pausedGroups = s₀.pausedGroups :=
    (completeRow_groups s _ _ _).trans hs.groups
  rcases completeInner_cases h with rfl | ⟨interval, hrec, _, rfl⟩
  · exact ⟨hrow, hschema, hgroups, hnextInst⟩
  · have hle : s₀.nextInst ≤ (s.completeRow skipTags now (task, metrics)).nextInst :=
      hs.next.trans (completeRow_nextInst s _ _ _)
    generalize s.completeRow skipTags now (task, metrics) = s₁ at hrow hgroups hschema hnextInst hle ⊢
    have hnext := hk.next task htask interval hrec s₁.nextTaskId s₁.nextInst hle
    have hpaused : (s₁.addInstance task (s.tagsOf task.id) interval now).groupPaused task.groupKey =
        s₀.groupPaused task.groupKey := by
      unfold Store.groupPaused
      rw [← hgroups]
      rfl
    rw [Store.pauseInstance, hpaused] at hschema hnextInst ⊢
    cases hg : s₀.groupPaused task.groupKey with
    | false =>
      rw [hg] at hnext hschema hnextInst
      refine ⟨?_, hschema, hgroups, hnextInst⟩
      exact (hrow.add hnext).congr rfl
    | true =>
      rw [hg] at hnext hschema hnextInst
      refine ⟨?_, hschema, hgroups, hnextInst⟩
      rw [if_pos rfl]
      intro r hr
      obtain ⟨r₀, hr₀, rfl⟩ := List.mem_map.1 hr
      rcases List.mem_append.1 hr₀ with hr₀ | hr₀
      · rw [if_neg (by simpa using Store.id_ne_nextTaskId hr₀)]
        exact hrow r₀ hr₀
      · rw [List.mem_singleton] at hr₀
        subst hr₀
        rw [if_pos (by simp)]
        exact hnext

private theorem release_keeps {s₀ s : Store} {ids : List Int} (hf : FreeingKeepsRows P now s₀) (hs : s₀.Within P s)
    (hschema : (s.release ids now).Schema) : s₀.Within P (s.release ids now) := by
  refine ⟨?_, hschema, hs.groups, hs.next⟩
  intro r hr
  obtain ⟨r₀, hr₀, rfl⟩ := List.mem_map.1 hr
  split
  · rename_i hfree
    rw [hs.freeRow]
    exact hf r₀ (hs.rows r₀ hr₀) (Store.frees_iff.1 hfree).1
  · exact hs.rows r₀ hr₀

private theorem resolveDependentsInner_keeps {s₀ : Store} {id : Int} (hf : FreeingKeepsRows P now s₀) :
    Txn.Ensures (s₀.Within P) (resolveDependentsInner id now) fun _ => s₀.Within P := by
  intro s hs unblocked s' h
  have hsteps : Steps false s (resolveDependentsInner id now s).2 := steps_resolveDependentsInner s
  rw [h] at hsteps
  rw [resolveDependentsInner_apply hs.schema.ids] at h
  cases h
  exact release_keeps hf hs (hs.schema.steps hsteps)

private theorem completeAndResolve_keeps {s₀ : Store} {tasks : List TaskRecord} {item : TaskRecord × IoBudget}
    {skipTags : Bool} (hk : CompletionKeepsRows P tasks now s₀) (hf : FreeingKeepsRows P now s₀)
    (htask : item.1 ∈ tasks) :
    Txn.Ensures (s₀.Within P) (completeAndResolve skipTags now item) fun _ => s₀.Within P :=
  (completeInner_keeps hk htask).bind fun _ => (resolveDependentsInner_keeps hf).bind fun _ => .pure fun _ h => h

/-- A row that was reset twice is like one that was reset once. -/
private theorem resetRequeued_twice (r : TaskRow) (i j : Nat) :
    (r.resetRequeued i).resetRequeued j = r.resetRequeued j :=
  rfl

/-- The resets of a batch: its rows are still flagged or have been reset already. -/
private theorem foldl_resetRequeued_keeps {s₀ : Store} {ids todo : List Int} (htodo : ∀ id ∈ todo, id ∈ ids)
    (hreset : ∀ r, P r → r.id ∈ ids → r.requeue = true → ∀ inst, s₀.nextInst ≤ inst → P (r.resetRequeued inst))
    {s : Store} (hs : s₀.Within P s)
    (hflag : ∀ r ∈ s.tasks, r.id ∈ ids → r.requeue = true ∨ ∀ inst, s₀.nextInst ≤ inst → P (r.resetRequeued inst)) :
    s₀.Within P (todo.foldl Store.resetRequeued s) := by
  induction todo generalizing s with
  | nil => exact hs
  | cons id todo ih =>
    have hid := htodo id (List.mem_cons_self ..)
    have hrows : (s.resetRequeued id).Rows P := by
      refine resetRequeued_rows hs.rows fun r hr hrid => ?_
      rcases hflag r hr (hrid ▸ hid) with hreq | hdone
      · exact hreset r (hs.rows r hr) (hrid ▸ hid) hreq _ hs.next
      · exact hdone _ hs.next
    have hsteps : Steps false s (s.resetRequeued id) := steps_resetRequeued s id
    refine ih (fun x hx => htodo x (List.mem_cons_of_mem _ hx))
      ⟨hrows, hs.schema.steps hsteps, hs.groups, hs.next.trans hsteps.nextInst_le⟩ fun r hr hrid => ?_
    obtain ⟨r₀, hr₀, rfl⟩ := List.mem_map.1 hr
    split at hrid
    · rename_i hsel
      rw [if_pos hsel]
      refine .inr fun inst hinst => ?_
      rw [resetRequeued_twice]
      rcases hflag r₀ hr₀ hrid with hreq | hdone
      · exact hreset r₀ (hs.rows r₀ hr₀) hrid hreq inst hinst
      · exact hdone inst hinst
    · rename_i hsel
      rw [if_neg hsel]
      exact hflag r₀ hr₀ hrid

private theorem completeBatchFast_keeps {s₀ : Store} {items : List (TaskRecord × IoBudget)} {skipTags : Bool}
    (hk : CompletionKeepsRows P (items.map (·.1)) now s₀) (hf : FreeingKeepsRows P now s₀) :
    Txn.Ensures (s₀.Within P) (completeBatchFast skipTags now items) fun _ => s₀.Within P := by
  intro s hs unblocked s' h
  have hsteps : Steps false s (completeBatchFast skipTags now items s).2 := steps_completeBatchFast s
  rw [h] at hsteps
  obtain ⟨_, s₁, h₁, h⟩ := Txn.bind_ok h
  obtain ⟨rows, htags, rfl⟩ := mapList_history (fun _ _ _ _ => insertHistory_leaves) h₁
  have hs₁ : s₀.Within P (s.logAll rows htags) :=
    ⟨hs.rows.congr rfl, hs.schema.stmt (b := false) (.history s _ _), hs.groups, hs.next⟩
  generalize s.logAll rows htags = s₁ at hs₁ h
  obtain ⟨deleted, s₂, h₂, h⟩ := Txn.bind_ok h
  obtain ⟨-, rfl⟩ := Prod.mk.inj h₂
  obtain ⟨_, s₃, h₃, h⟩ := Txn.bind_ok h
  -- the rows that are left over are flagged
  have hs₂ : s₀.Within P (s₁.deleteTasks fun r => (items.map (·.1.id)).contains r.id && !r.requeue) :=
    ⟨hs₁.rows.delete _, hs₁.schema.stmt (b := false) (.delete s₁ _), hs₁.groups, hs₁.next⟩
  have hreset : ∀ r, P r → r.id ∈ items.map (·.1.id) → r.requeue = true → ∀ inst, s₀.nextInst ≤ inst →
      P (r.resetRequeued inst) := by
    intro r hr hid
    exact hk.reset r hr (by simpa [Function.comp_def] using hid)
  have hs₃ : s₀.Within P s₃ := by
    cases h₃
    refine foldl_resetRequeued_keeps (fun id hid => (List.mem_filter.1 hid).1) hreset hs₂ fun r hr hid => .inl ?_
    obtain ⟨_, hkept⟩ := List.mem_filter.1 hr
    dsimp only at hkept
    rw [List.contains_iff_mem.2 hid] at hkept
    simpa using hkept
  obtain ⟨_, s₄, h₄, h⟩ := Txn.bind_ok h
  have hs₄ : s₀.Within P s₄ := by
    cases h₄
    split
    · exact hs₃
    · exact ⟨hs₃.rows.congr rfl, hs₃.schema.stmt (b := false) (.tags s₃ _), hs₃.groups, hs₃.next⟩
  obtain ⟨dependents, s₅, h₅, h⟩ := Txn.bind_ok h
  obtain ⟨hd, rfl⟩ := Prod.mk.inj h₅
  obtain rfl := Except.ok.inj hd
  have htail := (releaseTail_apply hs₄.schema.ids (items.map (·.1.id)) now).symm.trans h
  cases htail
  exact release_keeps hf hs₄ (hs.schema.steps hsteps)

end Completion

section Failure

variable {P : TaskRow → Prop} {now : Int}

private theorem failInner_rows {task : TaskRecord} {error : String} {retryable : Bool} {maxRetries : Int}
    {metrics : IoBudget} {backoff : FailBackoff} {s s' : Store} {u : Unit}
    (hk : task.willRetry retryable maxRetries = true → ∀ r ∈ s.tasks, r.id = task.id →
      P (r.retry error (backoff.delay task.retryCount) now)) (hs : s.Rows P)
    (h : failInner task error retryable maxRetries metrics backoff now s = (.ok u, s')) : s'.Rows P := by
  rw [failInner] at h
  split at h
  · rename_i hretry
    cases h
    exact hs.update fun r hr hid => hk hretry r hr (by simpa using hid)
  · obtain ⟨_, s₁, h₁, h⟩ := Txn.bind_ok h
    obtain ⟨tags, rfl⟩ := insertHistory_leaves h₁
    cases h
    exact (hs.delete (·.id == task.id)).congr rfl

private theorem dependencyFail_keeps {s₀ s s' : Store} {failedTaskId : Int} {task : TaskRow} {u : Unit}
    (hs : s₀.Within P s) (h : dependencyFail failedTaskId task now s = (.ok u, s')) : s₀.Within P s' := by
  obtain ⟨_, s₁, h₁, h⟩ := Txn.bind_ok h
  obtain ⟨tags, rfl⟩ := insertHistory_leaves h₁
  cases h
  have hlog := hs.schema.stmt (b := false) (.history s (s.taskHistory ++ [historyRow s.nextHistoryId
    (rowToTaskRecord task) .dependencyFailed {} none (some s!"dependency task {failedTaskId} failed") now]) tags)
  have hedges := hlog.stmt (b := false) (.deleteEdges _ fun e => !(e.1 == task.id))
  have htags := hedges.stmt (b := false) (.tags _ (s.taskTags.filter fun t => !(t.1 == task.id)))
  exact ⟨(hs.rows.delete (·.id == task.id)).congr rfl,
    htags.stmt (b := false) (.delete _ (·.id == task.id)), hs.groups, hs.next⟩

private theorem releaseDependent_keeps {s₀ s s' : Store} {depId : Int} {unblocked : List Int}
    (hf : FreeingKeepsRows P now s₀) (hs : s₀.Within P s) (h : releaseDependent depId now s = (.ok unblocked, s')) :
    s₀.Within P s' := by
  have hsteps : Steps false s (releaseDependent depId now s).2 := steps_releaseDependent s
  rw [h] at hsteps
  have hschema := hs.schema.steps hsteps
  rw [releaseDependent] at h
  split at h
  · cases h
    exact hs
  · split at h
    · cases h
      refine ⟨?_, hschema, hs.groups, hs.next⟩
      intro r hr
      obtain ⟨r₁, hr₁, rfl⟩ := List.mem_map.1 hr
      obtain ⟨r₀, hr₀, rfl⟩ := List.mem_map.1 hr₁
      have hgroup : ∀ g, (s.updateTasks (fun r => r.id == depId && r.status == .blocked) fun r =>
          { r with status := .pending }).groupPaused g = s₀.groupPaused g := fun g => hs.groupPaused g
      by_cases hsel : (r₀.id == depId && r₀.status == .blocked) = true
      · have hfree := hf r₀ (hs.rows r₀ hr₀) (by
          rw [Bool.and_eq_true, beq_iff_eq, beq_iff_eq] at hsel
          exact hsel.2)
        have hid : r₀.id = depId := by
          rw [Bool.and_eq_true, beq_iff_eq] at hsel
          exact hsel.1
        rw [if_pos hsel]
        rw [Store.freeRow] at hfree
        split
        · rename_i hp
          rw [Bool.and_eq_true] at hp
          rw [if_pos ((hgroup _).symm.trans hp.2)] at hfree
          exact hfree
        · rename_i hp
          rw [if_neg] at hfree
          · exact hfree
          · intro hg
            apply hp
            rw [Bool.and_eq_true]
            exact ⟨by simp [hid], (hgroup _).trans hg⟩
      · rw [if_neg hsel]
        -- another row with this id would be the blocked one
        rename_i hex
        obtain ⟨b, hb, hbsel⟩ := List.any_eq_true.1 hex
        rw [if_neg]
        · exact hs.rows r₀ hr₀
        · intro hp
          simp only [Bool.and_eq_true, List.contains_iff_mem, List.mem_singleton, beq_iff_eq] at hp hbsel
          have heq := hs.schema.eq_of_id hr₀ hb (hp.1.1.trans hbsel.1.symm)
          rw [heq, hbsel.2] at hp
          cases hp.1.2
    · cases h
      exact hs

private theorem failDependentsInner_keeps {s₀ : Store} (hf : FreeingKeepsRows P now s₀) (fuel : Nat) (id : Int) :
    Txn.Ensures (s₀.Within P) (failDependentsInner now fuel id) fun _ => s₀.Within P := by
  induction fuel generalizing id with
  | zero => exact Txn.Ensures.pure fun s hs => hs
  | succ fuel ih =>
    refine Txn.Ensures.bind (Q := fun _ => s₀.Within P) ?_ fun dependents => ?_
    · intro s hs dependents s' h
      cases h
      exact ⟨hs.rows.congr rfl, hs.schema.stmt (b := false) (.deleteEdges s _), hs.groups, hs.next⟩
    refine Txn.Ensures.bind (Txn.Ensures.mapList fun depId _ => ?_) fun results => Txn.Ensures.pure fun s hs => hs
    -- one round: nothing, a release, or a removal and a nested call
    intro s hs result s' h
    obtain ⟨row, s₁, h₁, h⟩ := Txn.bind_ok h
    obtain ⟨hrow, rfl⟩ : s.taskById depId = row ∧ s = s₁ := by
      cases h₁
      exact ⟨rfl, rfl⟩
    cases row with
    | none =>
      cases h
      exact hs
    | some task =>
      cases hpolicy : task.onDepFailure with
      | ignore =>
        simp only [hpolicy] at h
        obtain ⟨unblocked, s₂, h₂, h⟩ := Txn.bind_ok h
        cases h
        exact releaseDependent_keeps hf hs h₂
      | cancel =>
        simp only [hpolicy] at h
        obtain ⟨⟨⟩, s₂, h₂, h⟩ := Txn.bind_ok h
        obtain ⟨sub, s₃, h₃, h⟩ := Txn.bind_ok h
        cases h
        exact ih depId s₂ (dependencyFail_keeps hs h₂) sub _ h₃
      | fail =>
        simp only [hpolicy] at h
        obtain ⟨⟨⟩, s₂, h₂, h⟩ := Txn.bind_ok h
        obtain ⟨sub, s₃, h₃, h⟩ := Txn.bind_ok h
        cases h
        exact ih depId s₂ (dependencyFail_keeps hs h₂) sub _ h₃

end Failure

section Removal

variable {P : TaskRow → Prop} {now : Int} {s s' : Store}

private theorem cancelInner_rows {task : TaskRecord} {u : Unit} (hs : s.Rows P)
    (h : cancelInner task now s = (.ok u, s')) : s'.Rows P := by
  obtain ⟨_, s₁, h₁, h⟩ := Txn.bind_ok h
  obtain ⟨tags, rfl⟩ := insertHistory_leaves h₁
  cases h
  exact (hs.delete (·.id == task.id)).congr rfl

private theorem expireRow_rows (row : TaskRow) :
    Txn.Ensures (fun s : Store => s.Rows P) (expireRow row now) fun _ s => s.Rows P := by
  intro s hs task s' h
  rw [expireRow, Txn.get_bind_apply] at h
  obtain ⟨_, s₁, h₁, h⟩ := Txn.bind_ok h
  obtain ⟨tags, rfl⟩ := insertHistory_leaves h₁
  cases h
  exact (hs.delete (·.id == row.id)).congr rfl

private theorem expireWithChildren_rows (row : TaskRow) :
    Txn.Ensures (fun s : Store => s.Rows P) (expireWithChildren now row) fun _ s => s.Rows P := by
  intro s hs task s' h
  rw [expireWithChildren, Txn.get_bind_apply] at h
  obtain ⟨_, s₁, h₁, h⟩ := Txn.bind_ok h
  obtain ⟨tags, rfl⟩ := insertHistory_leaves h₁
  obtain ⟨children, s₂, h₂, h⟩ := Txn.bind_ok h
  have hlog : s₂.Rows P := by
    cases h₂
    exact hs.congr rfl
  obtain ⟨expired, s₃, h₃, h⟩ := Txn.bind_ok h
  cases h
  have hchildren : s₃.Rows P := (Txn.Ensures.mapList fun child _ => expireRow_rows child) s₂ hlog _ _ h₃
  exact (hchildren.delete (·.id == row.id)).congr rfl

end Removal

section Recovery

variable {P : TaskRow → Prop} {now : Int} {s : Store}

private theorem recoverRunning_rows (hs : s.Rows P) (hk : RecoveryKeepsRows P now s) :
    (s.recoverRunning now).Rows P := by
  have hids : (s.resetRunning.settlePauses now).ids = s.ids :=
    (Store.ids_updateTasks _ _ (by intro r; rfl)).trans (Store.ids_updateTasks _ _ (by intro r; rfl))
  -- a row after the first two statements is a row before them, reset or settled
  have hsettled : ∀ r ∈ (s.resetRunning.settlePauses now).tasks, P r ∧
      (r.status = .blocked → r ∈ s.tasks) := by
    intro r hr
    obtain ⟨r₁, hr₁, rfl⟩ := List.mem_map.1 hr
    obtain ⟨r₀, hr₀, rfl⟩ := List.mem_map.1 hr₁
    by_cases hrun : r₀.status = .running
    · have hreset := hk.reset r₀ hr₀ hrun
      simp only [hrun, beq_self_eq_true, if_true]
      exact ⟨hreset, nofun⟩
    · have hsame : (if (r₀.status == .running) =
          true then { r₀ with status := .pending, startedAt := none } else r₀) = r₀ :=
        if_neg (by simpa using hrun)
      rw [hsame]
      by_cases hp : (r₀.status == .paused && r₀.pausedAtMs.isSome) = true
      · rw [if_pos hp]
        rw [Bool.and_eq_true, beq_iff_eq] at hp
        refine ⟨hk.settled r₀ hr₀ hp.1 hp.2, fun hb => ?_⟩
        rw [show r₀.status = .blocked from hb] at hp
        cases hp.1
      · rw [if_neg hp]
        exact ⟨hs r₀ hr₀, fun _ => hr₀⟩
  have hrows : (s.resetRunning.settlePauses now).deleteDanglingEdges.Rows P := fun r hr => (hsettled r hr).1
  rw [Store.recoverRunning]
  split
  · exact hrows
  · rename_i hlen
    refine hrows.update fun r hr hp => ?_
    rw [Bool.and_eq_true, beq_iff_eq] at hp
    have hmem : r ∈ s.tasks := (hsettled r hr).2 hp.1
    have hdeps : (s.resetRunning.settlePauses now).taskDeps = s.taskDeps := rfl
    refine hk.unblocked r hmem hp.1 (fun e he hid hin => ?_) ?_
    · have hnone := hp.2
      rw [Bool.not_eq_true', List.any_eq_false] at hnone
      refine hnone e (List.mem_filter.2 ⟨he, ?_⟩) (by simpa using hid)
      rw [hids]
      exact List.contains_iff_mem.2 hin
    · by_contra hnone
      apply hlen
      rw [beq_iff_eq]
      show (List.filter _ _).length = _
      rw [List.filter_eq_self.2]
      intro e he
      rw [hids]
      by_contra hout
      exact hnone ⟨e, he, fun hin => hout (List.contains_iff_mem.2 hin)⟩

end Recovery

/-- A property that survives what the step may do to single rows survives the step. -/
theorem Action.rows_exec (sha256 : List UInt8 → String) {P : TaskRow → Prop} {s : Store} (hschema : s.Schema)
    (hs : s.Rows P) (a : Action) (hk : a.KeepsRows sha256 P s) : (a.exec sha256 s).Rows P := by
  have hw : s.Within P s := ⟨hs, hschema, rfl, Nat.le_refl _⟩
  -- a transaction whose body keeps the property
  have htx : ∀ {α : Type} {x : Sql α}, (∀ a s', x s = (.ok a, s') → s'.Rows P) → (transaction x s).2.Rows P := by
    intro α x hx
    rcases h : transaction x s with ⟨e | a, s'⟩
    · obtain ⟨s₁, _, rfl⟩ := transaction_error h
      exact hs.congr rfl
    · exact hx a s' (transaction_ok h)
  cases a with
  | update u =>
    rw [Action.exec, u.exec_update]
    exact hs.update hk
  | submitDirect sub now =>
    refine htx fun outcome s' h => ?_
    have hone : (submitOne sha256 sub (!s.hasRunning) now s).2.Rows P :=
      submitOne_rows hs hschema hk (by rw [h]; rintro ⟨⟩)
    rwa [h] at hone
  | processSubmitBatch skipRequeue batch => exact submitEach_rows batch hw hk
  | submitChunk skipRequeue last now chunk => exact htx fun results s' h => submitChunk_rows chunk hw hk h
  | claimTask id now =>
    have hclaim : (s.updateTasks (fun r => r.id == id && r.status == .pending) (TaskRow.claim now)).Rows P := by
      refine hs.update fun r hr hp => ?_
      rw [Bool.and_eq_true, beq_iff_eq, beq_iff_eq] at hp
      exact hk r hr hp.1 hp.2
    exact hclaim.congr rfl
  | popById id now =>
    refine hs.update fun r hr hp => ?_
    rw [Bool.and_eq_true, beq_iff_eq, beq_iff_eq] at hp
    exact hk r hr hp.1 hp.2
  | popNextBatch limit aging now =>
    have hclaim : (s.updateTasks (fun r => (s.nextIds limit aging now).contains r.id) (TaskRow.claim now)).Rows P :=
      hs.update fun r hr hp => hk r hr (hschema.eligible_of_nextIds hr (List.contains_iff_mem.1 hp))
    rw [Action.exec, popNextBatch.eq_def]
    split
    · exact hs
    · exact hclaim.congr rfl
    · exact hclaim.congr rfl
  | complete id metrics now =>
    refine htx fun u s' h => ?_
    cases hrow : s.taskById id with
    | none =>
      simp only [hrow] at h
      cases h
      exact hs
    | some row =>
      simp only [hrow] at h
      obtain ⟨result, s₁, h₁, h⟩ := Txn.bind_ok h
      cases h
      exact (completeInner_keeps (hk row hrow) (List.mem_singleton_self _) s hw _ _ h₁).rows
  | completeWithRecord task metrics now =>
    exact htx fun result s' h => (completeInner_keeps hk (List.mem_singleton_self _) s hw _ _ h).rows
  | completeBatch items now =>
    obtain ⟨hk, hf⟩ := hk
    rw [Action.exec, completeBatchTx.eq_def]
    split
    · exact hs
    · rw [Txn.bind_pure_state]
      exact htx fun result s' h =>
        (completeAndResolve_keeps hk hf (List.mem_map.2 ⟨_, List.mem_singleton_self _, rfl⟩) s hw _ _ h).rows
    · split
      · refine htx fun results s' h => ?_
        have hloop : Txn.Ensures (s.Within P) (Txn.mapList (completeAndResolve (!s.hasTags) now) items)
            fun _ => s.Within P :=
          Txn.Ensures.mapList fun item hitem => completeAndResolve_keeps hk hf (List.mem_map_of_mem hitem)
        exact (hloop s hw _ _ h).rows
      · rw [Txn.bind_pure_state]
        exact htx fun unblocked s' h => (completeBatchFast_keeps hk hf s hw _ _ h).rows
  | resolveDependents id now => exact htx fun unblocked s' h => (resolveDependentsInner_keeps hk s hw _ _ h).rows
  | fail id error retryable maxRetries metrics backoff now =>
    refine htx fun u s' h => ?_
    cases hrow : s.taskById id with
    | none =>
      simp only [hrow] at h
      cases h
      exact hs
    | some row =>
      simp only [hrow] at h
      refine failInner_rows (fun hretry r hr hid => ?_) hs h
      have heq : r = row := hschema.eq_of_id hr (List.mem_of_find?_eq_some hrow) hid
      rw [heq]
      exact hk row hrow hretry
  | failWithRecord task error retryable maxRetries metrics backoff now =>
    exact htx fun u s' h => failInner_rows hk hs h
  | failBatch items now =>
    rw [Action.exec, failBatchTx.eq_def]
    split
    · exact hs
    · rename_i item
      refine htx fun u s' h => failInner_rows (fun hretry => ?_) hs h
      rw [willRetry_zero] at hretry
      cases hretry
    · refine htx fun u s' h => ?_
      obtain ⟨_, s₁, h₁, h⟩ := Txn.bind_ok h
      obtain ⟨rows, tags, rfl⟩ := mapList_history (fun _ _ _ _ => insertHistory_leaves) h₁
      obtain ⟨_, s₂, h₂, h⟩ := Txn.bind_ok h
      cases h₂
      cases h
      have hdel : ((s.logAll rows tags).deleteTasks fun r => (items.map (·.task.id)).contains r.id).Rows P :=
        Store.Rows.delete (hs.congr rfl) _
      split
      · exact hdel
      · exact hdel.congr rfl
  | failDependents id now => exact htx fun result s' h => (failDependentsInner_keeps hk _ id s hw _ _ h).rows
  | cancelToHistory id now =>
    refine htx fun found s' h => ?_
    cases hrow : s.taskById id with
    | none =>
      simp only [hrow] at h
      cases h
      exact hs
    | some row =>
      simp only [hrow] at h
      obtain ⟨_, s₁, h₁, h⟩ := Txn.bind_ok h
      cases h
      exact cancelInner_rows hs h₁
  | cancelToHistoryWithRecord task now => exact htx fun u s' h => cancelInner_rows hs h
  | cancelChildren parent read now =>
    rw [Action.exec, cancelChildrenTx]
    split
    · exact hs
    · refine htx fun u s' h => ?_
      obtain ⟨_, s₁, h₁, h⟩ := Txn.bind_ok h
      obtain ⟨rows, tags, rfl⟩ := mapList_history (fun _ _ _ _ => insertHistory_leaves) h₁
      cases h
      exact Store.Rows.delete (hs.congr rfl) _
  | expireTasks now =>
    refine htx fun expired s' h => ?_
    obtain ⟨rows, s₁, h₁, h⟩ := Txn.bind_ok h
    obtain rfl : s = s₁ := by
      cases h₁
      rfl
    obtain ⟨results, s₂, h₂, h⟩ := Txn.bind_ok h
    cases h
    exact (Txn.Ensures.mapList fun row _ => expireWithChildren_rows row) s hs _ _ h₂
  | expireSingle id now =>
    refine htx fun expired s' h => ?_
    split at h
    · cases h
      exact hs
    · obtain ⟨task, s₁, h₁, h⟩ := Txn.bind_ok h
      cases h
      exact expireRow_rows _ s hs _ _ h₁
  | pauseGroupState group resumeAt now =>
    rw [Action.exec, Store.pauseGroupState]
    split
    · exact hs
    · exact hs.congr rfl
  | resumeGroupState group => exact hs.congr rfl
  | delete id => exact hs.delete _
  | deleteHistory historyId => exact hs.congr rfl
  | pruneHistoryByAge days now => exact hs.congr rfl
  | pruneHistoryByCount keep => exact hs.congr rfl
  | maybePrune now =>
    refine hs.congr ?_
    rw [Action.exec, Store.maybePrune]
    split
    · rfl
    · dsimp only
      split
      · rfl
      · split
        · rfl
        · rfl
  | recoverRunning now => exact recoverRunning_rows hs hk

end Taskmill
