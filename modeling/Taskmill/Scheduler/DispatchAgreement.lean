import Taskmill.Batch
import Taskmill.DispatchQueries
import Taskmill.Expiry
import Taskmill.Scheduler.SlowDispatch

/-!
# The two dispatch loops

`dispatch_pending` (`src/scheduler/run_loop.rs`) switches at run time between two loops.  The fast one pops as many
tasks as there are free slots with one `UPDATE … RETURNING`; the slow one peeks at the head of the queue, expires it
or asks the gate, claims it with a second statement, and patches the record that it has read before the claim.

Both start the first eligible tasks of the queue, as many as there are slots (`Cycle.chosen`), if the gate admits
the tasks that the slow loop asks about.  They leave different stores behind, since only the slow loop removes
expired heads; `Cycle.Starts` is what they have in common.
-/

namespace Taskmill

open Transact

namespace Cycle

/-- The `for` loop over the tasks of a batch. -/
def spawnEach (c : Cycle) : List TaskRecord → Dispatching → Except StoreError Unit × Dispatching
  | [], σ => (.ok (), σ)
  | task :: tasks, σ =>
    match c.spawnDispatchedTask task σ with
    | (.ok _, σ) => c.spawnEach tasks σ
    | (.error e, σ) => (.error e, σ)

/-- The fast loop of `dispatch_pending`, for as many rounds as `fuel` allows. -/
def dispatchFast (c : Cycle) : Nat → Dispatching → Option (Except StoreError Unit × Dispatching)
  | 0, _ => none
  | fuel + 1, σ =>
    if c.maxConcurrency ≤ σ.active.length then some (.ok (), σ)
    else
      match popNextBatch (c.maxConcurrency - σ.active.length) c.aging c.now σ.store with
      | (.error e, s) => some (.error e, { σ with store := s })
      | (.ok tasks, s) =>
        if tasks.isEmpty then some (.ok (), { σ with store := s })
        else
          match c.spawnEach (tasks.map s.populateTags) { σ with store := s } with
          | (.ok _, σ) => c.dispatchFast fuel σ
          | (.error e, σ) => some (.error e, σ)

/-- The slots that are free. -/
def free (c : Cycle) (σ : Dispatching) : Nat := c.maxConcurrency - σ.active.length

/-- The first eligible rows of the queue, one for each free slot. -/
def chosen (c : Cycle) (σ : Dispatching) : List TaskRow :=
  (σ.store.ordered c.aging (·.eligible c.now)).take (c.free σ)

/-- The gate admits the unexpired rows of a queue, one after the other, until the slots are taken. -/
def AdmitsQueue (c : Cycle) : Nat → GateContext → List TaskRow → Prop
  | 0, _, _ => True
  | _ + 1, _, [] => True
  | free + 1, ctx, r :: queue =>
    if r.past c.now then c.AdmitsQueue (free + 1) ctx queue
    else
      (c.gate.admission ctx (rowToTaskRecord r)).1 = .admitted ∧
        c.AdmitsQueue free ((c.gate.admission ctx (rowToTaskRecord r)).2.start r) queue

/-- What an executor of the fast loop gets: the row as it is stored after the claim, with the tags that the store
loads. -/
def claimedRecord (c : Cycle) (s : Store) (r : TaskRow) : TaskRecord :=
  s.populateTags (rowToTaskRecord (r.claim c.now))

/-- What an executor of the slow loop gets: the row as it was before the claim, with its tags, and patched then. -/
def patchedRecord (c : Cycle) (s : Store) (r : TaskRow) : TaskRecord :=
  (s.populateTags (rowToTaskRecord r)).patched (c.readings r.id)

/-- From `σ` to `σ'` exactly the chosen rows have been claimed and started with their records, and no row but the
chosen and the expired ones has changed. -/
structure Starts (c : Cycle) (record : Store → TaskRow → TaskRecord) (σ σ' : Dispatching) : Prop where
  active : σ'.active.Perm (σ.active ++ (c.chosen σ).map (record σ'.store))
  claimed : ∀ r ∈ c.chosen σ, r.claim c.now ∈ σ'.store.tasks
  kept : ∀ r ∈ σ.store.tasks, r ∉ c.chosen σ → (r.due c.now = true → r.past c.now = false) → r ∈ σ'.store.tasks
  rows : ∀ r' ∈ σ'.store.tasks,
    (r' ∈ σ.store.tasks ∧ r' ∉ c.chosen σ) ∨ ∃ r ∈ c.chosen σ, r' = r.claim c.now

/-- What the loops take for granted: the invariants of the store, an executor for every task, and no pending row of
a task that runs. -/
structure Ready (c : Cycle) (σ : Dispatching) : Prop where
  schema : σ.store.Schema
  owned : σ.store.HistoryTagsOwned
  registered : ∀ r ∈ σ.store.tasks, c.registered r.taskType = true
  fresh : ∀ r ∈ σ.store.tasks, r.status = .pending → ∀ task ∈ σ.active, task.id ≠ r.id

end Cycle

/-- The records are the same but for `started_at` and `expires_at`. -/
def TaskRecord.SameButClock (task task' : TaskRecord) : Prop :=
  { task with startedAt := task'.startedAt, expiresAt := task'.expiresAt } = task'

/-! ### Records and rows -/

section Rows

variable {c : Cycle} {s s' : Store} {r : TaskRow} {ids : List Int}

theorem TaskRow.unexpired_eq {now : Int} : r.unexpired now = !r.past now := by
  unfold TaskRow.unexpired TaskRow.past
  cases r.expiresAt with
  | none => rfl
  | some e =>
    by_cases he : e ≤ now
    · simp [he]
    · simp [he, Int.not_le.1 he]

/-- The slow loop computes in memory what the claim writes, but for the clock. -/
theorem Cycle.patchedRecord_same (c : Cycle) (s : Store) (r : TaskRow) :
    (c.patchedRecord s r).SameButClock (c.claimedRecord s r) := by
  unfold Cycle.patchedRecord Cycle.claimedRecord Store.populateTags
  split
  · rfl
  · rfl

/-- The store loads the same tags for a row in `s'` as in `s`. -/
private structure Store.SameTags (c : Cycle) (s s' : Store) : Prop where
  flag : s'.hasTags = s.hasTags
  tags : ∀ r ∈ s.tasks, (r.due c.now = true → r.past c.now = false) → s'.tagsOf r.id = s.tagsOf r.id

private theorem Store.SameTags.record (h : s.SameTags c s') (hr : r ∈ s.tasks)
    (hlive : r.due c.now = true → r.past c.now = false) :
    c.patchedRecord s' r = c.patchedRecord s r := by
  have htags : s'.tagsOf (rowToTaskRecord r).id = s.tagsOf (rowToTaskRecord r).id := h.tags r hr hlive
  unfold Cycle.patchedRecord Store.populateTags
  rw [h.flag, htags]

theorem Store.claimIds_tasks (s : Store) (ids : List Int) (now : Int) :
    (s.claimIds ids now).tasks = s.tasks.map fun r => if ids.contains r.id then r.claim now else r := rfl

/-- `claim_task` on a row that is due. -/
theorem claimTask_claimIds {now : Int} (hschema : s.Schema) (hr : r ∈ s.tasks) (hdue : r.due now = true) :
    claimTask r.id now s = (.ok true, s.claimIds [r.id] now) := by
  obtain ⟨front, back, hsplit⟩ := hschema.split hr
  have hp : ∀ x : TaskRow, (x.id == r.id && x.status == .pending) = true → x.id = r.id := by
    intro x hx
    rw [Bool.and_eq_true, beq_iff_eq] at hx
    exact hx.1
  have hclaim : claimRows (fun x => x.id == r.id && x.status == .pending) now s =
      (.ok [r.claim now], s.updateTasks (fun x => x.id == r.id && x.status == .pending) (TaskRow.claim now)) := by
    rw [claimRows, hsplit.select (by simp [TaskRow.pending_of_due hdue]) hp]
    rfl
  have hsame : s.updateTasks (fun x => x.id == r.id && x.status == .pending) (TaskRow.claim now) =
      s.updateTasks (fun x => [r.id].contains x.id) (TaskRow.claim now) := by
    refine Store.updateTasks_congr fun x hx => ?_
    by_cases hid : x.id = r.id
    · obtain rfl := hschema.eq_of_id hx hr hid
      simp [TaskRow.pending_of_due hdue]
    · simp [hid]
  unfold claimTask
  rw [Txn.bind_of_ok hclaim, hsame]
  rfl

/-- A row that is claimed waits no longer. -/
theorem TaskRow.due_claim {now : Int} : (r.claim now).due now = false := rfl

theorem Store.HistoryTagsOwned.claimIds (h : s.HistoryTagsOwned) (ids : List Int) (now : Int) :
    (s.claimIds ids now).HistoryTagsOwned := h

end Rows

/-! ### The slow loop -/

section Slow

variable {c : Cycle} {σ σ' : Dispatching} {r : TaskRow} {queue : List TaskRow}

private theorem chosen_eq (hschema : σ.store.Schema) :
    c.chosen σ = ((c.queue σ.store).filter (·.unexpired c.now)).take (c.free σ) := by
  rw [Cycle.queue, Store.ordered_filter hschema]
  rfl

/-- The chosen rows wait and have not expired. -/
private theorem mem_chosen (hr : r ∈ c.chosen σ) : r ∈ σ.store.tasks ∧ r.due c.now = true ∧ r.past c.now = false := by
  obtain ⟨hmem, heligible⟩ := Store.mem_ordered.1 (List.mem_of_mem_take hr)
  exact ⟨hmem, eligible_iff.1 heligible⟩

/-- A state in which nothing is chosen. -/
private theorem starts_none {record : Store → TaskRow → TaskRecord} (h : c.chosen σ = []) : c.Starts record σ σ := by
  refine ⟨?_, ?_, fun r hr _ _ => hr, fun r hr => .inl ⟨hr, ?_⟩⟩
  · rw [h, List.map_nil, List.append_nil]
  · rw [h]
    exact fun r hr => absurd hr List.not_mem_nil
  · rw [h]
    exact List.not_mem_nil

/-- The expired head of the queue goes, and its tags with it. -/
private theorem expireSingle_head (h : c.Ready σ) (hr : r ∈ σ.store.tasks) (hdue : r.due c.now = true)
    (hpast : r.past c.now = true) :
    c.Ready { σ with store := (expireSingle r.id c.now σ.store).2 } ∧
      (expireSingle r.id c.now σ.store).2.tasks = σ.store.tasks.filter (fun x => !(x.id == r.id)) ∧
      σ.store.SameTags c (expireSingle r.id c.now σ.store).2 := by
  have htotal : Txn.Total Store.HistoryTagsOwned (expireSingle r.id c.now) fun _ => Store.HistoryTagsOwned := by
    refine .atomically fun s hs => ?_
    cases s.tasks.find? fun x => x.id == r.id && x.past c.now && x.pendingOrPaused with
    | none => exact ⟨none, s, rfl, hs⟩
    | some row => exact Txn.Total.bind (expireRow_owned row c.now) (fun _ => .pure fun s hs => hs) s hs
  obtain ⟨expired, s', hexpire, howned⟩ := htotal σ.store h.owned
  have hschema : s'.Schema := by
    have hsteps := h.schema.steps ((Action.expireSingle r.id c.now).steps (fun _ => "") σ.store)
    rwa [Action.exec, hexpire] at hsteps
  have hfind : σ.store.tasks.find? (fun x => x.id == r.id && x.past c.now && x.pendingOrPaused) = some r := by
    cases hf : σ.store.tasks.find? fun x => x.id == r.id && x.past c.now && x.pendingOrPaused with
    | none =>
      have hnot := List.find?_eq_none.1 hf r hr
      simp [hpast, TaskRow.pendingOrPaused, TaskRow.pending_of_due hdue] at hnot
    | some row =>
      have hsel := List.find?_some hf
      simp only [Bool.and_eq_true, beq_iff_eq] at hsel
      rw [h.schema.eq_of_id (List.mem_of_find?_eq_some hf) hr hsel.1.1]
  have hbody := transaction_ok hexpire
  simp only [hfind] at hbody
  obtain ⟨task, s₁, hrow, hbody⟩ := Txn.bind_ok hbody
  cases hbody
  obtain ⟨s₀, _, h₀, hrow⟩ := Txn.bind_ok hrow
  cases h₀
  obtain ⟨_, s₂, h₂, hrow⟩ := Txn.bind_ok hrow
  obtain ⟨tags, rfl⟩ := insertHistory_leaves h₂
  cases hrow
  have htasks : (expireSingle r.id c.now σ.store).2.tasks = σ.store.tasks.filter fun x => !(x.id == r.id) := by
    rw [hexpire]
    rfl
  have hsub : ∀ x ∈ (expireSingle r.id c.now σ.store).2.tasks, x ∈ σ.store.tasks := by
    rw [htasks]
    exact fun x hx => List.mem_of_mem_filter hx
  refine ⟨⟨?_, ?_, fun x hx => h.registered x (hsub x hx), fun x hx => h.fresh x (hsub x hx)⟩, htasks, ?_⟩
  · rwa [hexpire]
  · rwa [hexpire]
  · rw [hexpire]
    refine ⟨rfl, fun x hx hlive => ?_⟩
    have hne : x.id ≠ r.id := by
      intro hid
      obtain rfl := h.schema.eq_of_id hx hr hid
      rw [hlive hdue] at hpast
      cases hpast
    exact tagsOf_deleteTaskTags hne

private theorem starts_expired (h : c.Ready σ) (hr : r ∈ σ.store.tasks) (hdue : r.due c.now = true)
    (hpast : r.past c.now = true) {s : Store} (htasks : s.tasks = σ.store.tasks.filter fun x => !(x.id == r.id))
    (hchosen : c.chosen { σ with store := s } = c.chosen σ)
    (hstarts : c.Starts c.patchedRecord { σ with store := s } σ') : c.Starts c.patchedRecord σ σ' := by
  obtain ⟨hactive, hclaimed, hkept, hrows⟩ := hstarts
  rw [hchosen] at hactive hclaimed hkept hrows
  refine ⟨hactive, hclaimed, fun x hx hnot hlive => hkept x ?_ hnot hlive, fun x hx => ?_⟩
  · have hne : x.id ≠ r.id := by
      intro hid
      obtain rfl := h.schema.eq_of_id hx hr hid
      rw [hlive hdue] at hpast
      cases hpast
    show x ∈ s.tasks
    rw [htasks, List.mem_filter]
    exact ⟨hx, by simpa using hne⟩
  · rcases hrows x hx with ⟨hmem, hnot⟩ | hclaim
    · have hmem : x ∈ s.tasks := hmem
      rw [htasks] at hmem
      exact .inl ⟨List.mem_of_mem_filter hmem, hnot⟩
    · exact .inr hclaim

/-- The rows after a claim of the row `r`. -/
private theorem mem_claimed (hschema : σ.store.Schema) (hr : r ∈ σ.store.tasks) {x : TaskRow} :
    x ∈ (σ.store.claimIds [r.id] c.now).tasks ↔ (x ∈ σ.store.tasks ∧ x ≠ r) ∨ x = r.claim c.now := by
  rw [Store.claimIds_tasks, List.mem_map]
  constructor
  · rintro ⟨y, hy, rfl⟩
    by_cases hid : y.id = r.id
    · obtain rfl := hschema.eq_of_id hy hr hid
      simp
    · rw [if_neg (by simpa using hid)]
      exact .inl ⟨hy, fun heq => hid (congrArg _ heq)⟩
  · rintro (⟨hx, hne⟩ | rfl)
    · refine ⟨x, hx, if_neg ?_⟩
      have hid : x.id ≠ r.id := fun hid => hne (hschema.eq_of_id hx hr hid)
      simpa using hid
    · exact ⟨r, hr, if_pos (by simp)⟩

/-- The state after the head of the queue has been started. -/
private def started (c : Cycle) (σ : Dispatching) (ctx : GateContext) (r : TaskRow) : Dispatching :=
  Dispatching.spawn { σ.acquired ctx with store := σ.store.claimIds [r.id] c.now } (c.patchedRecord σ.store r)

private theorem claimedRecord_id (c : Cycle) (s : Store) (r : TaskRow) : (c.claimedRecord s r).id = r.id := by
  obtain ⟨tags, htags⟩ := s.populateTags_eq (rowToTaskRecord (r.claim c.now))
  unfold Cycle.claimedRecord
  rw [htags]
  rfl

private theorem claimedRecord_taskType (c : Cycle) (s : Store) (r : TaskRow) :
    (c.claimedRecord s r).taskType = r.taskType := by
  obtain ⟨tags, htags⟩ := s.populateTags_eq (rowToTaskRecord (r.claim c.now))
  unfold Cycle.claimedRecord
  rw [htags]
  rfl

private theorem patchedRecord_id (c : Cycle) (s : Store) (r : TaskRow) : (c.patchedRecord s r).id = r.id :=
  (congrArg (·.id) (c.patchedRecord_same s r)).trans (claimedRecord_id c s r)

private theorem patchedRecord_taskType (c : Cycle) (s : Store) (r : TaskRow) :
    (c.patchedRecord s r).taskType = r.taskType :=
  (congrArg (·.taskType) (c.patchedRecord_same s r)).trans (claimedRecord_taskType c s r)

/-- A task that does not run yet is added to the active ones. -/
theorem ActiveTaskMap.insert_fresh {active : ActiveTaskMap} {task : TaskRecord} (h : ∀ t ∈ active, t.id ≠ task.id) :
    active.insert task = active ++ [task] := by
  have hkeep : active.remove task.id = active := List.filter_eq_self.2 fun t ht => by simpa using h t ht
  rw [ActiveTaskMap.insert, hkeep]

private theorem active_started (h : c.Ready σ) (hr : r ∈ σ.store.tasks) (hdue : r.due c.now = true)
    (ctx : GateContext) :
    (started c σ ctx r).active = σ.active ++ [c.patchedRecord σ.store r] := by
  refine ActiveTaskMap.insert_fresh fun t ht => ?_
  rw [patchedRecord_id]
  exact h.fresh r hr (TaskRow.pending_of_due hdue) t ht

private theorem ready_started (h : c.Ready σ) (hr : r ∈ σ.store.tasks) (hdue : r.due c.now = true)
    (ctx : GateContext) :
    c.Ready (started c σ ctx r) := by
  have hschema : (σ.store.claimIds [r.id] c.now).Schema := by
    have hsteps := h.schema.steps ((Action.claimTask r.id c.now).steps (fun _ => "") σ.store)
    rwa [Action.exec, claimTask_claimIds h.schema hr hdue] at hsteps
  refine ⟨hschema, h.owned, fun x hx => ?_, fun x hx hst t ht => ?_⟩
  · rcases (mem_claimed h.schema hr).1 hx with ⟨hx, _⟩ | rfl
    · exact h.registered x hx
    · exact h.registered r hr
  · rcases (mem_claimed h.schema hr).1 hx with ⟨hx, hne⟩ | rfl
    · rw [active_started h hr hdue, List.mem_append, List.mem_singleton] at ht
      rcases ht with ht | rfl
      · exact h.fresh x hx hst t ht
      · rw [patchedRecord_id]
        exact fun hid => hne (h.schema.eq_of_id hr hx hid).symm
    · cases hst

private theorem tasks_claimed (hschema : σ.store.Schema) (hr : r ∈ σ.store.tasks) :
    ∃ front back, σ.store.Split r front back ∧
      (σ.store.claimIds [r.id] c.now).tasks = front ++ r.claim c.now :: back := by
  obtain ⟨front, back, hsplit⟩ := hschema.split hr
  exact ⟨front, back, hsplit, hsplit.update (p := fun x => [r.id].contains x.id) (by simp) (by simp)⟩

private theorem queue_claimed (hschema : σ.store.Schema) (hq : c.queue σ.store = r :: queue) :
    c.queue (σ.store.claimIds [r.id] c.now) = queue := by
  obtain ⟨front, back, hsplit, htasks⟩ := tasks_claimed (c := c) hschema (mem_of_queue hq).1
  exact Store.ordered_remove [r.claim c.now] hschema hsplit hq (by rw [htasks]; simp) rfl

private theorem chosen_started (h : c.Ready σ) (hfull : ¬ c.maxConcurrency ≤ σ.active.length)
    (hq : c.queue σ.store = r :: queue) (hpast : r.past c.now = false) (ctx : GateContext) :
    c.free σ = c.free (started c σ ctx r) + 1 ∧ c.chosen σ = r :: c.chosen (started c σ ctx r) := by
  obtain ⟨hr, hdue⟩ := mem_of_queue hq
  have hready := ready_started h hr hdue ctx
  have hfree : c.free σ = c.free (started c σ ctx r) + 1 := by
    rw [Cycle.free, Cycle.free, active_started h hr hdue, List.length_append, List.length_singleton]
    omega
  have hqueue : c.queue (started c σ ctx r).store = queue := queue_claimed h.schema hq
  refine ⟨hfree, ?_⟩
  have hunexpired : r.unexpired c.now = true := by
    rw [TaskRow.unexpired_eq, hpast]
    rfl
  rw [chosen_eq h.schema, chosen_eq hready.schema, hq, hqueue, hfree, List.filter_cons_of_pos hunexpired,
    List.take_succ_cons]

private theorem starts_started (h : c.Ready σ) (hfull : ¬ c.maxConcurrency ≤ σ.active.length)
    (hq : c.queue σ.store = r :: queue) (hpast : r.past c.now = false) {ctx : GateContext}
    (hstarts : c.Starts c.patchedRecord (started c σ ctx r) σ')
    (hrecord : c.patchedRecord σ'.store r = c.patchedRecord σ.store r) : c.Starts c.patchedRecord σ σ' := by
  obtain ⟨hr, hdue⟩ := mem_of_queue hq
  obtain ⟨_, hchosen⟩ := chosen_started h hfull hq hpast ctx
  obtain ⟨hactive, hclaimed, hkept, hrows⟩ := hstarts
  refine ⟨?_, fun x hx => ?_, fun x hx hnot hlive => ?_, fun x hx => ?_⟩
  · rw [active_started h hr hdue] at hactive
    rw [hchosen, List.map_cons, hrecord]
    simpa using hactive
  · rw [hchosen] at hx
    rcases List.mem_cons.1 hx with rfl | hx
    · refine hkept _ ((mem_claimed h.schema hr).2 (.inr rfl)) (fun hin => ?_) fun hdue' => ?_
      · have hdue' := (mem_chosen hin).2.1
        rw [TaskRow.due_claim] at hdue'
        cases hdue'
      · rw [TaskRow.due_claim] at hdue'
        cases hdue'
    · exact hclaimed x hx
  · rw [hchosen, List.mem_cons, not_or] at hnot
    exact hkept x ((mem_claimed h.schema hr).2 (.inl ⟨hx, hnot.1⟩)) hnot.2 hlive
  · rw [hchosen]
    rcases hrows x hx with ⟨hmem, hnot⟩ | ⟨y, hy, rfl⟩
    · rcases (mem_claimed h.schema hr).1 hmem with ⟨hmem, hne⟩ | rfl
      · exact .inl ⟨hmem, fun hin => (List.mem_cons.1 hin).elim hne hnot⟩
      · exact .inr ⟨r, List.mem_cons_self, rfl⟩
    · exact .inr ⟨y, List.mem_cons_of_mem _ hy, rfl⟩

/-- What a round does with a head that has expired. -/
private theorem tryDispatch_expired (h : c.Ready σ) (hfull : ¬ c.maxConcurrency ≤ σ.active.length)
    (hq : c.queue σ.store = r :: queue) (hpast : r.past c.now = true) :
    ∃ s, c.tryDispatch σ = (.ok true, { σ with store := s }) ∧ c.Ready { σ with store := s } ∧
      s.tasks = σ.store.tasks.filter (fun x => !(x.id == r.id)) ∧ σ.store.SameTags c s ∧ c.queue s = queue ∧
      Dispatching.context { σ with store := s } = σ.context ∧ c.chosen { σ with store := s } = c.chosen σ := by
  obtain ⟨hr, hdue⟩ := mem_of_queue hq
  obtain ⟨tags, _, hround⟩ := tryDispatch_head hfull hq
  rw [if_pos hpast] at hround
  obtain ⟨hready, htasks, htags⟩ := expireSingle_head h hr hdue hpast
  generalize (expireSingle r.id c.now σ.store).2 = s at hround hready htasks htags
  obtain ⟨front, back, hsplit⟩ := h.schema.split hr
  have hafter : s.tasks = front ++ [] ++ back := by
    rw [htasks, hsplit.delete, List.append_nil]
  have hqueue : c.queue s = queue := Store.ordered_remove [] h.schema hsplit hq hafter rfl
  have hcontext : Dispatching.context { σ.acquired σ.context with store := s } = σ.context :=
    context_same hq rfl [] hsplit (fun x hx => absurd hx List.not_mem_nil) hafter
  have hunexpired : ¬ r.unexpired c.now = true := by simp [TaskRow.unexpired_eq, hpast]
  refine ⟨s, hround, hready, htasks, htags, hqueue, hcontext, ?_⟩
  rw [chosen_eq h.schema, chosen_eq hready.schema, hq, List.filter_cons_of_neg hunexpired]
  show ((c.queue s).filter _).take (c.free σ) = _
  rw [hqueue]

/-- What a round does with a head that is admitted. -/
private theorem tryDispatch_admitted (h : c.Ready σ) (hfull : ¬ c.maxConcurrency ≤ σ.active.length)
    (hq : c.queue σ.store = r :: queue) (hpast : r.past c.now = false) {ctx : GateContext}
    (hg : c.gate.admission σ.context (rowToTaskRecord r) = (.admitted, ctx)) :
    c.tryDispatch σ = (.ok true, started c σ ctx r) := by
  obtain ⟨hr, hdue⟩ := mem_of_queue hq
  obtain ⟨tags, htags, hround⟩ := tryDispatch_head hfull hq
  have hrecord : TaskRecord.patched { rowToTaskRecord r with tags := tags } (c.readings r.id) =
      c.patchedRecord σ.store r := by
    rw [← htags]
    rfl
  have hregistered : c.registered (c.patchedRecord σ.store r).taskType = true := by
    rw [patchedRecord_taskType]
    exact h.registered r hr
  rw [hround, if_neg (by simp [hpast]), hg]
  dsimp only
  rw [claimTask_claimIds h.schema hr hdue]
  dsimp only
  rw [hrecord, Cycle.spawnDispatchedTask, if_pos hregistered]
  rfl

/-- The slow loop, by induction on the queue: a head is expired or started, and the loop goes on with what is behind
it. -/
private theorem slow_starts (queue : List TaskRow) : ∀ σ : Dispatching, c.Ready σ → c.queue σ.store = queue →
    c.AdmitsQueue (c.free σ) σ.context queue →
    ∃ fuel slow, c.dispatchPending fuel σ = some (.ok (), slow) ∧ c.Starts c.patchedRecord σ slow ∧
      σ.store.SameTags c slow.store := by
  induction queue with
  | nil =>
    intro σ h hq _
    have hstop : c.tryDispatch σ = (.ok false, σ) := by
      by_cases hfull : c.maxConcurrency ≤ σ.active.length
      · rw [Cycle.tryDispatch, if_pos hfull]
      · exact tryDispatch_empty hfull hq
    refine ⟨1, σ, ?_, starts_none ?_, rfl, fun _ _ _ => rfl⟩
    · rw [Cycle.dispatchPending, hstop]
    · rw [chosen_eq h.schema, hq, List.filter_nil, List.take_nil]
  | cons r queue ih =>
    intro σ h hq hadmits
    by_cases hfull : c.maxConcurrency ≤ σ.active.length
    · refine ⟨1, σ, ?_, starts_none ?_, rfl, fun _ _ _ => rfl⟩
      · rw [Cycle.dispatchPending, Cycle.tryDispatch, if_pos hfull]
      · rw [Cycle.chosen, Cycle.free, Nat.sub_eq_zero_of_le hfull, List.take_zero]
    obtain ⟨n, hn⟩ : ∃ n, c.free σ = n + 1 := Nat.exists_eq_succ_of_ne_zero (by rw [Cycle.free]; omega)
    obtain ⟨hr, hdue⟩ := mem_of_queue hq
    cases hpast : r.past c.now with
    | true =>
      obtain ⟨s, hround, hready, htasks, htags, hqueue, hcontext, hchosen⟩ := tryDispatch_expired h hfull hq hpast
      have hrest : c.AdmitsQueue (c.free { σ with store := s })
          (Dispatching.context { σ with store := s }) queue := by
        rw [hcontext]
        show c.AdmitsQueue (c.free σ) _ _
        rw [hn] at hadmits ⊢
        rwa [Cycle.AdmitsQueue, if_pos hpast] at hadmits
      obtain ⟨fuel, slow, hloop, hstarts, hsame⟩ := ih _ hready hqueue hrest
      refine ⟨fuel + 1, slow, ?_, starts_expired h hr hdue hpast htasks hchosen hstarts,
        hsame.flag.trans htags.flag, ?_⟩
      · rw [Cycle.dispatchPending, hround]
        exact hloop
      · intro x hx hlive
        have hne : x.id ≠ r.id := by
          intro hid
          obtain rfl := h.schema.eq_of_id hx hr hid
          rw [hlive hdue] at hpast
          cases hpast
        have hx' : x ∈ s.tasks := by
          rw [htasks, List.mem_filter]
          exact ⟨hx, by simpa using hne⟩
        exact (hsame.tags x hx' hlive).trans (htags.tags x hx hlive)
    | false =>
      rw [hn, Cycle.AdmitsQueue, if_neg (by simp [hpast])] at hadmits
      obtain ⟨hfirst, hadmits⟩ := hadmits
      have hg : c.gate.admission σ.context (rowToTaskRecord r) =
          (.admitted, (c.gate.admission σ.context (rowToTaskRecord r)).2) := by
        rw [← hfirst]
      generalize (c.gate.admission σ.context (rowToTaskRecord r)).2 = ctx at hadmits hg
      have hready := ready_started h hr hdue ctx
      have hqueue : c.queue (started c σ ctx r).store = queue := queue_claimed h.schema hq
      obtain ⟨hfree, hchosen⟩ := chosen_started h hfull hq hpast ctx
      obtain ⟨front, back, hsplit, htasks⟩ := tasks_claimed (c := c) h.schema hr
      have hcontext : (started c σ ctx r).context = ctx.start r :=
        context_spawn hq hg hsplit htasks (patchedRecord_taskType c σ.store r)
      have hrest : c.AdmitsQueue (c.free (started c σ ctx r)) (started c σ ctx r).context queue := by
        rw [hcontext, show c.free (started c σ ctx r) = n by omega]
        exact hadmits
      obtain ⟨fuel, slow, hloop, hstarts, hsame⟩ := ih _ hready hqueue hrest
      -- a claim leaves the tags alone
      have htags : σ.store.SameTags c slow.store := by
        refine ⟨hsame.flag, fun x hx hlive => ?_⟩
        by_cases hx' : x = r
        · rw [hx']
          refine hsame.tags (r.claim c.now) ((mem_claimed h.schema hr).2 (.inr rfl)) fun hdue' => ?_
          rw [TaskRow.due_claim] at hdue'
          cases hdue'
        · exact hsame.tags x ((mem_claimed h.schema hr).2 (.inl ⟨hx, hx'⟩)) hlive
      refine ⟨fuel + 1, slow, ?_, starts_started h hfull hq hpast hstarts (htags.record hr fun _ => hpast), htags⟩
      rw [Cycle.dispatchPending, tryDispatch_admitted h hfull hq hpast hg]
      exact hloop

end Slow

/-! ### The fast loop -/

section Fast

variable {c : Cycle} {σ : Dispatching} {r : TaskRow}

private theorem chosen_ids (h : c.Ready σ) : ((c.chosen σ).map (·.id)).Nodup :=
  ((List.take_sublist _ _).map _).nodup (ordered_ids h.schema)

private theorem popNextBatch_chosen (hschema : σ.store.Schema) :
    ∃ batch, popNextBatch (c.maxConcurrency - σ.active.length) c.aging c.now σ.store =
        (.ok batch, σ.store.claimIds ((c.chosen σ).map (·.id)) c.now) ∧
      batch.Perm ((c.chosen σ).map fun r => rowToTaskRecord (r.claim c.now)) := by
  obtain ⟨batch, single, s', hbatch, hsingle, hperm⟩ :=
    popNextBatch_eq_popNextTimes hschema (c.maxConcurrency - σ.active.length) c.aging c.now
  rw [popNextTimes_eq hschema] at hsingle
  cases hsingle
  exact ⟨batch, hbatch, hperm⟩

/-- The rows after a claim of the chosen rows. -/
private theorem mem_claimed_chosen (h : c.Ready σ) {x : TaskRow} :
    x ∈ (σ.store.claimIds ((c.chosen σ).map (·.id)) c.now).tasks ↔
      (x ∈ σ.store.tasks ∧ x ∉ c.chosen σ) ∨ ∃ r ∈ c.chosen σ, x = r.claim c.now := by
  have hcontains : ∀ y ∈ σ.store.tasks, ((c.chosen σ).map (·.id)).contains y.id = true ↔ y ∈ c.chosen σ := by
    intro y hy
    rw [List.contains_iff_mem, List.mem_map]
    constructor
    · rintro ⟨r, hr, hid⟩
      rwa [← h.schema.eq_of_id (mem_chosen hr).1 hy hid]
    · exact fun hr => ⟨y, hr, rfl⟩
  rw [Store.claimIds_tasks, List.mem_map]
  constructor
  · rintro ⟨y, hy, rfl⟩
    split
    · rename_i hin
      exact .inr ⟨y, (hcontains y hy).1 hin, rfl⟩
    · rename_i hout
      exact .inl ⟨hy, fun hin => hout ((hcontains y hy).2 hin)⟩
  · rintro (⟨hx, hout⟩ | ⟨r, hr, rfl⟩)
    · exact ⟨x, hx, if_neg fun hin => hout ((hcontains x hx).1 hin)⟩
    · exact ⟨r, (mem_chosen hr).1, if_pos ((hcontains r (mem_chosen hr).1).2 hr)⟩

/-- The tasks of a batch are started one after the other. -/
private theorem spawnEach_ok (tasks : List TaskRecord) : ∀ σ : Dispatching,
    (∀ t ∈ tasks, c.registered t.taskType = true) → (∀ t ∈ tasks, ∀ a ∈ σ.active, a.id ≠ t.id) →
      (tasks.map (·.id)).Nodup →
    ∃ σ', c.spawnEach tasks σ = (.ok (), σ') ∧ σ'.store = σ.store ∧ σ'.active = σ.active ++ tasks := by
  induction tasks with
  | nil => exact fun σ _ _ _ => ⟨σ, rfl, rfl, (List.append_nil _).symm⟩
  | cons t tasks ih =>
    intro σ hregistered hfresh hnodup
    rw [List.map_cons, List.nodup_cons] at hnodup
    have hactive : (σ.spawn t).active = σ.active ++ [t] :=
      ActiveTaskMap.insert_fresh fun a ha => hfresh t List.mem_cons_self a ha
    have hfresh' : ∀ u ∈ tasks, ∀ a ∈ (σ.spawn t).active, a.id ≠ u.id := by
      intro u hu a ha
      rw [hactive, List.mem_append, List.mem_singleton] at ha
      rcases ha with ha | rfl
      · exact hfresh u (List.mem_cons_of_mem _ hu) a ha
      · exact fun hid => hnodup.1 (hid ▸ List.mem_map_of_mem hu)
    obtain ⟨σ', hloop, hstore, hactive'⟩ :=
      ih (σ.spawn t) (fun u hu => hregistered u (List.mem_cons_of_mem _ hu)) hfresh' hnodup.2
    refine ⟨σ', ?_, hstore, ?_⟩
    · rw [Cycle.spawnEach, Cycle.spawnDispatchedTask, if_pos (hregistered t List.mem_cons_self)]
      exact hloop
    · rw [hactive', hactive, List.append_assoc, List.singleton_append]

/-- The chosen rows are claimed with one statement and started. -/
private theorem starts_batch (h : c.Ready σ) {batch : List TaskRecord} {σ' : Dispatching}
    (hperm : batch.Perm ((c.chosen σ).map fun r => rowToTaskRecord (r.claim c.now)))
    (hstore : σ'.store = σ.store.claimIds ((c.chosen σ).map (·.id)) c.now)
    (hactive : σ'.active = σ.active ++ batch.map σ'.store.populateTags) : c.Starts c.claimedRecord σ σ' := by
  refine ⟨?_, fun r hr => ?_, fun r hr hnot _ => ?_, fun r hr => ?_⟩
  · have hrecords : (batch.map σ'.store.populateTags).Perm ((c.chosen σ).map (c.claimedRecord σ'.store)) := by
      have hmap := hperm.map σ'.store.populateTags
      rwa [List.map_map] at hmap
    rw [hactive]
    exact hrecords.append_left _
  · rw [hstore]
    exact (mem_claimed_chosen h).2 (.inr ⟨r, hr, rfl⟩)
  · rw [hstore]
    exact (mem_claimed_chosen h).2 (.inl ⟨hr, hnot⟩)
  · rw [hstore] at hr
    exact (mem_claimed_chosen h).1 hr

/-- When slots are left, then all eligible tasks have been claimed. -/
private theorem chosen_none (h : c.Ready σ) (hless : (c.chosen σ).length < c.free σ) :
    (σ.store.claimIds ((c.chosen σ).map (·.id)) c.now).ordered c.aging (·.eligible c.now) = [] := by
  have hall : c.chosen σ = σ.store.ordered c.aging (·.eligible c.now) := by
    rw [Cycle.chosen, List.length_take] at hless
    exact List.take_of_length_le (by omega)
  refine Store.ordered_eq_nil.2 fun x hx => ?_
  rcases (mem_claimed_chosen h).1 hx with ⟨hx, hnot⟩ | ⟨r, _, rfl⟩
  · rw [hall, Store.mem_ordered, not_and] at hnot
    exact Bool.eq_false_of_not_eq_true (hnot hx)
  · rfl

/-- The fast loop ends after two rounds. -/
private theorem fast_starts (h : c.Ready σ) :
    ∃ fast, c.dispatchFast 2 σ = some (.ok (), fast) ∧ c.Starts c.claimedRecord σ fast := by
  by_cases hfull : c.maxConcurrency ≤ σ.active.length
  · refine ⟨σ, ?_, starts_none ?_⟩
    · rw [Cycle.dispatchFast, if_pos hfull]
    · rw [Cycle.chosen, Cycle.free, Nat.sub_eq_zero_of_le hfull, List.take_zero]
  obtain ⟨batch, hpop, hperm⟩ := popNextBatch_chosen (c := c) h.schema
  have hlength : batch.length = (c.chosen σ).length := by rw [hperm.length_eq, List.length_map]
  rw [Cycle.dispatchFast, if_neg hfull, hpop]
  dsimp only
  by_cases hempty : batch = []
  · have hchosen : c.chosen σ = [] := List.length_eq_zero_iff.1 (by rw [← hlength, hempty]; rfl)
    refine ⟨σ, ?_, starts_none hchosen⟩
    rw [hempty, hchosen, List.map_nil, Store.claimIds_nil]
    rfl
  rw [if_neg (by simpa using hempty)]
  generalize hs : σ.store.claimIds ((c.chosen σ).map (·.id)) c.now = s
  have hrow : ∀ t ∈ batch.map s.populateTags, ∃ r ∈ c.chosen σ, t = c.claimedRecord s r := by
    intro t ht
    obtain ⟨t', ht', rfl⟩ := List.mem_map.1 ht
    obtain ⟨r, hr, rfl⟩ := List.mem_map.1 (hperm.mem_iff.1 ht')
    exact ⟨r, hr, rfl⟩
  have hids : ((batch.map s.populateTags).map (·.id)).Nodup := by
    have hsame : ((c.chosen σ).map (c.claimedRecord s)).map (·.id) = (c.chosen σ).map (·.id) := by
      rw [List.map_map]
      exact List.map_congr_left fun r _ => claimedRecord_id c s r
    have hmap := (hperm.map s.populateTags).map (·.id)
    rw [List.map_map (l := c.chosen σ)] at hmap
    refine hmap.nodup_iff.2 ?_
    show (((c.chosen σ).map (c.claimedRecord s)).map (·.id)).Nodup
    rw [hsame]
    exact chosen_ids h
  have hregistered : ∀ t ∈ batch.map s.populateTags, c.registered t.taskType = true := by
    intro t ht
    obtain ⟨r, hr, rfl⟩ := hrow t ht
    rw [claimedRecord_taskType]
    exact h.registered r (mem_chosen hr).1
  have hfresh : ∀ t ∈ batch.map s.populateTags, ∀ a ∈ σ.active, a.id ≠ t.id := by
    intro t ht a ha
    obtain ⟨r, hr, rfl⟩ := hrow t ht
    obtain ⟨hmem, hdue, _⟩ := mem_chosen hr
    rw [claimedRecord_id]
    exact h.fresh r hmem (TaskRow.pending_of_due hdue) a ha
  obtain ⟨σ', hspawn, hstore, hactive⟩ := spawnEach_ok (batch.map s.populateTags) { σ with store := s }
    hregistered hfresh hids
  have hactive : σ'.active = σ.active ++ batch.map s.populateTags := hactive
  have hstore : σ'.store = s := hstore
  have hstarts : c.Starts c.claimedRecord σ σ' := by
    refine starts_batch h hperm (hstore.trans hs.symm) ?_
    rw [hstore]
    exact hactive
  refine ⟨σ', ?_, hstarts⟩
  rw [hspawn]
  dsimp only
  rw [Cycle.dispatchFast]
  split
  · rfl
  · -- the second round finds nothing
    rename_i hroom
    have hless : (c.chosen σ).length < c.free σ := by
      rw [hactive, List.length_append, List.length_map, hlength] at hroom
      rw [Cycle.free]
      omega
    have hschema : σ'.store.Schema := by
      have hsteps := (Action.popNextBatch (c.free σ) c.aging c.now).steps (fun _ => "") σ.store
      have hexec : (Action.popNextBatch (c.free σ) c.aging c.now).exec (fun _ => "") σ.store = s := by
        rw [← hs]
        exact congrArg Prod.snd hpop
      rw [hstore, ← hexec]
      exact h.schema.steps hsteps
    have hnone : c.chosen σ' = [] := by
      rw [Cycle.chosen, hstore, ← hs, chosen_none h hless, List.take_nil]
    obtain ⟨rest, hpop', hperm'⟩ := popNextBatch_chosen (c := c) hschema
    rw [hnone, List.map_nil] at hperm'
    obtain rfl := hperm'.eq_nil
    rw [hpop', hnone, List.map_nil, Store.claimIds_nil]
    rfl

end Fast

/-! ### A gate with nothing to check -/

/-- Nothing is configured, which is when the scheduler takes the fast loop. -/
structure GateConfig.Open (g : GateConfig) : Prop where
  throttles : ∀ priority, g.throttles priority = false
  reader : g.reader = none
  groupLimits : ∀ group, g.groupLimits.limitFor group = none
  moduleCaps : ∀ module, g.moduleCaps.lookup module = none
  pausedGroups : g.pausedGroups = []

/-- There are no buckets. -/
structure GateContext.Unlimited (ctx : GateContext) : Prop where
  types : ∀ scope, ctx.typeRateLimits.lookup scope = none
  groups : ∀ scope, ctx.groupRateLimits.lookup scope = none

section Open

variable {g : GateConfig} {ctx : GateContext} {task : TaskRecord}

theorem GateConfig.Open.admission (hg : g.Open) (hctx : ctx.Unlimited) : g.admission ctx task = (.admitted, ctx) := by
  have hdenies : g.denies ctx task = false := by
    have hio : g.hasIoHeadroom ctx task = true := by rw [GateConfig.hasIoHeadroom, hg.reader]
    have hnet : g.hasNetIoHeadroom ctx task = true := by
      rw [GateConfig.hasNetIoHeadroom, hg.reader]
      split
      · rfl
      · rfl
    have hgroup : g.groupSaturated ctx task = false := by
      rw [GateConfig.groupSaturated]
      split
      · rfl
      · rw [hg.groupLimits]
    have hmodule : g.moduleSaturated ctx task = false := by
      rw [GateConfig.moduleSaturated]
      split
      · rfl
      · rw [hg.moduleCaps]
    rw [GateConfig.denies, hg.throttles, hio, hnet, hg.pausedGroups, hgroup, hmodule]
    cases task.groupKey with
    | none => rfl
    | some group => rfl
  have htype : ctx.typeRateLimits.tryAcquire task.taskType = (none, ctx.typeRateLimits) := by
    rw [RateLimits.tryAcquire, hctx.types]
  rw [GateConfig.admission, if_neg (by simp [hdenies]), htype]
  dsimp only
  cases task.groupKey with
  | none => rfl
  | some group =>
    dsimp only
    rw [RateLimits.tryAcquire, hctx.groups]

theorem GateConfig.Open.admitsQueue {c : Cycle} (hg : c.gate.Open) (free : Nat) (queue : List TaskRow) :
    ∀ ctx : GateContext, ctx.Unlimited → c.AdmitsQueue free ctx queue := by
  induction queue generalizing free with
  | nil =>
    intro ctx _
    cases free with
    | zero => trivial
    | succ free => trivial
  | cons r queue ih =>
    intro ctx hctx
    cases free with
    | zero => trivial
    | succ free =>
      rw [Cycle.AdmitsQueue]
      split
      · exact ih (free + 1) ctx hctx
      · rw [hg.admission hctx]
        exact ⟨rfl, ih free (ctx.start r) ⟨hctx.types, hctx.groups⟩⟩

end Open

/-- Two slots and no limits, two seconds after the start. -/
private def freeSlots : Cycle where
  gate :=
    { throttles := fun _ => false, reader := none, groupLimits := .new, moduleCaps := ∅, pausedGroups := [],
      typeNext := fun _ => 0, groupNext := fun _ => 0 }
  registered := fun _ => true
  maxConcurrency := 2
  aging := none
  now := 2000
  readings := fun _ => ⟨2001, 2002⟩

private theorem freeSlots_open : freeSlots.gate.Open := ⟨fun _ => rfl, rfl, fun _ => rfl, fun _ => rfl, rfl⟩

/-- Four tasks, the first of which had one second. -/
private def dueTasks : List Action :=
  [.submitDirect { TaskSubmission.new "a" with ttl := some ⟨1000000000⟩ } 0, .submitDirect (.new "b") 0,
    .submitDirect (.new "c") 0, .submitDirect (.new "d") 0]

private def waiting : Dispatching where
  store := execAll sampleSha256 openMemory dueTasks
  active := []
  moduleRunning := ∅
  typeRateLimits := ∅
  groupRateLimits := ∅

private theorem waiting_owned : waiting.store.HistoryTagsOwned := by
  unfold Store.HistoryTagsOwned
  decide +kernel

private theorem waiting_ready : freeSlots.Ready waiting := by
  have hschema := schema_execAll sampleSha256 dueTasks openMemory_fresh.schema
  have hregistered : ∀ r ∈ waiting.store.tasks, freeSlots.registered r.taskType = true := by
    intro r _
    rfl
  have hfresh : ∀ r ∈ waiting.store.tasks, r.status = .pending → ∀ t ∈ waiting.active, t.id ≠ r.id := by
    intro r _ _ t ht
    exact absurd ht List.not_mem_nil
  exact ⟨hschema, waiting_owned, hregistered, hfresh⟩

end Taskmill
