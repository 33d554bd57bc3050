import Taskmill.Logs
import Taskmill.Scheduler.Parents

/-!
# The failures of children

`try_resolve_parent` counts the rows of `task_history` with the id of the parent and the status `failed`
(`src/store/hierarchy.rs`).  `Families` keeps beside the store which lives are children of which, and for every
parent the keys of the children that failed for good and were not made good since.

The count goes wrong when a child is dead-lettered or fails with a dependency, when the failed child is run again with
success, when a failed row is left by an earlier owner of the id or written for a stale record, and when it is pruned.
-/

namespace Taskmill

open Transact

/-- The task did not succeed, for good. -/
def HistoryStatus.isFailure : HistoryStatus → Bool
  | .failed | .deadLetter | .dependencyFailed => true
  | .completed | .cancelled | .expired | .superseded => false

/-- The store, for a life the life of its parent, and for a parent the keys of its children that failed. -/
structure Families where
  store : Store
  parentOf : Nat → Option Nat
  failures : Nat → List String

/-- The life of the parent that the row of a new life names. -/
def Store.parentLife (s : Store) (inst : Nat) : Option Nat := do
  let r ← s.tasks.find? (·.inst == inst)
  let id ← r.parentId
  let p ← s.taskById id
  pure p.inst

/-- The children of the life `parent` that end in a step, with their keys. -/
def Families.ended (σ : Families) (after : Store) (parent : Nat) : List (String × Option HistoryStatus) :=
  (σ.store.tasks.filter fun c => σ.parentOf c.inst == some parent && !after.tasks.any (·.inst == c.inst)).map fun c =>
    (c.key, loggedAs σ.store after c.inst)

/-- What one step adds to the failures of a parent and takes away from them. -/
def recordFailures (failures : List String) (ended : List (String × Option HistoryStatus)) : List String :=
  failures.filter (fun key => !ended.contains (key, some .completed)) ++
    (ended.filter fun e => e.2.any (·.isFailure)).map (·.1)

def Families.step (sha256 : List UInt8 → String) (σ : Families) (a : Action) : Families where
  store := a.exec sha256 σ.store
  parentOf inst := if inst < σ.store.nextInst then σ.parentOf inst else (a.exec sha256 σ.store).parentLife inst
  failures parent := recordFailures (σ.failures parent) (σ.ended (a.exec sha256 σ.store) parent)

/-- A new database. -/
structure Families.Start (σ : Families) : Prop where
  fresh : σ.store.Fresh
  parentOf : ∀ inst, σ.parentOf inst = none
  failures : ∀ parent, σ.failures parent = []

/-- A waiting parent that has no child in the queue is resolved as failed if a child has failed and was not made
good, and as ready to finalize if none has. -/
def Families.Resolves (σ : Families) : Prop :=
  ∀ p ∈ σ.store.tasks, p.status = .waiting → (∀ c ∈ σ.store.tasks, σ.parentOf c.inst ≠ some p.inst) →
    (σ.failures p.inst ≠ [] → ∃ reason, σ.store.tryResolveParent p.id = some (.failed reason)) ∧
      (σ.failures p.inst = [] → σ.store.tryResolveParent p.id = some .readyToFinalize)

/-! ### The condition -/

/-- The final failures that a step records: the task, and whether the error was retryable. -/
def Action.finalFailures (s : Store) : Action → List (TaskRecord × Bool)
  | .fail id _ retryable maxRetries _ _ _ =>
    ((s.taskById id).toList.filter fun r => !(rowToTaskRecord r).willRetry retryable maxRetries).map fun r =>
      (rowToTaskRecord r, retryable)
  | .failWithRecord task _ retryable maxRetries _ _ _ =>
    if task.willRetry retryable maxRetries then [] else [(task, retryable)]
  | .failBatch items _ => items.map fun item => (item.task, item.retryable)
  | _ => []

/-- The history row of a failed child of the task with this id. -/
def TaskHistoryRow.FailedChildOf (parent : Int) (h : TaskHistoryRow) : Prop :=
  h.status = .failed ∧ h.parentId = some parent

instance (parent : Int) (h : TaskHistoryRow) : Decidable (h.FailedChildOf parent) :=
  inferInstanceAs (Decidable (_ ∧ _))

/-- A step that keeps the count right. -/
@[mk_iff] structure Families.Clean (sha256 : List UInt8 → String) (σ : Families) (a : Action) : Prop where
  /-- failures are reported with the records of tasks that are in the queue -/
  current : ∀ f ∈ a.finalFailures σ.store, ∃ r ∈ σ.store.tasks, r.id = f.1.id ∧ r.inst = f.1.inst ∧
    r.parentId = f.1.parentId
  /-- no child is dead-lettered -/
  nonRetryable : ∀ f ∈ a.finalFailures σ.store, f.1.parentId ≠ none → f.2 = false
  /-- or fails with a dependency -/
  independent : ∀ c ∈ σ.store.tasks, c.parentId ≠ none →
    loggedAs σ.store (a.exec sha256 σ.store) c.inst ≠ some .dependencyFailed
  /-- no child completes under the key of a sibling that failed -/
  unretried : ∀ c ∈ σ.store.tasks, (∀ r ∈ (a.exec sha256 σ.store).tasks, r.inst ≠ c.inst) →
    loggedAs σ.store (a.exec sha256 σ.store) c.inst = some .completed →
      ∀ parent ∈ σ.parentOf c.inst, c.key ∉ σ.failures parent
  /-- no row and no failed history row names the id that a new life gets as its parent -/
  unnamed : ∀ r ∈ (a.exec sha256 σ.store).tasks, σ.store.nextInst ≤ r.inst →
    (∀ c ∈ σ.store.tasks, c.parentId ≠ some r.id) ∧ ∀ h ∈ σ.store.taskHistory, ¬ h.FailedChildOf r.id
  /-- the rows of the failed children of tasks in the queue stay in the history -/
  unpruned : ∀ p ∈ σ.store.tasks, ∀ h ∈ σ.store.taskHistory, h.FailedChildOf p.id →
    h ∈ (a.exec sha256 σ.store).taskHistory

instance (sha256 : List UInt8 → String) (σ : Families) (a : Action) : Decidable (σ.Clean sha256 a) :=
  decidable_of_iff' _ (Families.clean_iff sha256 σ a)

/-! ### One step -/

/-- The row of an old life has the id and the parent that it had before. -/
def TaskRow.LivedIn (s : Store) (r' : TaskRow) : Prop :=
  r'.inst < s.nextInst → ∃ r ∈ s.tasks, r.inst = r'.inst ∧ r.id = r'.id ∧ r.parentId = r'.parentId

section Step

variable {sha256 : List UInt8 → String} {s t : Store} {r r' : TaskRow} {now : Int}

private theorem livedIn_self (hr : r ∈ s.tasks) : r.LivedIn s := fun _ => ⟨r, hr, rfl, rfl, rfl⟩

private theorem livedIn_new (h : s.nextInst ≤ r.inst) : r.LivedIn s := fun hlt => absurd hlt (by omega)

private theorem TaskRow.LivedIn.same (h : r.LivedIn s) (hinst : r'.inst = r.inst) (hid : r'.id = r.id)
    (hparent : r'.parentId = r.parentId) : r'.LivedIn s := by
  intro hlt
  rw [hinst] at hlt ⊢
  rw [hid, hparent]
  exact h hlt

private theorem livedIn_submission {sub : TaskSubmission} (hrows : t.Rows (TaskRow.LivedIn s))
    (hnext : s.nextInst ≤ t.nextInst) :
    sub.KeepsRows sha256 (TaskRow.LivedIn s) now t where
  pending _ _ := livedIn_new hnext
  paused _ _ := livedIn_new hnext
  blocked := livedIn_new hnext
  upgraded r hr _ _ _ := (hrows r hr).same rfl rfl rfl
  requeued r hr _ _ := (hrows r hr).same rfl rfl rfl
  superseded _ _ _ _ _ := livedIn_new hnext
  replaced _ _ _ _ _ := livedIn_new hnext

private theorem livedIn_completion (tasks : List TaskRecord) :
    CompletionKeepsRows (TaskRow.LivedIn s) tasks now s where
  reset _ _ _ _ _ hinst := livedIn_new hinst
  next _ _ _ _ _ _ hinst := by
    split
    · exact livedIn_new hinst
    · exact livedIn_new hinst

private theorem livedIn_freeing (t : Store) : FreeingKeepsRows (TaskRow.LivedIn s) now t := by
  intro r hr _
  rw [Store.freeRow]
  split
  · exact hr.same rfl rfl rfl
  · exact hr.same rfl rfl rfl

private theorem livedIn_exec (sha256 : List UInt8 → String) (hs : s.Schema) (a : Action) :
    (a.exec sha256 s).Rows (TaskRow.LivedIn s) := by
  have hself : s.Rows (TaskRow.LivedIn s) := fun r hr => livedIn_self hr
  have hchange {r r' : TaskRow} (hr : r ∈ s.tasks) (hinst : r'.inst = r.inst) (hid : r'.id = r.id)
      (hparent : r'.parentId = r.parentId) : r'.LivedIn s := (livedIn_self hr).same hinst hid hparent
  refine a.rows_exec sha256 hs hself ?_
  cases a with
  | update u =>
    intro r hr _
    cases u <;> exact hchange hr rfl rfl rfl
  | submitDirect sub now => exact livedIn_submission hself (Nat.le_refl _)
  | processSubmitBatch skipRequeue batch =>
    exact Along.iff_getElem.2 fun n m _ hσ => ⟨livedIn_submission hσ.rows hσ.next, fun _ => livedIn_new hσ.next⟩
  | submitChunk skipRequeue last now chunk =>
    exact Along.iff_getElem.2 fun n item _ hσ _ => livedIn_submission hσ.rows hσ.next
  | claimTask id now => exact fun r hr _ _ => hchange hr rfl rfl rfl
  | popById id now => exact fun r hr _ _ => hchange hr rfl rfl rfl
  | popNextBatch limit aging now => exact fun r hr _ => hchange hr rfl rfl rfl
  | complete id metrics now => exact fun row _ => livedIn_completion _
  | completeWithRecord task metrics now => exact livedIn_completion _
  | completeBatch items now => exact ⟨livedIn_completion _, livedIn_freeing s⟩
  | resolveDependents id now => exact livedIn_freeing s
  | failDependents id now => exact livedIn_freeing s
  | fail id error retryable maxRetries metrics backoff now =>
    exact fun r hr _ => hchange (List.mem_of_find?_eq_some hr) rfl rfl rfl
  | failWithRecord task error retryable maxRetries metrics backoff now => exact fun _ r hr _ => hchange hr rfl rfl rfl
  | recoverRunning now =>
    refine ⟨fun r hr _ => ?_, fun r hr _ _ => ?_, fun r hr _ _ _ => ?_⟩
    · exact hchange hr rfl rfl rfl
    · exact hchange hr rfl rfl rfl
    · exact hchange hr rfl rfl rfl
  | _ => trivial

/-! ### What is written -/

/-- The history row of a final failure, and the row that is gone. -/
private theorem failInner_logged {task : TaskRecord} {error : String} {retryable : Bool} {maxRetries : Int}
    {metrics : IoBudget} {backoff : FailBackoff} {u : Unit} {s' : Store} {h : TaskHistoryRow}
    (hok : failInner task error retryable maxRetries metrics backoff now s = (.ok u, s')) (hmem : h ∈ s'.taskHistory)
    (hnew : h ∉ s.taskHistory) :
    task.willRetry retryable maxRetries = false ∧ h.inst = task.inst ∧ h.parentId = task.parentId ∧
      h.status = terminalStatus retryable ∧ ∀ r ∈ s'.tasks, r.id ≠ task.id := by
  rw [failInner] at hok
  split at hok
  · cases hok
    exact absurd hmem hnew
  · rename_i hretry
    obtain ⟨_, s₁, h₁, hok⟩ := Txn.bind_ok hok
    cases hok
    obtain ⟨tags, rfl⟩ := insertHistory_leaves h₁
    rcases List.mem_append.1 hmem with hmem | hmem
    · exact absurd hmem hnew
    · rw [List.mem_singleton.1 hmem]
      refine ⟨by simpa using hretry, rfl, rfl, rfl, fun r hr => ?_⟩
      obtain ⟨_, hne⟩ := List.mem_filter.1 hr
      simpa using hne

/-- What a transaction wrote, it wrote before it was committed. -/
private theorem transaction_logged {α : Type} {x : Sql α} {h : TaskHistoryRow}
    (hmem : h ∈ (transaction x s).2.taskHistory) (hnew : h ∉ s.taskHistory) :
    ∃ a s', x s = (.ok a, s') ∧ transaction x s = (.ok a, s') := by
  rcases hx : transaction x s with ⟨e | a, s'⟩
  · obtain ⟨s₁, _, rfl⟩ := transaction_error hx
    rw [hx] at hmem
    exact absurd hmem hnew
  · exact ⟨a, s', transaction_ok hx, rfl⟩

private theorem failBatch_logged {items : List FailureItem} {h : TaskHistoryRow}
    (hmem : h ∈ (failBatchTx items now s).2.taskHistory) (hnew : h ∉ s.taskHistory) :
    ∃ item ∈ items, h.inst = item.task.inst ∧ h.parentId = item.task.parentId ∧
      h.status = terminalStatus item.retryable ∧
      ∀ r ∈ (failBatchTx items now s).2.tasks, r.id ≠ item.task.id := by
  rw [failBatchTx.eq_def] at hmem ⊢
  split at hmem
  · exact absurd hmem hnew
  · rename_i item
    obtain ⟨u, s', hok, htx⟩ := transaction_logged hmem hnew
    rw [failWithRecordTx, htx] at hmem ⊢
    obtain ⟨_, hrow⟩ := failInner_logged hok hmem hnew
    exact ⟨item, List.mem_singleton_self _, hrow⟩
  · obtain ⟨u, s', hok, htx⟩ := transaction_logged hmem hnew
    rw [htx] at hmem ⊢
    obtain ⟨_, s₁, h₁, hok⟩ := Txn.bind_ok hok
    obtain ⟨rows, tags, rfl, hrows⟩ := mapList_log (R := fun (item : FailureItem) (h : TaskHistoryRow) =>
      h.inst = item.task.inst ∧ h.parentId = item.task.parentId ∧ h.status = terminalStatus item.retryable)
      (fun item s u s' hx => by
        obtain ⟨tags, rfl⟩ := insertHistory_leaves hx
        exact ⟨_, tags, rfl, rfl, rfl, rfl⟩) h₁
    obtain ⟨_, s₂, h₂, hok⟩ := Txn.bind_ok hok
    cases h₂
    have hlog : s'.taskHistory = s.taskHistory ++ rows ∧
        s'.tasks = s.tasks.filter fun r => !(items.map (·.task.id)).contains r.id := by
      obtain rfl := (Prod.mk.inj hok).2
      split
      · exact ⟨rfl, rfl⟩
      · exact ⟨rfl, rfl⟩
    rw [hlog.1] at hmem
    obtain ⟨item, hitem, hrow⟩ : ∃ item ∈ items, h.inst = item.task.inst ∧ h.parentId = item.task.parentId ∧
        h.status = terminalStatus item.retryable := by
      exact exists_of_forall₂ hrows.flip ((List.mem_append.1 hmem).resolve_left hnew)
    refine ⟨item, hitem, hrow.1, hrow.2.1, hrow.2.2, fun r hr hid => ?_⟩
    dsimp only at hr
    rw [hlog.2] at hr
    have hout := (List.mem_filter.1 hr).2
    rw [hid] at hout
    simp only [Bool.not_eq_true', List.contains_eq_mem, decide_eq_false_iff_not] at hout
    exact hout (List.mem_map_of_mem hitem)

/-- A row with the status of a failure is that of a final failure, whose row is gone. -/
private theorem logged_of_failure {a : Action} {h : TaskHistoryRow} (hmem : h ∈ (a.exec sha256 s).taskHistory)
    (hnew : h ∉ s.taskHistory) (hst : h.status = .failed ∨ h.status = .deadLetter) :
    ∃ f ∈ a.finalFailures s, h.inst = f.1.inst ∧ h.parentId = f.1.parentId ∧ h.status = terminalStatus f.2 ∧
      ∀ r ∈ (a.exec sha256 s).tasks, r.id ≠ f.1.id := by
  have hwrites : a.Writes s h := (a.logs_exec sha256 s h hmem).resolve_left hnew
  have hof {task : TaskRecord} {st : HistoryStatus} (hrow : h.Of task st) (hne : st ≠ .failed ∧ st ≠ .deadLetter) :
      False := by
    rw [hrow.status] at hst
    exact hst.elim hne.1 hne.2
  have hwithdrawn (hw : h.status.withdrawn = true) : False := by
    rcases hst with hst | hst
    · rw [hst] at hw
      cases hw
    · rw [hst] at hw
      cases hw
  cases a with
  | fail id error retryable maxRetries metrics backoff now =>
    obtain ⟨u, s', hok, htx⟩ := transaction_logged hmem hnew
    have hexec : (Action.fail id error retryable maxRetries metrics backoff now).exec sha256 s = s' := by
      show (failTx id error retryable maxRetries metrics backoff now s).2 = s'
      rw [failTx, htx]
    rw [hexec] at hmem ⊢
    cases hrow : s.taskById id with
    | none =>
      simp only [hrow] at hok
      cases hok
      exact absurd hmem hnew
    | some row =>
      simp only [hrow] at hok
      obtain ⟨hretry, hfacts⟩ := failInner_logged hok hmem hnew
      refine ⟨(rowToTaskRecord row, retryable), ?_, hfacts⟩
      simp [Action.finalFailures, hrow, hretry]
  | failWithRecord task error retryable maxRetries metrics backoff now =>
    obtain ⟨u, s', hok, htx⟩ := transaction_logged hmem hnew
    have hexec : (Action.failWithRecord task error retryable maxRetries metrics backoff now).exec sha256 s = s' := by
      show (failWithRecordTx task error retryable maxRetries metrics backoff now s).2 = s'
      rw [failWithRecordTx, htx]
    rw [hexec] at hmem ⊢
    obtain ⟨hretry, hfacts⟩ := failInner_logged hok hmem hnew
    refine ⟨(task, retryable), ?_, hfacts⟩
    simp [Action.finalFailures, hretry]
  | failBatch items now =>
    obtain ⟨item, hitem, hfacts⟩ := failBatch_logged hmem hnew
    exact ⟨(item.task, item.retryable), List.mem_map_of_mem hitem, hfacts⟩
  | complete id metrics now =>
    obtain ⟨r, _, _, hrow⟩ := hwrites
    exact (hof hrow ⟨nofun, nofun⟩).elim
  | completeWithRecord task metrics now => exact (hof hwrites ⟨nofun, nofun⟩).elim
  | completeBatch items now =>
    obtain ⟨item, _, hrow⟩ := hwrites
    exact (hof hrow ⟨nofun, nofun⟩).elim
  | expireTasks now =>
    obtain ⟨r, _, _, hrow⟩ := hwrites
    exact (hof hrow ⟨nofun, nofun⟩).elim
  | expireSingle id now =>
    obtain ⟨r, _, _, hrow⟩ := hwrites
    exact (hof hrow ⟨nofun, nofun⟩).elim
  | _ => exact (hwithdrawn hwrites).elim

private theorem terminalStatus_isFailure (retryable : Bool) : (terminalStatus retryable).isFailure = true := by
  cases retryable <;> rfl

/-- A step that records final failures writes nothing else to the history. -/
private theorem isFailure_of_finalFailures {a : Action} {h : TaskHistoryRow}
    (hmem : h ∈ (a.exec sha256 s).taskHistory) (hnew : h ∉ s.taskHistory) {f : TaskRecord × Bool}
    (hf : f ∈ a.finalFailures s) : h.status.isFailure = true := by
  have hwrites : a.Writes s h := (a.logs_exec sha256 s h hmem).resolve_left hnew
  have hof {task : TaskRecord} {retryable : Bool} (hrow : h.Of task (terminalStatus retryable)) :
      h.status.isFailure = true := by
    rw [hrow.status]
    exact terminalStatus_isFailure retryable
  cases a with
  | fail id error retryable maxRetries metrics backoff now =>
    obtain ⟨r, _, _, hrow⟩ := hwrites
    exact hof hrow
  | failWithRecord task error retryable maxRetries metrics backoff now => exact hof hwrites
  | failBatch items now =>
    obtain ⟨item, _, hrow⟩ := hwrites
    exact hof hrow
  | _ => cases hf

end Step

/-! ### Runs -/

/-- The families are known, and the failed rows that name a parent tell whether a child of it has failed. -/
structure Families.Kept (σ : Families) : Prop where
  schema : σ.store.Schema
  parent : ∀ c ∈ σ.store.tasks, ∀ p ∈ σ.store.tasks, σ.parentOf c.inst = some p.inst ↔ c.parentId = some p.id
  older : ∀ inst life, σ.parentOf inst = some life → life < σ.store.nextInst
  unborn : ∀ life, σ.store.nextInst ≤ life → σ.failures life = []
  told : ∀ p ∈ σ.store.tasks, σ.failures p.inst ≠ [] ↔ ∃ h ∈ σ.store.taskHistory, h.FailedChildOf p.id

section Runs

variable {sha256 : List UInt8 → String} {σ : Families} {a : Action} {p c : TaskRow}

/-- A row names the parent with the id. -/
private theorem parentLife_iff {s : Store} (hs : s.Schema) (hc : c ∈ s.tasks) (hp : p ∈ s.tasks) :
    s.parentLife c.inst = some p.inst ↔ c.parentId = some p.id := by
  have hlife : s.parentLife c.inst = c.parentId.bind fun id => (s.taskById id).map (·.inst) := by
    show (s.tasks.find? (·.inst == c.inst)).bind _ = _
    rw [hs.find_inst hc]
    show c.parentId.bind _ = _
    cases c.parentId with
    | none => rfl
    | some id =>
      show (s.taskById id).bind _ = (s.taskById id).map (·.inst)
      cases s.taskById id with
      | none => rfl
      | some r => rfl
  rw [hlife]
  constructor
  · intro h
    obtain ⟨id, hid, h⟩ := Option.bind_eq_some_iff.1 h
    obtain ⟨q, hq, hinst⟩ := Option.map_eq_some_iff.1 h
    have hqid : q.id = id := by simpa using List.find?_some hq
    rw [List.inj_on_of_nodup_map hs.insts (List.mem_of_find?_eq_some hq) hp hinst] at hqid
    rw [hid, hqid]
  · intro h
    rw [h]
    show (s.taskById p.id).map (·.inst) = some p.inst
    rw [hs.taskById_eq hp]
    rfl

private theorem parentLife_older {s : Store} (hs : s.Schema) {inst life : Nat} (h : s.parentLife inst = some life) :
    life < s.nextInst := by
  obtain ⟨r, _, h⟩ := Option.bind_eq_some_iff.1 h
  obtain ⟨id, _, h⟩ := Option.bind_eq_some_iff.1 h
  obtain ⟨q, hq, h⟩ := Option.bind_eq_some_iff.1 h
  obtain rfl : q.inst = life := Option.some.inj h
  exact hs.inst_lt q (List.mem_of_find?_eq_some hq)

private theorem mem_ended {after : Store} {parent : Nat} {e : String × Option HistoryStatus} :
    e ∈ σ.ended after parent ↔ ∃ c ∈ σ.store.tasks, σ.parentOf c.inst = some parent ∧
      (∀ r ∈ after.tasks, r.inst ≠ c.inst) ∧ e = (c.key, loggedAs σ.store after c.inst) := by
  unfold Families.ended
  simp only [List.mem_map, List.mem_filter, Bool.and_eq_true, beq_iff_eq, Bool.not_eq_true', List.any_eq_false]
  constructor
  · rintro ⟨c, ⟨hc, hparent, hgone⟩, rfl⟩
    exact ⟨c, hc, hparent, fun r hr => by simpa using hgone r hr, rfl⟩
  · rintro ⟨c, hc, hparent, hgone, rfl⟩
    exact ⟨c, ⟨hc, hparent, fun r hr => by simpa using hgone r hr⟩, rfl⟩

/-- Nothing is made good, so that the failures only become more. -/
private theorem recordFailures_ne_nil {failures : List String} {ended : List (String × Option HistoryStatus)}
    (h : ∀ e ∈ ended, e.2 = some .completed → e.1 ∉ failures) :
    recordFailures failures ended ≠ [] ↔ failures ≠ [] ∨ ∃ e ∈ ended, e.2.any (·.isFailure) = true := by
  have hkept : failures.filter (fun key => !ended.contains (key, some .completed)) = failures := by
    refine List.filter_eq_self.2 fun key hkey => ?_
    simp only [Bool.not_eq_true', List.contains_eq_mem, decide_eq_false_iff_not]
    intro hmem
    exact h _ hmem rfl hkey
  unfold recordFailures
  rw [hkept]
  constructor
  · intro hne
    by_cases hfail : failures = []
    · right
      by_contra hnone
      refine hne ?_
      rw [hfail, List.nil_append, List.map_eq_nil_iff, List.filter_eq_nil_iff]
      intro e he hfailed
      exact hnone ⟨e, he, hfailed⟩
    · exact .inl hfail
  · rintro (hne | ⟨e, he, hfailed⟩) hnil
    · exact hne (List.append_eq_nil_iff.1 hnil).1
    · have hmem : e.1 ∈ (ended.filter fun e => e.2.any (·.isFailure)).map (·.1) :=
        List.mem_map_of_mem (List.mem_filter.2 ⟨he, hfailed⟩)
      rw [(List.append_eq_nil_iff.1 hnil).2] at hmem
      cases hmem

/-- A child of a task that stays in the queue fails in the step exactly if a failed row with the id of the task is
written. -/
private theorem fails_iff (h : σ.Kept) (hclean : σ.Clean sha256 a) (hp : p ∈ σ.store.tasks) :
    (∃ e ∈ σ.ended (a.exec sha256 σ.store) p.inst, e.2.any (·.isFailure) = true) ↔
      ∃ row ∈ (a.exec sha256 σ.store).taskHistory, row ∉ σ.store.taskHistory ∧ row.FailedChildOf p.id := by
  have hsame {r : TaskRow} (hr : r ∈ σ.store.tasks) {c : TaskRow} (hc : c ∈ σ.store.tasks)
      (hinst : r.inst = c.inst) : r = c :=
    List.inj_on_of_nodup_map h.schema.insts hr hc hinst
  constructor
  · rintro ⟨e, he, hfailed⟩
    obtain ⟨c, hc, hparent, _, rfl⟩ := mem_ended.1 he
    obtain ⟨st, hst, hfailure⟩ : ∃ st, loggedAs σ.store (a.exec sha256 σ.store) c.inst = some st ∧
        st.isFailure = true := by
      dsimp only at hfailed
      cases hst : loggedAs σ.store (a.exec sha256 σ.store) c.inst with
      | none =>
        rw [hst] at hfailed
        cases hfailed
      | some st =>
        rw [hst] at hfailed
        exact ⟨st, rfl, hfailed⟩
    have hnamed : c.parentId = some p.id := (h.parent c hc p hp).1 hparent
    have hchild : c.parentId ≠ none := by
      rw [hnamed]
      nofun
    obtain ⟨row, hrow, hnew, hinst, hstatus⟩ := loggedAs_some hst
    refine ⟨row, hrow, hnew, ?_⟩
    -- the child did not fail with a dependency, so that its failure was recorded as such
    have hrecorded : row.status = .failed ∨ row.status = .deadLetter := by
      rw [hstatus]
      cases st with
      | failed => exact .inl rfl
      | deadLetter => exact .inr rfl
      | dependencyFailed => exact absurd hst (hclean.independent c hc hchild)
      | _ => cases hfailure
    obtain ⟨f, hf, hfinst, hfparent, hfstatus, _⟩ := logged_of_failure hrow hnew hrecorded
    obtain ⟨r, hr, _, hrinst, hrparent⟩ := hclean.current f hf
    have hrc : r = c := hsame hr hc (by rw [hrinst, ← hfinst, hinst])
    rw [hrc] at hrparent
    have hretryable : f.2 = false := by
      refine hclean.nonRetryable f hf ?_
      rw [← hrparent]
      exact hchild
    refine ⟨?_, ?_⟩
    · rw [hfstatus, hretryable]
      rfl
    · rw [hfparent, ← hrparent, hnamed]
  · rintro ⟨row, hrow, hnew, hstatus, hnamed⟩
    obtain ⟨f, hf, hfinst, hfparent, _, hgone⟩ := logged_of_failure hrow hnew (.inl hstatus)
    obtain ⟨r, hr, hrid, hrinst, hrparent⟩ := hclean.current f hf
    have hrnamed : r.parentId = some p.id := by rw [hrparent, ← hfparent, hnamed]
    have hended : ∀ r' ∈ (a.exec sha256 σ.store).tasks, r'.inst ≠ r.inst := by
      intro r' hr' hinst
      obtain ⟨r₀, hr₀, hinst₀, hid₀, _⟩ :=
        livedIn_exec sha256 h.schema a r' hr' (by rw [hinst]; exact h.schema.inst_lt r hr)
      rw [hsame hr₀ hr (hinst₀.trans hinst)] at hid₀
      exact hgone r' hr' (hid₀.symm.trans hrid)
    have hrow' : row.inst = r.inst := by rw [hfinst, hrinst]
    obtain ⟨st, hst⟩ := exists_loggedAs hrow hnew
    rw [hrow'] at hst
    obtain ⟨row₁, hrow₁, hnew₁, _, hst₁⟩ := loggedAs_some hst
    refine ⟨(r.key, some st), mem_ended.2 ⟨r, hr, (h.parent r hr p hp).2 hrnamed, hended, by rw [hst]⟩, ?_⟩
    show st.isFailure = true
    rw [← hst₁]
    exact isFailure_of_finalFailures hrow₁ hnew₁ hf

private theorem Families.Kept.step (h : σ.Kept) (hclean : σ.Clean sha256 a) : (σ.step sha256 a).Kept := by
  have hsteps := a.steps sha256 σ.store
  have hs : (a.exec sha256 σ.store).Schema := h.schema.steps hsteps
  have hlived := livedIn_exec sha256 h.schema a
  have hsame {r : TaskRow} (hr : r ∈ σ.store.tasks) {c : TaskRow} (hc : c ∈ σ.store.tasks)
      (hinst : r.inst = c.inst) : r = c :=
    List.inj_on_of_nodup_map h.schema.insts hr hc hinst
  have holder : ∀ inst life, (σ.step sha256 a).parentOf inst = some life →
      life < (a.exec sha256 σ.store).nextInst := by
    intro inst life hlife
    unfold Families.step at hlife
    dsimp only at hlife
    split at hlife
    · exact Nat.lt_of_lt_of_le (h.older inst life hlife) hsteps.nextInst_le
    · exact parentLife_older hs hlife
  have hended {life : Nat} (hlife : σ.store.nextInst ≤ life) : σ.ended (a.exec sha256 σ.store) life = [] := by
    refine List.eq_nil_iff_forall_not_mem.2 fun e he => ?_
    obtain ⟨c, _, hparent, _⟩ := mem_ended.1 he
    have hlt := h.older _ _ hparent
    omega
  have hunborn {life : Nat} (hlife : σ.store.nextInst ≤ life) : (σ.step sha256 a).failures life = [] := by
    show recordFailures (σ.failures life) (σ.ended (a.exec sha256 σ.store) life) = []
    rw [h.unborn life hlife, hended hlife]
    rfl
  refine ⟨hs, fun c hc p hp => ?_, holder, fun life hlife => ?_, fun p hp => ?_⟩
  · show (if c.inst < σ.store.nextInst then σ.parentOf c.inst else (a.exec sha256 σ.store).parentLife c.inst) =
      some p.inst ↔ _
    by_cases hold : c.inst < σ.store.nextInst
    · rw [if_pos hold]
      obtain ⟨c₀, hc₀, hinst, _, hparent⟩ := hlived c hc hold
      rw [← hinst, ← hparent]
      by_cases hpold : p.inst < σ.store.nextInst
      · obtain ⟨p₀, hp₀, hpinst, hpid, _⟩ := hlived p hp hpold
        rw [← hpinst, ← hpid]
        exact h.parent c₀ hc₀ p₀ hp₀
      · -- the id of the new life is named by no row
        refine iff_of_false (fun hlife => ?_) ((hclean.unnamed p hp (by omega)).1 c₀ hc₀)
        exact hpold (h.older _ _ hlife)
    · rw [if_neg hold]
      exact parentLife_iff hs hc hp
  · exact hunborn (Nat.le_trans hsteps.nextInst_le hlife)
  · by_cases hold : p.inst < σ.store.nextInst
    · obtain ⟨p₀, hp₀, hinst, hid, _⟩ := hlived p hp hold
      rw [← hinst, ← hid]
      show recordFailures (σ.failures p₀.inst) (σ.ended (a.exec sha256 σ.store) p₀.inst) ≠ [] ↔ _
      have hunretried : ∀ e ∈ σ.ended (a.exec sha256 σ.store) p₀.inst, e.2 = some .completed →
          e.1 ∉ σ.failures p₀.inst := by
        intro e he hcompleted
        obtain ⟨c, hc, hparent, hgone, rfl⟩ := mem_ended.1 he
        exact hclean.unretried c hc hgone hcompleted p₀.inst hparent
      rw [recordFailures_ne_nil hunretried, h.told p₀ hp₀, fails_iff h hclean hp₀]
      constructor
      · rintro (⟨row, hrow, hfailed⟩ | ⟨row, hrow, _, hfailed⟩)
        · exact ⟨row, hclean.unpruned p₀ hp₀ row hrow hfailed, hfailed⟩
        · exact ⟨row, hrow, hfailed⟩
      · rintro ⟨row, hrow, hfailed⟩
        by_cases hnew : row ∈ σ.store.taskHistory
        · exact .inl ⟨row, hnew, hfailed⟩
        · exact .inr ⟨row, hrow, hnew, hfailed⟩
    · have hnew : σ.store.nextInst ≤ p.inst := by omega
      obtain ⟨hrows, hhistory⟩ := hclean.unnamed p hp hnew
      refine iff_of_false (not_not.2 (hunborn hnew)) ?_
      rintro ⟨row, hrow, hfailed⟩
      by_cases hmem : row ∈ σ.store.taskHistory
      · exact hhistory row hmem hfailed
      · obtain ⟨f, hf, _, hparent, _⟩ := logged_of_failure hrow hmem (.inl hfailed.1)
        obtain ⟨r, hr, _, _, hrparent⟩ := hclean.current f hf
        exact hrows r hr (by rw [hrparent, ← hparent, hfailed.2])

private theorem Families.Kept.resolves (h : σ.Kept) : σ.Resolves := by
  intro p hp hst hnone
  have hchildless : (σ.store.tasks.any (·.parentId == some p.id)) = false := by
    refine List.any_eq_false.2 fun c hc hnamed => ?_
    exact hnone c hc ((h.parent c hc p hp).2 (by simpa using hnamed))
  have hcount : 0 < σ.store.taskHistory.countP (fun row => row.parentId == some p.id && row.status == .failed) ↔
      σ.failures p.inst ≠ [] := by
    rw [h.told p hp, List.countP_pos_iff]
    simp only [Bool.and_eq_true, beq_iff_eq, TaskHistoryRow.FailedChildOf]
    constructor
    · rintro ⟨row, hrow, hnamed, hfailed⟩
      exact ⟨row, hrow, hfailed, hnamed⟩
    · rintro ⟨row, hrow, hfailed, hnamed⟩
      exact ⟨row, hrow, hnamed, hfailed⟩
  obtain ⟨failedCount, hfailed⟩ : ∃ n, n = σ.store.taskHistory.countP fun row =>
      row.parentId == some p.id && row.status == .failed := ⟨_, rfl⟩
  have hresolve : σ.store.tryResolveParent p.id =
      if 0 < failedCount then some (.failed s!"{failedCount} child task(s) failed") else some .readyToFinalize := by
    unfold Store.tryResolveParent
    rw [h.schema.taskById_eq hp, hfailed]
    dsimp only
    rw [hst, hchildless]
    rfl
  rw [← hfailed] at hcount
  rw [hresolve]
  refine ⟨fun hfail => ?_, fun hok => ?_⟩
  · rw [if_pos (hcount.2 hfail)]
    exact ⟨_, rfl⟩
  · rw [if_neg fun hpos => hcount.1 hpos hok]

end Runs

/-- In every run whose steps keep the count right a waiting parent without children in the queue is resolved as failed
exactly if a child of it has failed. -/
theorem parents_resolved (sha256 : List UInt8 → String) (σ : Families)
    (h : Runs Families.Start (Families.step sha256) (fun σ a => σ.Clean sha256 a) σ) : σ.Resolves := by
  have hkept : σ.Kept := by
    refine h.invariant (I := Families.Kept) (fun σ hstart => ?_) fun σ a hσ hclean => hσ.step hclean
    have hempty := hstart.fresh.tasks
    refine ⟨hstart.fresh.schema, fun c hc => ?_, fun inst life hlife => ?_, fun life _ => hstart.failures life,
      fun p hp => ?_⟩
    · rw [hempty] at hc
      cases hc
    · rw [hstart.parentOf] at hlife
      cases hlife
    · rw [hempty] at hp
      cases hp
  exact hkept.resolves

private def newFamilies : Families := ⟨openMemory, fun _ => none, fun _ => []⟩

private def familiesRun (actions : List Action) : Families := actions.foldl (Families.step sampleSha256) newFamilies

private theorem newFamilies_start : newFamilies.Start := ⟨openMemory_fresh, fun _ => rfl, fun _ => rfl⟩

/-- A child of the first task. -/
private def spawnedByFirst (taskType : String) : TaskSubmission :=
  { TaskSubmission.new taskType with parentId := some 1 }

/-- A parent that does not fail fast spawns two children and waits for them; both are running. -/
private def twoChildren : List Action :=
  [.submitDirect { TaskSubmission.new "p" with failFast := false } 0, .claimTask 1 1,
    .submitDirect (spawnedByFirst "a") 2,
    .submitDirect (spawnedByFirst "b") 2, .update (.setWaiting 1 none), .claimTask 2 3, .claimTask 3 3]

private def oneFails : Families := familiesRun (twoChildren ++ [.fail 2 "e" false 3 {} {} 4, .complete 3 {} 5])

/-- One child fails, the other one completes. -/
theorem failed_child_counted :
    oneFails.store.tryResolveParent 1 = some (.failed "1 child task(s) failed") ∧ oneFails.Resolves := by
  refine ⟨by decide +kernel, parents_resolved sampleSha256 _ (Runs.list (.start newFamilies_start) _ ?_)⟩
  exact ⟨by decide +kernel, by decide +kernel, by decide +kernel, by decide +kernel, by decide +kernel, by
    decide +kernel,
    by decide +kernel, by decide +kernel, by decide +kernel, trivial⟩

private def oneDeadLettered : Families := familiesRun (twoChildren ++ [.fail 2 "e" true 0 {} {} 4, .complete 3 {} 5])

/-- One child is dead-lettered: its parent is finalized. -/
theorem dead_letter_overlooked :
    ¬ ∀ σ : Families, Runs Families.Start (Families.step sampleSha256) (fun _ _ => True) σ → σ.Resolves := by
  intro h
  have hresolves := h oneDeadLettered (Runs.list (.start newFamilies_start) _ (Along.of_forall fun _ _ => trivial))
  have hwrong : ∃ p ∈ oneDeadLettered.store.tasks,
      p.status = .waiting ∧ (∀ c ∈ oneDeadLettered.store.tasks, oneDeadLettered.parentOf c.inst ≠ some p.inst) ∧
        oneDeadLettered.failures p.inst ≠ [] ∧
            oneDeadLettered.store.tryResolveParent p.id = some .readyToFinalize := by
    decide +kernel
  obtain ⟨p, hp, hst, hnone, hfailed, hready⟩ := hwrong
  obtain ⟨reason, hreason⟩ := (hresolves p hp hst hnone).1 hfailed
  rw [hready] at hreason
  cases hreason

end Taskmill
