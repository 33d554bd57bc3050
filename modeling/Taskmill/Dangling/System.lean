import Taskmill.Cascade
import Taskmill.Schema
import Taskmill.SubmitCases

/-!
# Dangling edges

An operation that takes a task out of the queue settles the edges that lead to it in a second transaction: after
`cancel_to_history` and `expire_tasks`, and after a terminal failure in `handle_failure`, `fail_dependents` is
called for every removed task.  `DepState` is the store together with the tasks that are still owed such a call; a
state is quiet when none is.  `handle_failure` owes the call from the moment it decides that the failure is final,
and the row itself may be deleted before or after the call, by whoever drains the batch of failures.

Not every remover makes the call, and some leave the outgoing edges of the removed task.  `DepStep.Clean` is the
condition under which a step leaves no dangling edge: it removes only tasks without edges, or tasks whose edges it
settles.
-/

namespace Taskmill

open Transact

/-- The store and the ids for which a `fail_dependents` call is still to come. -/
structure DepState where
  store : Store
  owed : List Int

/-- Steps of the store and of the operations that are several transactions. -/
inductive DepStep where
  /-- any transaction or statement -/
  | store (a : Action)
  /-- `handle_failure` of a child: `fail_with_record`, then the call -/
  | failInline (task : TaskRecord) (error : String) (retryable : Bool) (maxRetries : Int) (metrics : IoBudget)
      (backoff : FailBackoff) (now : Int)
  /-- `handle_failure` of a root task: the failure is queued for a batch, the call is made in any case -/
  | failQueued (task : TaskRecord)
  /-- a `fail_dependents` call that is owed -/
  | cascade (id now : Int)

/-- The calls that the operation of a transaction makes after it. -/
def Action.owes (s : Store) : Action → List Int
  | .cancelToHistory id now =>
    match (cancelToHistoryTx id now s).1 with
    | .ok true => [id]
    | _ => []
  | .cancelToHistoryWithRecord task now =>
    match (cancelToHistoryWithRecordTx task now s).1 with
    | .ok () => [task.id]
    | .error _ => []
  | .expireTasks now =>
    match (expireTasksTx now s).1 with
    | .ok expired => expired.map (·.id)
    | .error _ => []
  | _ => []

def DepStep.exec (sha256 : List UInt8 → String) (σ : DepState) : DepStep → DepState
  | .store a => { store := a.exec sha256 σ.store, owed := a.owes σ.store ++ σ.owed }
  | .failInline task error retryable maxRetries metrics backoff now =>
    { store := (failWithRecordTx task error retryable maxRetries metrics backoff now σ.store).2
      owed := if task.willRetry retryable maxRetries then σ.owed else task.id :: σ.owed }
  | .failQueued task => { σ with owed := task.id :: σ.owed }
  | .cascade id now => { store := (failDependents id now σ.store).2, owed := σ.owed.erase id }

/-- A new database, with nothing owed. -/
def DepState.Fresh (σ : DepState) : Prop := σ.store.Fresh ∧ σ.owed = []

/-- The states reached by steps that meet `guard`. -/
def DepReachable (sha256 : List UInt8 → String) (guard : DepState → DepStep → Prop) (σ : DepState) : Prop :=
  Runs DepState.Fresh (fun σ (a : DepStep) => a.exec sha256 σ) guard σ

/-! ### The condition on a step -/

/-- No edge leaves the task. -/
def Store.NoEdgeFrom (s : Store) (id : Int) : Prop := ∀ e ∈ s.taskDeps, e.1 ≠ id

/-- No edge leads to the task, unless its dependents are owed a visit. -/
def Store.NoEdgeTo (s : Store) (owed : List Int) (id : Int) : Prop := ∀ e ∈ s.taskDeps, e.2 = id → id ∈ owed

/-- No edge touches the rows that `p` selects. -/
def Store.Detached (s : Store) (owed : List Int) (p : TaskRow → Bool) : Prop :=
  ∀ r ∈ s.tasks, p r = true → s.NoEdgeFrom r.id ∧ s.NoEdgeTo owed r.id

/-- The submission deletes a running or waiting row and inserts another one, under another id. -/
def TaskSubmission.Replaces (sub : TaskSubmission) (sha256 : List UInt8 → String) (s : Store)
    (row : TaskRow) : Prop :=
  sub.validate = .ok () ∧ sub.onDuplicate = .supersede ∧ s.taskByKey (sub.effectiveKey sha256) = some row ∧
    (row.status = .running ∨ row.status = .waiting) ∧ (s.delete row.id).nextTaskId ≠ row.id

/-- A replaced row has no edges. -/
def TaskSubmission.Clean (sub : TaskSubmission) (sha256 : List UInt8 → String) (owed : List Int) (s : Store) : Prop :=
  ∀ row, sub.Replaces sha256 s row → s.Detached owed (·.id == row.id)

/-- The steps after which no edge dangles that is not owed a visit. -/
def Action.Clean (sha256 : List UInt8 → String) (owed : List Int) (s : Store) : Action → Prop
  | .submitDirect sub _ => sub.Clean sha256 owed s
  | .processSubmitBatch skipRequeue batch =>
    Along (fun s' m => (submitOne sha256 m.1 skipRequeue m.2 s').2) (fun s m => m.1.Clean sha256 owed s) s batch
  | .submitChunk skipRequeue last now chunk =>
    Along (fun s item => (submitItem sha256 skipRequeue last now item s).2)
      (fun s item => last item.1 (item.2.effectiveKey sha256) = true → item.2.Clean sha256 owed s) s chunk
  -- the edges to a completed task are deleted with it, its own are not
  | .completeBatch items _ => ∀ item ∈ items, s.NoEdgeFrom item.1.id
  -- nobody visits the dependents of these
  | .complete id .. => s.Detached owed fun r => r.id == id && !r.requeue
  | .completeWithRecord task .. => s.Detached owed fun r => r.id == task.id && !r.requeue
  | .fail id _ retryable maxRetries .. =>
    s.Detached owed fun r => r.id == id && !(rowToTaskRecord r).willRetry retryable maxRetries
  | .failWithRecord task _ retryable maxRetries .. =>
    s.Detached owed fun r => r.id == task.id && !task.willRetry retryable maxRetries
  | .failBatch items _ => ∀ item ∈ items, s.Detached owed (·.id == item.task.id)
  | .cancelChildren parent read _ =>
    s.Detached owed fun r => !read.isEmpty && r.parentId == some parent && r.pendingOrPaused
  | .expireSingle id now => s.Detached owed fun r => r.id == id && r.past now && r.pendingOrPaused
  | .delete id => s.Detached owed (·.id == id)
  -- the outgoing edges of an expired task are deleted, those of its children are not
  | .expireTasks now =>
    ∀ p ∈ s.expiredRows now, ∀ r ∈ s.tasks, r.parentId = some p.id → r.pendingOrPaused = true → s.NoEdgeFrom r.id
  | _ => True

def DepStep.Clean (sha256 : List UInt8 → String) (σ : DepState) : DepStep → Prop
  | .store a => a.Clean sha256 σ.owed σ.store
  | .failInline task _ retryable maxRetries .. =>
    task.willRetry retryable maxRetries = false → σ.store.NoEdgeFrom task.id
  | .failQueued _ => True
  | .cascade .. => σ.store.HistoryTagsOwned

/-! ### What an operation takes away -/

/-- Only rows whose id is `gone` are missing, and no edge is new. -/
structure Removes (gone : Int → Prop) (s s' : Store) : Prop where
  deps : ∀ e ∈ s'.taskDeps, e ∈ s.taskDeps
  ids : ∀ id ∈ s.ids, id ∈ s'.ids ∨ gone id

namespace Removes

variable {gone gone' : Int → Prop} {s s' s'' : Store}

theorem trans (h₁ : Removes gone s s') (h₂ : Removes gone' s' s'') : Removes (fun i => gone i ∨ gone' i) s s'' := by
  refine ⟨fun e he => h₁.deps e (h₂.deps e he), fun id hid => ?_⟩
  rcases h₁.ids id hid with h | h
  · rcases h₂.ids id h with h | h
    · exact .inl h
    · exact .inr (.inr h)
  · exact .inr (.inl h)

theorem mono (h : Removes gone s s') (hg : ∀ id, gone id → gone' id) : Removes gone' s s' :=
  ⟨h.deps, fun id hid => (h.ids id hid).imp_right (hg id)⟩

/-- Further statements that take away no row. -/
theorem keep (h₁ : Removes gone s s') (h₂ : Removes (fun _ => False) s' s'') : Removes gone s s'' :=
  (h₁.trans h₂).mono fun _ h => h.elim (fun h => h) False.elim

/-- The same rows and edges, up to changes of other columns. -/
theorem of_eq (hi : s'.ids = s.ids) (hd : s'.taskDeps = s.taskDeps) : Removes (fun _ => False) s s' := by
  refine ⟨fun e he => ?_, fun id hid => ?_⟩
  · rwa [hd] at he
  · rw [hi]
    exact .inl hid

theorem congr (h : Removes gone s s') (hi : s''.ids = s'.ids) (hd : s''.taskDeps = s'.taskDeps) :
    Removes gone s s'' :=
  h.keep (of_eq hi hd)

theorem update (s : Store) (p : TaskRow → Bool) {f : TaskRow → TaskRow} (hf : ∀ r, (f r).id = r.id) :
    Removes (fun _ => False) s (s.updateTasks p f) := of_eq (s.ids_updateTasks p hf) rfl

theorem delete (s : Store) (p : TaskRow → Bool) :
    Removes (fun i => ∃ r ∈ s.tasks, r.id = i ∧ p r = true) s (s.deleteTasks p) := by
  refine ⟨fun _ h => h, fun id hid => ?_⟩
  obtain ⟨r, hr, rfl⟩ := List.mem_map.1 hid
  by_cases h : p r = true
  · exact .inr ⟨r, hr, rfl, h⟩
  · exact .inl (List.mem_map.2 ⟨r, List.mem_filter.2 ⟨hr, by simpa using h⟩, rfl⟩)

theorem add (s : Store) (row : TaskRow) : Removes (fun _ => False) s (s.addTask row) := by
  refine ⟨fun _ h => h, fun id hid => .inl ?_⟩
  rw [Store.ids, Store.addTask_tasks, List.map_append]
  exact List.mem_append_left _ hid

theorem deleteEdges (s : Store) (p : Int × Int → Bool) :
    Removes (fun _ => False) s { s with taskDeps := s.taskDeps.filter p } :=
  ⟨fun _ he => List.mem_of_mem_filter he, fun _ h => .inl h⟩

/-- The remaining edges are within `owed'` if none leaves a missing row and those into one are owed. -/
theorem edgesWithin {owed owed' : List Int} (h : Removes gone s s') (hs : EdgesWithin owed s)
    (hout : ∀ e ∈ s'.taskDeps, ¬ gone e.1) (hin : ∀ e ∈ s'.taskDeps, gone e.2 → e.2 ∈ owed')
    (howed : ∀ id ∈ owed, id ∈ owed') : EdgesWithin owed' s' := by
  intro e he
  obtain ⟨h₁, h₂⟩ := hs e (h.deps e he)
  constructor
  · rcases h.ids _ h₁ with hi | hi
    · exact hi
    · exact absurd hi (hout e he)
  · rcases h₂ with h₂ | h₂
    · rcases h.ids _ h₂ with hi | hi
      · exact .inl hi
      · exact .inr (hin e he hi)
    · exact .inr (howed _ h₂)

/-- A step that takes away detached rows only. -/
theorem detached {owed : List Int} {p : TaskRow → Bool}
    (h : Removes (fun i => ∃ r ∈ s.tasks, r.id = i ∧ p r = true) s s') (hs : EdgesWithin owed s)
    (hp : s.Detached owed p) : EdgesWithin owed s' := by
  refine h.edgesWithin hs (fun e he => ?_) (fun e he => ?_) fun _ h => h
  · rintro ⟨r, hr, hid, hpr⟩
    exact (hp r hr hpr).1 e (h.deps e he) hid.symm
  · rintro ⟨r, hr, hid, hpr⟩
    have := (hp r hr hpr).2 e (h.deps e he) hid.symm
    rwa [hid] at this

/-- A step that takes away no row. -/
theorem none {owed : List Int} (h : Removes (fun _ => False) s s') (hs : EdgesWithin owed s) : EdgesWithin owed s' :=
  h.edgesWithin hs (fun _ _ h => h) (fun _ _ h => h.elim) fun _ h => h

end Removes

end Taskmill
