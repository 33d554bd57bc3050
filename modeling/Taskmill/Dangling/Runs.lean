import Taskmill.Acyclicity
import Taskmill.Dangling.System
import Taskmill.Survival

/-!
# Dangling edges: operations and runs

What each operation takes away, and that a run of clean steps leaves no dangling edge in a quiet state.
-/

namespace Taskmill

open Transact

private theorem within_transaction {α : Type} {x : Sql α} {owed : List Int} {s : Store}
    (hx : ∀ a s', x s = (.ok a, s') → EdgesWithin owed s') (hs : EdgesWithin owed s) :
    EdgesWithin owed (transaction x s).2 := by
  rcases h : transaction x s with ⟨e | a, s'⟩
  · obtain ⟨_, _, rfl⟩ := transaction_error h
    exact hs
  · exact hx a s' (transaction_ok h)

/-! ### Completion -/

section Completion

variable {now : Int}

private theorem removes_createNextInstance {task : TaskRecord} {tags : List (String × String)} {interval : Int}
    {s s' : Store} {result : Option (Int × Int)}
    (h : createNextInstance task tags interval now s = (.ok result, s')) :
    Removes (fun _ => False) s s' := by
  obtain ⟨s₀, _, h₀, h⟩ := Txn.bind_ok h
  cases h₀
  split at h
  · cases h
    exact .of_eq rfl rfl
  · obtain ⟨nextId, s₁, h₁, h⟩ := Txn.bind_ok h
    obtain ⟨rfl, rfl⟩ := insertTask_ok h₁
    obtain ⟨_, s₂, h₂, h⟩ := Txn.bind_ok h
    obtain ⟨tt, rfl⟩ := insertTags_leaves h₂
    obtain ⟨groupPaused, _, h₃, h⟩ := Txn.bind_ok h
    cases h₃
    obtain ⟨_, s₄, h₄, h⟩ := Txn.bind_ok h
    cases h
    cases h₄
    have hadd := Removes.add s (task.nextInstance interval now)
    have htags : Removes (fun _ => False) s ((s.addTask (task.nextInstance interval now)).withTags tt) :=
      hadd.keep (.of_eq rfl rfl)
    dsimp only
    split
    · exact htags.keep (.update _ _ (by intro r; rfl))
    · exact htags

private theorem removes_completeInner {task : TaskRecord} {metrics : IoBudget} {skipTags : Bool} {s s' : Store}
    {result : Option (Int × Int)} (h : completeInner task metrics skipTags now s = (.ok result, s')) :
    Removes (fun i => ∃ r ∈ s.tasks, r.id = i ∧ (r.id == task.id && !r.requeue) = true) s s' := by
  obtain ⟨_, s₁, h₁, h⟩ := Txn.bind_ok h
  obtain ⟨tags, rfl⟩ := insertHistory_leaves h₁
  obtain ⟨savedTags, _, h₂, h⟩ := Txn.bind_ok h
  cases h₂
  obtain ⟨deleted, s₃, h₃, h⟩ := Txn.bind_ok h
  cases h₃
  have hdel : Removes (fun i => ∃ r ∈ s.tasks, r.id = i ∧ (r.id == task.id && !r.requeue) = true) s
      ((s.log (historyRow s.nextHistoryId task .completed metrics (computeDurationMs now task) task.lastError now)
        tags).deleteTasks fun r => r.id == task.id && !r.requeue) :=
    (Removes.delete s _).keep (.of_eq rfl rfl)
  split at h
  · obtain ⟨_, s₄, h₄, h⟩ := Txn.bind_ok h
    cases h
    cases h₄
    exact hdel.keep (.of_eq (Store.ids_updateTasks _ _ fun _ => rfl) rfl)
  · obtain ⟨_, s₄, h₄, h⟩ := Txn.bind_ok h
    have hs₄ : Removes (fun i => ∃ r ∈ s.tasks, r.id = i ∧ (r.id == task.id && !r.requeue) = true) s s₄ := by
      cases h₄
      dsimp only
      split
      · exact hdel
      · exact hdel.keep (.of_eq rfl rfl)
    cases hrec : task.recurs with
    | none =>
      simp only [hrec] at h
      cases h
      exact hs₄
    | some interval =>
      simp only [hrec] at h
      exact hs₄.keep (removes_createNextInstance h)

/-- The deletion of edges and what follows it takes away no row. -/
private theorem removes_release {dependents : List Int} {s s' : Store} {unblocked : List Int}
    (h : (if dependents.isEmpty then pure [] else do
        let unblocked ← unblock dependents
        Txn.modify fun s => s.pauseUnblocked unblocked now
        pure unblocked : Sql (List Int)) s = (.ok unblocked, s')) :
    Removes (fun _ => False) s s' := by
  split at h
  · cases h
    exact .of_eq rfl rfl
  · obtain ⟨ids, s₁, h₁, h⟩ := Txn.bind_ok h
    obtain ⟨_, s₂, h₂, h⟩ := Txn.bind_ok h
    cases h
    cases h₁
    cases h₂
    refine .of_eq ?_ rfl
    exact (Store.ids_updateTasks _ _ (by intro r; rfl)).trans (Store.ids_updateTasks _ _ (by intro r; rfl))

private theorem removes_resolveDependentsInner {id : Int} {s s' : Store} {unblocked : List Int}
    (h : resolveDependentsInner id now s = (.ok unblocked, s')) :
    Removes (fun _ => False) s s' ∧ ∀ e ∈ s'.taskDeps, e.2 ≠ id := by
  obtain ⟨dependents, s₁, h₁, h⟩ := Txn.bind_ok h
  have hrel := removes_release h
  cases h₁
  refine ⟨(Removes.deleteEdges s _).keep hrel, fun e he => ?_⟩
  have := (List.mem_filter.1 (hrel.deps e he)).2
  simpa using this

/-- The edges to a completed task go with it, so only its own edges could be left. -/
private theorem within_completeAndResolve {owed : List Int} {skipTags : Bool} {item : TaskRecord × IoBudget}
    {s s' : Store} {result : Int × Option (Int × Int) × List Int}
    (h : completeAndResolve skipTags now item s = (.ok result, s')) (hs : EdgesWithin owed s)
    (hout : s.NoEdgeFrom item.1.id) : EdgesWithin owed s' ∧ ∀ e ∈ s'.taskDeps, e ∈ s.taskDeps := by
  obtain ⟨recurring, s₁, h₁, h⟩ := Txn.bind_ok h
  obtain ⟨unblocked, s₂, h₂, h⟩ := Txn.bind_ok h
  cases h
  obtain ⟨hres, hto⟩ := removes_resolveDependentsInner h₂
  have hrem := (removes_completeInner h₁).keep hres
  refine ⟨hrem.edgesWithin hs (fun e he => ?_) (fun e he => ?_) fun _ h => h, hrem.deps⟩
  · rintro ⟨r, _, hid, hp⟩
    rw [Bool.and_eq_true, beq_iff_eq] at hp
    exact hout e (hrem.deps e he) (hid.symm.trans hp.1)
  · rintro ⟨r, _, hid, hp⟩
    rw [Bool.and_eq_true, beq_iff_eq] at hp
    exact absurd (hid.symm.trans hp.1) (hto e he)

private theorem within_completeAndResolve_loop {owed : List Int} {skipTags : Bool}
    (items : List (TaskRecord × IoBudget)) {s s' : Store} {results : List (Int × Option (Int × Int) × List Int)}
    (h : Txn.mapList (completeAndResolve skipTags now) items s = (.ok results, s')) (hs : EdgesWithin owed s)
    (hout : ∀ item ∈ items, s.NoEdgeFrom item.1.id) : EdgesWithin owed s' := by
  induction items generalizing s results with
  | nil =>
    cases h
    exact hs
  | cons item items ih =>
    obtain ⟨result, s₁, h₁, h⟩ := Txn.bind_ok h
    obtain ⟨rest, s₂, h₂, h⟩ := Txn.bind_ok h
    cases h
    obtain ⟨hs₁, hdeps⟩ := within_completeAndResolve h₁ hs (hout item (List.mem_cons_self ..))
    exact ih h₂ hs₁ fun item' hitem' e he => hout item' (List.mem_cons_of_mem _ hitem') e (hdeps e he)

private theorem removes_foldl_resetRequeued (ids : List Int) (s : Store) :
    Removes (fun _ => False) s (ids.foldl Store.resetRequeued s) := by
  induction ids generalizing s with
  | nil => exact .of_eq rfl rfl
  | cons id ids ih =>
    have hreset : Removes (fun _ => False) s (s.resetRequeued id) :=
      .of_eq (Store.ids_updateTasks s (·.id == id) fun _ => rfl) rfl
    exact hreset.keep (ih _)

private theorem within_completeBatchFast {owed : List Int} {skipTags : Bool} {items : List (TaskRecord × IoBudget)}
    {s s' : Store} {unblocked : List Int} (h : completeBatchFast skipTags now items s = (.ok unblocked, s'))
    (hs : EdgesWithin owed s) (hout : ∀ item ∈ items, s.NoEdgeFrom item.1.id) : EdgesWithin owed s' := by
  obtain ⟨_, s₁, h₁, h⟩ := Txn.bind_ok h
  obtain ⟨rows, tags, rfl⟩ := mapList_history (fun _ _ _ _ => insertHistory_leaves) h₁
  obtain ⟨deleted, s₂, h₂, h⟩ := Txn.bind_ok h
  obtain ⟨_, s₃, h₃, h⟩ := Txn.bind_ok h
  obtain ⟨_, s₄, h₄, h⟩ := Txn.bind_ok h
  obtain ⟨dependents, s₅, h₅, h⟩ := Txn.bind_ok h
  have hlog : Removes (fun _ => False) s (s.logAll rows tags) := .of_eq rfl rfl
  have hdel : Removes (fun i => i ∈ items.map (·.1.id)) s s₂ := by
    cases h₂
    refine Removes.mono (hlog.trans (Removes.delete _ _)) fun i hi => ?_
    rcases hi with hi | ⟨r, _, hid, hp⟩
    · exact hi.elim
    · rw [Bool.and_eq_true, List.contains_iff_mem] at hp
      rw [← hid]
      exact hp.1
  have hreset : Removes (fun _ => False) s₂ s₃ := by
    cases h₃
    exact removes_foldl_resetRequeued _ _
  have htags : Removes (fun _ => False) s₃ s₄ := by
    cases h₄
    dsimp only
    split
    · exact .of_eq rfl rfl
    · exact .of_eq rfl rfl
  have hrel := removes_release h
  cases h₅
  have hrem := (((hdel.keep hreset).keep htags).keep (Removes.deleteEdges s₄ _)).keep hrel
  refine hrem.edgesWithin hs (fun e he hgone => ?_) (fun e he hgone => ?_) fun _ h => h
  · obtain ⟨item, hitem, hid⟩ := List.mem_map.1 hgone
    exact hout item hitem e (hrem.deps e he) hid.symm
  · have := (List.mem_filter.1 (hrel.deps e he)).2
    rw [Bool.not_eq_true', ← Bool.not_eq_true, List.contains_iff_mem] at this
    exact absurd hgone this

private theorem within_completeBatchTx {owed : List Int} {items : List (TaskRecord × IoBudget)} {s : Store}
    (hs : EdgesWithin owed s) (hout : ∀ item ∈ items, s.NoEdgeFrom item.1.id) :
    EdgesWithin owed (completeBatchTx items now s).2 := by
  rw [completeBatchTx.eq_def]
  split
  · exact hs
  · rw [Txn.bind_pure_state]
    exact within_transaction
      (fun a s' h => (within_completeAndResolve h hs (hout _ (List.mem_cons_self ..))).1) hs
  · split
    · exact within_transaction (fun a s' h => within_completeAndResolve_loop items h hs hout) hs
    · rw [Txn.bind_pure_state]
      exact within_transaction (fun a s' h => within_completeBatchFast h hs hout) hs

end Completion

/-! ### Failure and cancellation -/

section Failure

variable {now : Int} {owed : List Int}

private theorem removes_failInner {task : TaskRecord} {error : String} {retryable : Bool} {maxRetries : Int}
    {metrics : IoBudget} {backoff : FailBackoff} {s s' : Store} {u : Unit}
    (h : failInner task error retryable maxRetries metrics backoff now s = (.ok u, s')) :
    Removes (fun i => ∃ r ∈ s.tasks, r.id = i ∧ (r.id == task.id && !task.willRetry retryable maxRetries) = true) s
      s' := by
  rw [failInner] at h
  split at h
  · cases h
    exact Removes.mono (.update s (·.id == task.id) (by intro r; rfl)) fun _ h => h.elim
  · rename_i hretry
    obtain ⟨_, s₁, h₁, h⟩ := Txn.bind_ok h
    obtain ⟨tags, rfl⟩ := insertHistory_leaves h₁
    cases h
    refine Removes.mono ((Removes.delete s (·.id == task.id)).congr rfl rfl) fun i hi => ?_
    obtain ⟨r, hr, hid, hp⟩ := hi
    exact ⟨r, hr, hid, by simp [hp, Bool.eq_false_of_not_eq_true hretry]⟩

private theorem within_failBatchTx {items : List FailureItem} {s : Store} (hs : EdgesWithin owed s)
    (hd : ∀ item ∈ items, s.Detached owed (·.id == item.task.id)) : EdgesWithin owed (failBatchTx items now s).2 := by
  rw [failBatchTx.eq_def]
  split
  · exact hs
  · rename_i item
    refine within_transaction (fun a s' h => ?_) hs
    refine (removes_failInner h).detached hs fun r hr hp => hd item (List.mem_cons_self ..) r hr ?_
    rw [Bool.and_eq_true] at hp
    exact hp.1
  · refine within_transaction (fun a s' h => ?_) hs
    obtain ⟨_, s₁, h₁, h⟩ := Txn.bind_ok h
    obtain ⟨rows, tags, rfl⟩ := mapList_history (fun _ _ _ _ => insertHistory_leaves) h₁
    obtain ⟨_, s₂, h₂, h⟩ := Txn.bind_ok h
    cases h₂
    have hdel := Removes.delete s fun r => (items.map (·.task.id)).contains r.id
    have hs' : Removes _ s s' := hdel.keep (by
      cases h
      dsimp only
      split
      · exact .of_eq rfl rfl
      · exact .of_eq rfl rfl)
    refine hs'.detached hs fun r hr hp => ?_
    obtain ⟨item, hitem, hid⟩ := List.mem_map.1 (List.contains_iff_mem.1 hp)
    exact hd item hitem r hr (by simp [hid])

private theorem removes_cancelInner {task : TaskRecord} {s s' : Store} {u : Unit}
    (h : cancelInner task now s = (.ok u, s')) :
    Removes (fun i => i = task.id) s s' ∧ ∀ e ∈ s'.taskDeps, e.1 ≠ task.id := by
  obtain ⟨_, s₁, h₁, h⟩ := Txn.bind_ok h
  obtain ⟨tags, rfl⟩ := insertHistory_leaves h₁
  cases h
  refine ⟨?_, fun e he => ?_⟩
  · have hedges : Removes (fun _ => False) s (s.deleteEdgesFrom task.id) := Removes.deleteEdges s _
    have hdel := hedges.trans (Removes.delete (s.deleteEdgesFrom task.id) (·.id == task.id))
    refine Removes.mono (hdel.congr rfl rfl) fun i hi => ?_
    rcases hi with hi | ⟨r, _, hid, hp⟩
    · exact hi.elim
    · rw [← hid]
      simpa using hp
  · have := (List.mem_filter.1 he).2
    simpa using this

private theorem within_cancelInner {task : TaskRecord} {s s' : Store} {u : Unit}
    (h : cancelInner task now s = (.ok u, s')) (hs : EdgesWithin owed s) : EdgesWithin (task.id :: owed) s' := by
  obtain ⟨hrem, hout⟩ := removes_cancelInner h
  refine hrem.edgesWithin hs (fun e he hgone => hout e he hgone) (fun e he hgone => ?_) fun i hi =>
    List.mem_cons_of_mem _ hi
  rw [hgone]
  exact List.mem_cons_self ..

private theorem within_cancelChildrenTx {parent : Int} {read : List TaskRow} {s : Store} (hs : EdgesWithin owed s)
    (hd : s.Detached owed fun r => !read.isEmpty && r.parentId == some parent && r.pendingOrPaused) :
    EdgesWithin owed (cancelChildrenTx parent read now s).2 := by
  rw [cancelChildrenTx]
  split
  · exact hs
  · rename_i hread
    refine within_transaction (fun a s' h => ?_) hs
    obtain ⟨_, s₁, h₁, h⟩ := Txn.bind_ok h
    obtain ⟨rows, tags, rfl⟩ := mapList_history (fun _ _ _ _ => insertHistory_leaves) h₁
    cases h
    have hdel := Removes.delete s fun r => r.parentId == some parent && r.pendingOrPaused
    refine Removes.detached (hdel.congr rfl rfl) hs fun r hr hp => hd r hr ?_
    simpa [Bool.eq_false_of_not_eq_true hread] using hp

end Failure

/-! ### Expiry -/

section Expiry

variable {now : Int} {owed : List Int}

private theorem within_expireWithChildren {row : TaskRow} {s s' : Store} {expired : List TaskRecord}
    (h : expireWithChildren now row s = (.ok expired, s')) (hs : EdgesWithin owed s)
    (hc : ∀ r ∈ s.tasks, r.parentId = some row.id → r.pendingOrPaused = true → s.NoEdgeFrom r.id) :
    EdgesWithin (expired.map (·.id) ++ owed) s' := by
  obtain ⟨gone, hexp, hgone, htasks, hdeps⟩ := expireWithChildren_ok h
  have hrem : Removes (fun i => i ∈ gone ++ [row.id]) s s' := by
    refine ⟨fun e he => ?_, fun i hi => ?_⟩
    · rw [hdeps] at he
      exact List.mem_of_mem_filter he
    · obtain ⟨r, hr, rfl⟩ := List.mem_map.1 hi
      by_cases hg : r.id ∈ gone ++ [row.id]
      · exact .inr hg
      · refine .inl (List.mem_map.2 ⟨r, ?_, rfl⟩)
        rw [htasks]
        exact List.mem_filter.2 ⟨hr, by simpa using hg⟩
  rw [hexp]
  refine hrem.edgesWithin hs (fun e he hg => ?_) (fun e _ hg => List.mem_append_left _ hg)
    fun i hi => List.mem_append_right _ hi
  rcases List.mem_append.1 hg with hg | hg
  · obtain ⟨r, hr, hid, hpar, hpp⟩ := hgone _ hg
    exact hc r hr hpar hpp e (hrem.deps e he) hid.symm
  · rw [List.mem_singleton] at hg
    rw [hdeps] at he
    have := (List.mem_filter.1 he).2
    simp [hg] at this

/-- The sweep only deletes, so the condition on the children can be checked before it. -/
private theorem within_expire_loop {rows : List TaskRow} {s s' : Store} {expired : List (List TaskRecord)}
    (h : Txn.mapList (expireWithChildren now) rows s = (.ok expired, s')) (hs : EdgesWithin owed s)
    (hc : ∀ row ∈ rows, ∀ r ∈ s.tasks, r.parentId = some row.id → r.pendingOrPaused = true → s.NoEdgeFrom r.id) :
    EdgesWithin (expired.flatten.map (·.id) ++ owed) s' := by
  induction rows generalizing s owed expired with
  | nil =>
    cases h
    exact hs
  | cons row rows ih =>
    obtain ⟨first, s₁, h₁, h⟩ := Txn.bind_ok h
    obtain ⟨rest, s₂, h₂, h⟩ := Txn.bind_ok h
    cases h
    have hs₁ := within_expireWithChildren h₁ hs (hc row (List.mem_cons_self ..))
    obtain ⟨gone, _, _, htasks, hdeps⟩ := expireWithChildren_ok h₁
    have hrest := ih h₂ hs₁ fun row' hrow' r hr hpar hpp e he => by
      rw [htasks] at hr
      rw [hdeps] at he
      exact hc row' (List.mem_cons_of_mem _ hrow') r (List.mem_of_mem_filter hr) hpar hpp e
        (List.mem_of_mem_filter he)
    refine hrest.mono fun i hi => ?_
    rw [List.flatten_cons, List.map_append, List.append_assoc]
    rcases List.mem_append.1 hi with hi | hi
    · exact List.mem_append_right _ (List.mem_append_left _ hi)
    · rcases List.mem_append.1 hi with hi | hi
      · exact List.mem_append_left _ hi
      · exact List.mem_append_right _ (List.mem_append_right _ hi)

end Expiry

/-! ### Submission -/

section Submission

variable {now : Int} {owed : List Int} {s : Store} {sub : TaskSubmission}

private theorem EdgesWithin.congr {s' : Store} (h : EdgesWithin owed s) (hi : s'.ids = s.ids)
    (hd : s'.taskDeps = s.taskDeps) : EdgesWithin owed s' :=
  (Removes.of_eq hi hd).none h

/-- The new edges lead from the new row to rows that are there. -/
private theorem EdgesWithin.addEdges (h : EdgesWithin owed s) {taskId : Int} (ht : taskId ∈ s.ids) {active : List Int}
    (ha : ∀ dep ∈ active, dep ∈ s.ids) : EdgesWithin owed (s.addEdges (edgesFrom taskId active)) := by
  intro e he
  rcases List.mem_append.1 he with he | he
  · exact h e he
  · obtain ⟨h₁, h₂⟩ := mem_edgesFrom.1 he
    rw [h₁]
    exact ⟨ht, .inl (ha _ h₂)⟩

private theorem within_attachDependencies {taskId : Int} {deps : List Int} {policy : DependencyFailurePolicy}
    (hs : EdgesWithin owed s) (ht : taskId ∈ s.ids) :
    EdgesWithin owed (attachDependencies taskId deps policy s).2 := by
  rw [attachDependencies_apply]
  cases hact : s.activeDeps policy deps with
  | error e => exact hs
  | ok active =>
    have hadd := hs.addEdges ht fun dep hdep => (activeDeps_subset hact dep hdep).2
    dsimp only
    split
    · exact hs
    · split
      · split
        · exact hadd
        · exact hadd.congr (Store.ids_updateTasks _ _ fun _ => rfl) rfl
      · exact hs

private theorem within_finishInsert {taskId : Int} (hs : EdgesWithin owed s) (ht : taskId ∈ s.ids) :
    EdgesWithin owed (finishInsert sub taskId now s).2 := by
  obtain ⟨tags, hierarchy, hasTags, ⟨_, h⟩ | ⟨_, ⟨e, s₂, hatt, h⟩ | ⟨s₂, hatt, h⟩⟩⟩ :=
    finishInsert_cases sub taskId now s
  · rw [h]
    exact hs.congr rfl rfl
  · have hs₁ : EdgesWithin owed (s.tagged tags hierarchy hasTags) := hs.congr rfl rfl
    have hs₂ : EdgesWithin owed (attachDependencies taskId sub.dependencies sub.onDependencyFailure
        (s.tagged tags hierarchy hasTags)).2 := within_attachDependencies hs₁ ht
    rw [h]
    rwa [hatt] at hs₂
  · have hs₁ : EdgesWithin owed (s.tagged tags hierarchy hasTags) := hs.congr rfl rfl
    have hs₂ : EdgesWithin owed (attachDependencies taskId sub.dependencies sub.onDependencyFailure
        (s.tagged tags hierarchy hasTags)).2 := within_attachDependencies hs₁ ht
    rw [hatt] at hs₂
    rw [h, Store.pauseNew]
    split
    · exact hs₂.congr (Store.ids_updateTasks _ _ fun _ => rfl) rfl
    · exact hs₂

private theorem within_skipExisting {key : String} {priority : Priority} {skipRequeue : Bool}
    (hs : EdgesWithin owed s) :
    EdgesWithin owed (skipExisting key priority skipRequeue s).2 := by
  refine skipExisting_state hs (hs.congr (Store.ids_updateTasks _ _ ?_) rfl)
    (hs.congr (Store.ids_updateTasks _ _ ?_) rfl)
  · exact fun _ => rfl
  · exact fun _ => rfl

/-- The deleted row comes back under its own id, or no edge touches it. -/
private theorem within_supersedeReplace {key : String} {row : TaskRow} (hs : EdgesWithin owed s) (hschema : s.Schema)
    (hrow : s.taskByKey key = some row)
    (hd : (s.delete row.id).nextTaskId ≠ row.id → s.Detached owed (·.id == row.id)) :
    EdgesWithin owed (supersedeReplace sub key row.id now s).2 := by
  obtain ⟨tags, h⟩ := supersedeReplace_state sub now hschema hrow
  rw [h]
  refine EdgesWithin.congr ?_ rfl rfl
  have hdel : Removes (fun i => ∃ r ∈ s.tasks, r.id = i ∧ (r.id == row.id) = true) s (s.delete row.id) :=
    (Removes.delete s (·.id == row.id)).congr rfl rfl
  have hadd := hdel.keep (Removes.add (s.delete row.id) (sub.baseRow key now))
  by_cases hid : (s.delete row.id).nextTaskId = row.id
  · refine Removes.none ⟨hadd.deps, fun i hi => .inl ?_⟩ hs
    rcases hadd.ids i hi with h | ⟨r, _, hri, hr⟩
    · exact h
    · refine List.mem_map.2 ⟨_, List.mem_append_right _ (List.mem_singleton_self _), ?_⟩
      show (s.delete row.id).nextTaskId = i
      rw [hid, ← hri]
      exact (beq_iff_eq.1 hr).symm
  · exact hadd.detached hs (hd hid)

private theorem within_supersedeExisting {key : String} (hs : EdgesWithin owed s) (hschema : s.Schema)
    (hd : ∀ row, s.taskByKey key = some row → row.status = .running ∨ row.status = .waiting →
      (s.delete row.id).nextTaskId ≠ row.id → s.Detached owed (·.id == row.id)) :
    EdgesWithin owed (supersedeExisting sub key now s).2 := by
  have hlog (entry : TaskHistoryRow) (tags : List (Int × String × String)) : EdgesWithin owed (s.log entry tags) :=
    hs.congr rfl rfl
  refine supersedeExisting_state hs (fun _ _ => hlog) (fun existing hrow _ entry tags => ?_)
    fun existing hrow hst entry tags => ?_
  · have hids := Store.ids_updateTasks (s.log entry tags) (·.id == existing.id)
      (f := sub.supersedeRow (s.log entry tags).nextInst now) fun _ => rfl
    obtain ⟨tt, h⟩ := supersedeInPlace_state sub existing.id now (s.log entry tags)
    rw [h]
    exact (hlog entry tags).congr hids rfl
  · refine within_supersedeReplace (hlog entry tags) ?_ hrow (hd existing hrow hst)
    exact hschema.stmt (b := false) (.history s _ tags)

private theorem within_submitOne {sha256 : List UInt8 → String} {skipRequeue : Bool} (hs : EdgesWithin owed s)
    (hschema : s.Schema) (hc : sub.Clean sha256 owed s) :
    EdgesWithin owed (submitOne sha256 sub skipRequeue now s).2 := by
  cases hv : sub.validate with
  | error e =>
    rw [submitOne_invalid hv]
    exact hs
  | ok u =>
    cases hk : s.taskByKey (sub.effectiveKey sha256) with
    | none =>
      rw [submitOne_fresh hv hk]
      refine within_finishInsert ((Removes.add s _).none hs) ?_
      exact List.mem_map.2 ⟨_, List.mem_append_right _ (List.mem_singleton_self _), rfl⟩
    | some row =>
      rw [submitOne_duplicate hv hk]
      cases hdup : sub.onDuplicate with
      | skip => exact within_skipExisting hs
      | supersede =>
        exact within_supersedeExisting hs hschema fun row' hrow' hst hid => hc row' ⟨hv, hdup, hrow', hst, hid⟩
      | reject => exact hs

private theorem within_submitEach {sha256 : List UInt8 → String} {skipRequeue : Bool}
    (batch : List (TaskSubmission × Int)) {s : Store} (hs : EdgesWithin owed s) (hschema : s.Schema)
    (ha : Along (fun s m => (submitOne sha256 m.1 skipRequeue m.2 s).2)
      (fun s m => m.1.Clean sha256 owed s) s batch) :
    EdgesWithin owed (submitEach sha256 skipRequeue batch s).2 := by
  induction batch generalizing s with
  | nil => exact hs
  | cons m batch ih => exact ih (within_submitOne hs hschema ha.1) (hschema.steps (steps_submitOne s)) ha.2

private theorem within_submitChunk {sha256 : List UInt8 → String} {skipRequeue : Bool} {last : Nat → String → Bool}
    (chunk : List (Nat × TaskSubmission)) {s s' : Store} {results : List SubmitOutcome} (hs : EdgesWithin owed s)
    (hschema : s.Schema)
    (ha : Along (fun s item => (submitItem sha256 skipRequeue last now item s).2)
      (fun s item => last item.1 (item.2.effectiveKey sha256) = true → item.2.Clean sha256 owed s) s chunk)
    (h : Txn.mapList (submitItem sha256 skipRequeue last now) chunk s = (.ok results, s')) : EdgesWithin owed s' := by
  induction chunk generalizing s results with
  | nil =>
    cases h
    exact hs
  | cons item chunk ih =>
    obtain ⟨result, s₁, h₁, h⟩ := Txn.bind_ok h
    obtain ⟨rest, s₂, h₂, h⟩ := Txn.bind_ok h
    cases h
    have hsteps : Steps true s (submitItem sha256 skipRequeue last now item s).2 := steps_submitItem item s
    have hnext := ha.2
    dsimp only at hnext
    rw [h₁] at hsteps hnext
    refine ih ?_ (hschema.steps hsteps) hnext h₂
    rw [submitItem] at h₁
    split at h₁
    · rename_i hlast
      have hone : EdgesWithin owed (submitOne sha256 item.2 skipRequeue now s).2 :=
        within_submitOne hs hschema (ha.1 hlast)
      rwa [h₁] at hone
    · cases h₁
      exact hs

end Submission

/-! ### Runs -/

section Steps

variable {now : Int} {owed : List Int} {s : Store}

private theorem within_cancelToHistoryTx {id : Int} (hs : EdgesWithin owed s) :
    EdgesWithin ((Action.cancelToHistory id now).owes s ++ owed) (cancelToHistoryTx id now s).2 := by
  rw [Action.owes]
  rcases h : cancelToHistoryTx id now s with ⟨e | removed, s'⟩
  · obtain ⟨_, _, rfl⟩ := transaction_error h
    exact hs
  · have hok := transaction_ok h
    split at hok
    · cases hok
      exact hs
    · rename_i row hrow
      obtain ⟨_, s₁, h₁, hok⟩ := Txn.bind_ok hok
      cases hok
      have hid : row.id = id := by simpa using List.find?_some hrow
      rw [← hid]
      exact within_cancelInner h₁ hs

private theorem within_cancelToHistoryWithRecordTx {task : TaskRecord} (hs : EdgesWithin owed s) :
    EdgesWithin ((Action.cancelToHistoryWithRecord task now).owes s ++ owed)
      (cancelToHistoryWithRecordTx task now s).2 := by
  rw [Action.owes]
  rcases h : cancelToHistoryWithRecordTx task now s with ⟨e | ⟨⟩, s'⟩
  · obtain ⟨_, _, rfl⟩ := transaction_error h
    exact hs
  · exact within_cancelInner (transaction_ok h) hs

private theorem within_expireTasksTx (hs : EdgesWithin owed s)
    (hc : ∀ p ∈ s.expiredRows now, ∀ r ∈ s.tasks, r.parentId = some p.id → r.pendingOrPaused = true →
      s.NoEdgeFrom r.id) :
    EdgesWithin ((Action.expireTasks now).owes s ++ owed) (expireTasksTx now s).2 := by
  rw [Action.owes]
  rcases h : expireTasksTx now s with ⟨e | expired, s'⟩
  · obtain ⟨_, _, rfl⟩ := transaction_error h
    exact hs
  · obtain ⟨rows, s₁, h₁, hok⟩ := Txn.bind_ok (transaction_ok h)
    obtain ⟨hrows, rfl⟩ : s.expiredRows now = rows ∧ s = s₁ := by
      cases h₁
      exact ⟨rfl, rfl⟩
    obtain ⟨rounds, s₂, h₂, hok⟩ := Txn.bind_ok hok
    cases hok
    rw [← hrows] at h₂
    exact within_expire_loop h₂ hs hc

private theorem within_expireSingle {id : Int} (hs : EdgesWithin owed s)
    (hd : s.Detached owed fun r => r.id == id && r.past now && r.pendingOrPaused) (hschema : s.Schema) :
    EdgesWithin owed (expireSingle id now s).2 := by
  refine within_transaction (fun a s' h => ?_) hs
  split at h
  · cases h
    exact hs
  · rename_i row hrow
    obtain ⟨task, s₁, h₁, h⟩ := Txn.bind_ok h
    cases h
    obtain ⟨_, htasks, hdeps⟩ := expireRow_ok h₁
    have hrem : Removes (fun i => ∃ r ∈ s.tasks, r.id = i ∧ (r.id == row.id) = true) s s' :=
      (Removes.delete s (·.id == row.id)).congr (congrArg (List.map TaskRow.id) htasks) hdeps
    have hmem := List.mem_of_find?_eq_some hrow
    refine hrem.detached hs fun r hr hid => hd r hr ?_
    have hsel := List.find?_some hrow
    rwa [← hschema.eq_of_id hr hmem (by simpa using hid)] at hsel

private theorem within_recoverRunning (hs : EdgesWithin owed s) : EdgesWithin owed (s.recoverRunning now) := by
  have hreset : Removes (fun _ => False) s s.resetRunning := .update s _ (by intro r; rfl)
  have hsettle := hreset.keep (.update s.resetRunning (fun r => r.status == .paused && r.pausedAtMs.isSome)
    (f := fun r =>
      { r with pauseDurationMs := r.pauseDurationMs + (now - r.pausedAtMs.getD now), pausedAtMs := none })
    (by intro r; rfl))
  have hclean := hsettle.keep (.deleteEdges _ fun e => (s.resetRunning.settlePauses now).ids.contains e.2)
  rw [Store.recoverRunning]
  split
  · exact hclean.none hs
  · exact (hclean.keep (.update _ _ (by intro r; rfl))).none hs

private theorem within_failDependents {id : Int} (hs : EdgesWithin owed s) :
    EdgesWithin owed (failDependents id now s).2 :=
  within_transaction (fun a s' h =>
    failDependentsInner_within _ id owed s
      ⟨hs.mono fun _ hi => List.mem_cons_of_mem _ hi, Nat.lt_succ_self _⟩ a s' h) hs

/-- A clean step of the store leaves only edges between rows, or to tasks whose dependents are owed a visit. -/
private theorem within_step (sha256 : List UInt8 → String) (a : Action) (hs : EdgesWithin owed s) (hschema : s.Schema)
    (ha : a.Clean sha256 owed s) : EdgesWithin (a.owes s ++ owed) (a.exec sha256 s) := by
  cases a with
  | update u =>
    obtain ⟨p, f, hf, _, he⟩ := u.exec_eq s
    rw [Action.exec, he]
    exact hs.congr (Store.ids_updateTasks s p fun r => (hf r).1) rfl
  | submitDirect sub now =>
    refine within_transaction (fun a s' h => ?_) hs
    have hone : EdgesWithin owed (submitOne sha256 sub (!s.hasRunning) now s).2 := within_submitOne hs hschema ha
    rwa [h] at hone
  | processSubmitBatch skipRequeue batch => exact within_submitEach batch hs hschema ha
  | submitChunk skipRequeue last now chunk =>
    exact within_transaction (fun a s' h => within_submitChunk chunk hs hschema ha h) hs
  | claimTask id now => exact hs.congr (Store.ids_updateTasks s _ (by intro r; rfl)) rfl
  | popById id now => exact hs.congr (Store.ids_updateTasks s _ (by intro r; rfl)) rfl
  | popNextBatch limit aging now =>
    have hpop : EdgesWithin owed (popFirst limit aging now s).2 :=
      hs.congr (Store.ids_updateTasks s _ (by intro r; rfl)) rfl
    rw [Action.exec, popNextBatch.eq_def]
    split
    · exact hs
    · rw [Txn.bind_pure_state, popNext, Txn.bind_pure_state]
      exact hpop
    · exact hpop
  | complete id metrics now =>
    refine within_transaction (fun a s' h => ?_) hs
    split at h
    · cases h
      exact hs
    · rename_i row hrow
      obtain ⟨_, s₁, h₁, h⟩ := Txn.bind_ok h
      cases h
      have hid : row.id = id := by simpa using List.find?_some hrow
      subst hid
      exact (removes_completeInner h₁).detached hs ha
  | completeWithRecord task metrics now =>
    exact within_transaction (fun a s' h => (removes_completeInner h).detached hs ha) hs
  | completeBatch items now => exact within_completeBatchTx hs ha
  | resolveDependents id now =>
    exact within_transaction (fun a s' h => (removes_resolveDependentsInner h).1.none hs) hs
  | fail id error retryable maxRetries metrics backoff now =>
    refine within_transaction (fun a s' h => ?_) hs
    split at h
    · cases h
      exact hs
    · rename_i row hrow
      have hid : row.id = id := by simpa using List.find?_some hrow
      have hmem := List.mem_of_find?_eq_some hrow
      refine (removes_failInner h).detached hs fun r hr hp => ha r hr ?_
      rw [Bool.and_eq_true, beq_iff_eq] at hp
      obtain rfl := hschema.eq_of_id hr hmem hp.1
      rw [Bool.and_eq_true, beq_iff_eq]
      exact ⟨hid, hp.2⟩
  | failWithRecord task error retryable maxRetries metrics backoff now =>
    exact within_transaction (fun a s' h => (removes_failInner h).detached hs ha) hs
  | failBatch items now => exact within_failBatchTx hs ha
  | failDependents id now => exact within_failDependents hs
  | cancelToHistory id now => exact within_cancelToHistoryTx hs
  | cancelToHistoryWithRecord task now => exact within_cancelToHistoryWithRecordTx hs
  | cancelChildren parent read now => exact within_cancelChildrenTx hs ha
  | expireTasks now => exact within_expireTasksTx hs ha
  | expireSingle id now => exact within_expireSingle hs ha hschema
  | pauseGroupState group resumeAt now =>
    rw [Action.exec, Store.pauseGroupState]
    split
    · exact hs
    · exact hs.congr rfl rfl
  | resumeGroupState group => exact hs.congr rfl rfl
  | delete id =>
    have hrem : Removes (fun i => ∃ r ∈ s.tasks, r.id = i ∧ (r.id == id) = true) s (s.delete id) :=
      (Removes.delete s (·.id == id)).congr rfl rfl
    exact hrem.detached hs ha
  | deleteHistory historyId => exact hs.congr rfl rfl
  | pruneHistoryByAge days now => exact hs.congr rfl rfl
  | pruneHistoryByCount keep => exact hs.congr rfl rfl
  | maybePrune now =>
    rw [Action.exec, Store.maybePrune]
    split
    · exact hs
    · dsimp only
      split
      · exact hs.congr rfl rfl
      · split
        · exact hs.congr rfl rfl
        · exact hs.congr rfl rfl
  | recoverRunning now => exact within_recoverRunning hs

end Steps

/-- The edges lead from rows to rows or to tasks that are owed a visit, and the constraints of the schema hold. -/
private def DepState.Inv (σ : DepState) : Prop := EdgesWithin σ.owed σ.store ∧ σ.store.Schema

private theorem inv_step (sha256 : List UInt8 → String) (σ : DepState) (a : DepStep) (h : σ.Inv)
    (ha : a.Clean sha256 σ) : (a.exec sha256 σ).Inv := by
  obtain ⟨hs, hschema⟩ := h
  cases a with
  | store a => exact ⟨within_step sha256 a hs hschema ha, hschema.steps (a.steps sha256 σ.store)⟩
  | failInline task error retryable maxRetries metrics backoff now =>
    refine ⟨?_, hschema.steps ((Action.failWithRecord task error retryable maxRetries metrics backoff now).steps
      sha256 σ.store)⟩
    rw [DepStep.exec]
    have hmono : EdgesWithin (if task.willRetry retryable maxRetries then σ.owed else task.id :: σ.owed) σ.store := by
      refine hs.mono fun i hi => ?_
      split
      · exact hi
      · exact List.mem_cons_of_mem _ hi
    refine within_transaction (fun u s' h => ?_) hmono
    have hrem := removes_failInner h
    refine hrem.edgesWithin hmono (fun e he => ?_) (fun e he => ?_) fun _ hi => hi
    · rintro ⟨r, _, hid, hp⟩
      rw [Bool.and_eq_true, beq_iff_eq, Bool.not_eq_true'] at hp
      exact ha hp.2 e (hrem.deps e he) (hid.symm.trans hp.1)
    · rintro ⟨r, _, hid, hp⟩
      rw [Bool.and_eq_true, beq_iff_eq, Bool.not_eq_true'] at hp
      rw [if_neg (by rw [hp.2]; simp), ← hid, hp.1]
      exact List.mem_cons_self ..
  | failQueued task => exact ⟨hs.mono fun i hi => List.mem_cons_of_mem _ hi, hschema⟩
  | cascade id now =>
    refine ⟨?_, hschema.steps ((Action.failDependents id now).steps sha256 σ.store)⟩
    -- the call cannot fail, so the dependents of `id` are all visited
    have htotal : Txn.Total Store.HistoryTagsOwned (failDependentsInner now (σ.store.tasks.length + 1) id) _ :=
      failDependentsInner_total _ id
    obtain ⟨result, s', hok, _⟩ := htotal σ.store ha
    have hcons : EdgesWithin (id :: σ.owed.erase id) σ.store := by
      refine hs.mono fun i hi => ?_
      by_cases he : i = id
      · rw [he]
        exact List.mem_cons_self ..
      · exact List.mem_cons_of_mem _ ((List.mem_erase_of_ne he).2 hi)
    have htx : failDependents id now σ.store = (.ok result, s') := Txn.atomically_of_ok hok
    rw [DepStep.exec, htx]
    exact failDependentsInner_within _ id _ σ.store ⟨hcons, Nat.lt_succ_self _⟩ _ _ hok

/-- In every run whose steps take away only tasks without edges, or tasks whose edges they settle, both ends of every
edge are rows whenever no `fail_dependents` call is owed. -/
theorem no_dangling_edge (sha256 : List UInt8 → String) (σ : DepState)
    (h : DepReachable sha256 (fun σ a => a.Clean sha256 σ) σ) (hquiet : σ.owed = []) :
    ∀ e ∈ σ.store.taskDeps, e.1 ∈ σ.store.ids ∧ e.2 ∈ σ.store.ids := by
  have hinv : σ.Inv := by
    refine Runs.invariant h (fun σ hσ => ⟨?_, hσ.1.schema⟩) (inv_step sha256)
    intro e he
    rw [hσ.1.taskDeps] at he
    cases he
  intro e he
  obtain ⟨h₁, h₂⟩ := hinv.1 e he
  rw [hquiet] at h₂
  exact ⟨h₁, h₂.resolve_right (by simp)⟩

/-- Two chains of two tasks; the first task of the first chain is cancelled and takes its dependent with it. -/
def cancelRun : List DepStep :=
  [.store (.submitDirect (.new "a") 0), .store (.submitDirect { TaskSubmission.new "b" with dependencies := [1] } 0),
    .store (.submitDirect (.new "c") 0), .store (.submitDirect { TaskSubmission.new "d" with dependencies := [3] } 0),
    .store (.cancelToHistory 1 0), .cascade 1 0]

/-- A list of steps from a new in-memory store. -/
def depExecAll (steps : List DepStep) : DepState :=
  steps.foldl (fun σ a => a.exec sampleSha256 σ) ⟨openMemory, []⟩

private theorem clean_of_skip {sha256 : List UInt8 → String} {owed : List Int} {s : Store} {sub : TaskSubmission}
    (h : sub.onDuplicate = .skip) : sub.Clean sha256 owed s := by
  rintro row ⟨_, hdup, _⟩
  rw [h] at hdup
  cases hdup

theorem cancelRun_no_dangling_edge :
    (depExecAll cancelRun).store.taskDeps = [(4, 3)] ∧
      ∀ e ∈ (depExecAll cancelRun).store.taskDeps,
        e.1 ∈ (depExecAll cancelRun).store.ids ∧ e.2 ∈ (depExecAll cancelRun).store.ids := by
  refine ⟨by decide, no_dangling_edge sampleSha256 _ ?_ (by decide)⟩
  refine Runs.list (.start ⟨openMemory_fresh, rfl⟩) cancelRun ?_
  have howned : (depExecAll (cancelRun.take 5)).store.HistoryTagsOwned := by
    have hnone : (depExecAll (cancelRun.take 5)).store.taskHistoryTags = [] := by decide
    intro t ht
    rw [hnone] at ht
    cases ht
  exact ⟨clean_of_skip rfl, clean_of_skip rfl, clean_of_skip rfl, clean_of_skip rfl, trivial, howned, trivial⟩

/-- The first task of a chain is dispatched, but no executor is registered for its type. -/
def missingExecutorRun : List DepStep :=
  chainRun.map .store ++
    ([.store (.popNextBatch 1 none 0),
      .store (.failWithRecord dispatchedA "no executor registered for type 'a'" false 0 {} {} 0)] : List DepStep)

/-- Nobody visits its dependent, which stays blocked on a task that does not exist. -/
theorem missing_executor_dangling_edge :
    ¬ ∀ σ, DepReachable sampleSha256 (fun _ _ => True) σ → σ.owed = [] →
      ∀ e ∈ σ.store.taskDeps, e.1 ∈ σ.store.ids ∧ e.2 ∈ σ.store.ids := by
  intro h
  have hreach : DepReachable sampleSha256 (fun _ _ => True) (depExecAll missingExecutorRun) :=
    Runs.list (.start ⟨openMemory_fresh, rfl⟩) missingExecutorRun ⟨trivial, trivial, trivial, trivial, trivial⟩
  have hdangling : (2, 1) ∈ (depExecAll missingExecutorRun).store.taskDeps ∧
      (1 : Int) ∉ (depExecAll missingExecutorRun).store.ids := by decide
  exact hdangling.2 (h _ hreach (by decide) _ hdangling.1).2

end Taskmill
