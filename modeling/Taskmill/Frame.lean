import Taskmill.Action
import Mathlib.Logic.Relation

/-!
# What the statements change

Every change of a table is one of a few statements, whose projections are simp lemmas, so that a proof about one table
never looks at the others.  `insert_history` and `insert_tags` can fail in the middle; they are summed up here by the
store they leave, which is the same up to the tag tables whether they succeed or fail.

`Stmt` lists the statements, and `Action.steps` says that every step of the store is a sequence of them.  A property
of the tables that each statement keeps therefore holds in every reachable state.
-/

namespace Taskmill

open Transact

/-- A transaction keeps an invariant that its body keeps when it succeeds and that does not depend on the flags. -/
theorem transaction_invariant {α : Type} {I : Store → Prop} {x : Sql α} (hx : Txn.Ensures I x fun _ => I)
    (hr : ∀ s s' : Store, I s → I (s.rollback s')) {s : Store} (hs : I s) : I (transaction x s).2 :=
  Txn.Ensures.atomically hx hr hs

/-- A bracket around bodies that do the same in this state. -/
theorem transaction_congr {α : Type} {x y : Sql α} {s : Store} (h : x s = y s) :
    transaction x s = transaction y s := by
  unfold transaction Txn.atomically
  rw [h]

/-- A committed transaction is what its body did. -/
theorem transaction_ok {α : Type} {x : Sql α} {s s' : Store} {a : α} (h : transaction x s = (.ok a, s')) :
    x s = (.ok a, s') := by
  rcases Txn.atomically_cases Store.rollback x s with ⟨a', s₁, hok, he⟩ | ⟨e, s₁, _, he⟩
  · exact hok.trans (he.symm.trans h)
  · cases he.symm.trans h

/-- A failed transaction restores the tables. -/
theorem transaction_error {α : Type} {x : Sql α} {s s' : Store} {e : StoreError}
    (h : transaction x s = (.error e, s')) :
    ∃ s₁, x s = (.error e, s₁) ∧ s' = s.rollback s₁ := by
  rcases Txn.atomically_cases Store.rollback x s with ⟨a', s₁, _, he⟩ | ⟨e', s₁, herr, he⟩
  · cases he.symm.trans h
  · cases he.symm.trans h
    exact ⟨s₁, herr, rfl⟩

/-- A column that an `UPDATE` does not set. -/
theorem Store.map_updateTasks {γ : Type} (s : Store) (p : TaskRow → Bool) {f : TaskRow → TaskRow} (g : TaskRow → γ)
    (hg : ∀ r, g (f r) = g r) : (s.updateTasks p f).tasks.map g = s.tasks.map g := by
  rw [Store.updateTasks_tasks, List.map_map]
  refine List.map_congr_left fun r _ => ?_
  simp only [Function.comp_apply]
  split
  · exact hg r
  · rfl

theorem Store.ids_updateTasks (s : Store) (p : TaskRow → Bool) {f : TaskRow → TaskRow} (hf : ∀ r, (f r).id = r.id) :
    (s.updateTasks p f).ids = s.ids :=
  s.map_updateTasks p (·.id) hf

/-- The condition of an `UPDATE` matters only on the rows that are there. -/
theorem Store.updateTasks_congr {s : Store} {p q : TaskRow → Bool} {f : TaskRow → TaskRow}
    (h : ∀ r ∈ s.tasks, p r = q r) : s.updateTasks p f = s.updateTasks q f := by
  have : (s.updateTasks p f).tasks = (s.updateTasks q f).tasks := by
    rw [Store.updateTasks_tasks, Store.updateTasks_tasks]
    exact List.map_congr_left fun r hr => by rw [h r hr]
  simpa [Store.updateTasks] using this

/-! ### History rows and tags -/

/-- One more history row; `tags` are the history tags after it. -/
@[simps] def Store.log (s : Store) (row : TaskHistoryRow) (tags : List (Int × String × String)) : Store :=
  { s with taskHistory := s.taskHistory ++ [row], taskHistoryTags := tags }

/-- The store with another `task_tags` table. -/
@[simps] def Store.withTags (s : Store) (tags : List (Int × String × String)) : Store := { s with taskTags := tags }

theorem copyTags_state (historyRowid taskId : Int) (s : Store) :
    ∃ tags, (copyTags historyRowid taskId s).2 = { s with taskHistoryTags := tags } := by
  rw [copyTags]
  split
  · exact ⟨s.taskHistoryTags, rfl⟩
  · exact ⟨_, rfl⟩

theorem insertHistory_state (task : TaskRecord) (status : HistoryStatus) (metrics : IoBudget)
    (durationMs : Option Int) (lastError : Option String) (skipTags : Bool) (now : Int) (s : Store) :
    ∃ tags, (insertHistory task status metrics durationMs lastError skipTags now s).2 =
      s.log (historyRow s.nextHistoryId task status metrics durationMs lastError now) tags := by
  cases skipTags with
  | true => exact ⟨s.taskHistoryTags, rfl⟩
  | false =>
    exact copyTags_state s.nextHistoryId task.id
      (s.log (historyRow s.nextHistoryId task status metrics durationMs lastError now) s.taskHistoryTags)

theorem insertHistory_leaves {task : TaskRecord} {status : HistoryStatus} {metrics : IoBudget}
    {durationMs : Option Int} {lastError : Option String} {skipTags : Bool} {now : Int} {s s' : Store}
    {r : Except StoreError Unit}
    (h : insertHistory task status metrics durationMs lastError skipTags now s = (r, s')) :
    ∃ tags, s' = s.log (historyRow s.nextHistoryId task status metrics durationMs lastError now) tags := by
  have := insertHistory_state task status metrics durationMs lastError skipTags now s
  rwa [h] at this

/-- A tag of the task is already in `task_history_tags` for the row id that is about to be given out: only possible
for the orphaned tags of a pruned row. -/
def Store.historyTagClash (s : Store) (taskId : Int) : Bool :=
  (s.tagsOf taskId).any fun tag => s.taskHistoryTags.any fun t => t.1 == s.nextHistoryId && t.2.1 == tag.1

/-- The history tags of a new history row. -/
def Store.copiedTags (s : Store) (skipTags : Bool) (taskId : Int) : List (Int × String × String) :=
  if skipTags then [] else (s.tagsOf taskId).map fun tag => (s.nextHistoryId, tag)

theorem insertHistory_apply (task : TaskRecord) (status : HistoryStatus) (metrics : IoBudget)
    (durationMs : Option Int) (lastError : Option String) (skipTags : Bool) (now : Int) (s : Store) :
    insertHistory task status metrics durationMs lastError skipTags now s =
      if !skipTags && s.historyTagClash task.id then
        (.error taskHistoryTagsError,
          s.log (historyRow s.nextHistoryId task status metrics durationMs lastError now) s.taskHistoryTags)
      else
        (.ok (), s.log (historyRow s.nextHistoryId task status metrics durationMs lastError now)
          (s.taskHistoryTags ++ s.copiedTags skipTags task.id)) := by
  cases skipTags with
  | true => simp [insertHistory, Store.copiedTags, Txn.bind_apply, Store.log]; rfl
  | false =>
    have hcopy : insertHistory task status metrics durationMs lastError false now s = copyTags s.nextHistoryId task.id
      (s.log (historyRow s.nextHistoryId task status metrics durationMs lastError now) s.taskHistoryTags) := rfl
    rw [hcopy, copyTags]
    rfl

/-- Every history tag belongs to a history row. -/
def Store.HistoryTagsOwned (s : Store) : Prop := ∀ t ∈ s.taskHistoryTags, t.1 ∈ s.taskHistory.map (·.id)

theorem Store.HistoryTagsOwned.no_clash {s : Store} (h : s.HistoryTagsOwned) (taskId : Int) :
    s.historyTagClash taskId = false := by
  rw [Store.historyTagClash, List.any_eq_false]
  intro tag _ hany
  obtain ⟨t, ht, he⟩ := List.any_eq_true.1 hany
  simp only [Bool.and_eq_true, beq_iff_eq] at he
  have := h t ht
  rw [he.1] at this
  exact nextRowid_not_mem _ this

/-- Without orphaned history tags `insert_history` succeeds, and leaves none. -/
theorem insertHistory_total {task : TaskRecord} {status : HistoryStatus} {metrics : IoBudget}
    {durationMs : Option Int} {lastError : Option String} {skipTags : Bool} {now : Int} :
    Txn.Total Store.HistoryTagsOwned (insertHistory task status metrics durationMs lastError skipTags now)
      fun _ => Store.HistoryTagsOwned := by
  intro s hs
  rw [insertHistory_apply, hs.no_clash]
  refine ⟨(), _, by simp; rfl, ?_⟩
  intro t ht
  simp only [Store.log_taskHistory, Store.log_taskHistoryTags, List.map_append, List.mem_append] at ht ⊢
  rcases ht with ht | ht
  · exact .inl (hs t ht)
  · rw [Store.copiedTags] at ht
    split at ht
    · cases ht
    · obtain ⟨tag, _, rfl⟩ := List.mem_map.1 ht
      exact .inr (List.mem_singleton_self _)

/-- Several more history rows. -/
@[simps] def Store.logAll (s : Store) (rows : List TaskHistoryRow) (tags : List (Int × String × String)) : Store :=
  { s with taskHistory := s.taskHistory ++ rows, taskHistoryTags := tags }

theorem exists_of_forall₂ {α β : Type} {R : α → β → Prop} {xs : List α} {ys : List β}
    (h : List.Forall₂ R xs ys) {x : α} (hx : x ∈ xs) : ∃ y ∈ ys, R x y := by
  induction h with
  | nil => cases hx
  | @cons a b as bs hab _ ih =>
    rcases List.mem_cons.1 hx with rfl | hx
    · exact ⟨b, List.mem_cons_self, hab⟩
    · obtain ⟨y, hy, hxy⟩ := ih hx
      exact ⟨y, List.mem_cons_of_mem _ hy, hxy⟩

/-- A loop of `insert_history` calls leaves one row for every round. -/
theorem mapList_log {α : Type} {f : α → Sql Unit} {R : α → TaskHistoryRow → Prop}
    (hf : ∀ x s u s', f x s = (.ok u, s') → ∃ row tags, s' = s.log row tags ∧ R x row) {xs : List α} {s s' : Store}
    {us : List Unit} (h : Txn.mapList f xs s = (.ok us, s')) :
    ∃ rows tags, s' = s.logAll rows tags ∧ List.Forall₂ R xs rows := by
  induction xs generalizing s us with
  | nil =>
    obtain rfl : s = s' := (Prod.mk.inj h).2
    exact ⟨[], s.taskHistoryTags, by simp [Store.logAll], .nil⟩
  | cons x xs ih =>
    obtain ⟨u, s₁, h₁, h⟩ := Txn.bind_ok h
    obtain ⟨us', s₂, h₂, h⟩ := Txn.bind_ok h
    cases h
    obtain ⟨row, tags, rfl, hrow⟩ := hf x s u s₁ h₁
    obtain ⟨rows, tags', rfl, hrows⟩ := ih h₂
    refine ⟨row :: rows, tags', ?_, .cons hrow hrows⟩
    simp [Store.logAll, Store.log]

/-- A loop of `insert_history` calls changes the history only. -/
theorem mapList_history {α : Type} {f : α → Sql Unit} {row : α → Store → TaskHistoryRow}
    (hf : ∀ x s r s', f x s = (r, s') → ∃ tags, s' = s.log (row x s) tags) {xs : List α} {s s' : Store}
    {us : List Unit} (h : Txn.mapList f xs s = (.ok us, s')) : ∃ rows tags, s' = s.logAll rows tags := by
  obtain ⟨rows, tags, hlog, _⟩ := mapList_log (R := fun _ _ => True) (fun x s u s' hx => by
    obtain ⟨tags, he⟩ := hf x s _ s' hx
    exact ⟨row x s, tags, he, trivial⟩) h
  exact ⟨rows, tags, hlog⟩

theorem insertTag_state (id : Int) (tag : String × String) (s : Store) :
    ∃ tags, (insertTag id tag s).2 = s.withTags tags := by
  rw [insertTag]
  split
  · exact ⟨s.taskTags, rfl⟩
  · exact ⟨_, rfl⟩

theorem insertTags_state (id : Int) (tags : List (String × String)) (s : Store) :
    ∃ tt, (insertTags id tags s).2 = s.withTags tt := by
  have h : Txn.Always (fun s s' : Store => ∃ tt, s' = s.withTags tt) (insertTags id tags) := by
    have ht : ∀ a b c : Store, (∃ tt, b = a.withTags tt) → (∃ tt, c = b.withTags tt) → ∃ tt, c = a.withTags tt := by
      rintro a b c ⟨_, rfl⟩ ⟨tt, rfl⟩
      exact ⟨tt, rfl⟩
    have hr : ∀ s : Store, ∃ tt, s = s.withTags tt := fun s => ⟨s.taskTags, rfl⟩
    exact (Txn.Always.mapList hr ht (insertTag_state id) tags).bind ht fun _ => Txn.Always.pure hr ()
  exact h s

theorem insertTags_leaves {id : Int} {tags : List (String × String)} {s s' : Store} {r : Except StoreError Unit}
    (h : insertTags id tags s = (r, s')) : ∃ tt, s' = s.withTags tt := by
  have := insertTags_state id tags s
  rwa [h] at this

theorem insertTask_ok {row : TaskRow} {s s' : Store} {id : Int} (h : insertTask row s = (.ok id, s')) :
    id = s.nextTaskId ∧ s' = s.addTask row := by
  rw [insertTask] at h
  split at h
  · cases h
  · cases h
    exact ⟨rfl, rfl⟩

theorem insertTask_error {row : TaskRow} {s s' : Store} {err : StoreError} (h : insertTask row s = (.error err, s')) :
    s' = s := by
  rw [insertTask] at h
  split at h
  · cases h
    rfl
  · cases h

/-- The id of a new row belongs to no row that is there. -/
theorem Store.id_ne_nextTaskId {s : Store} {r : TaskRow} (hr : r ∈ s.tasks) : r.id ≠ s.nextTaskId := by
  intro h
  refine nextRowid_not_mem s.ids ?_
  rw [← Store.nextTaskId, ← h]
  exact List.mem_map_of_mem hr

/-! ### The statements -/

/-- What one statement can do to the store.  Only a submission (`sub`) inserts edges or blocks a row, and no
submission changes the paused groups; a `renew` is an `UPDATE` that starts a new life of one row. -/
inductive Stmt (sub : Bool) : Store → Store → Prop
  | history (s : Store) (rows : List TaskHistoryRow) (tags : List (Int × String × String)) :
      Stmt sub s { s with taskHistory := rows, taskHistoryTags := tags }
  | tags (s : Store) (tags : List (Int × String × String)) : Stmt sub s (s.withTags tags)
  | update (s : Store) (p : TaskRow → Bool) (f : TaskRow → TaskRow)
      (hf : ∀ r, (f r).id = r.id ∧ (f r).inst = r.inst ∧ (f r).key = r.key)
      (hb : sub = false → ∀ r, (f r).status = .blocked → r.status = .blocked) : Stmt sub s (s.updateTasks p f)
  | renew (s : Store) (id : Int) (f : TaskRow → TaskRow)
      (hf : ∀ r, (f r).id = r.id ∧ (f r).inst = s.nextInst ∧ (f r).key = r.key) (hb : ∀ r, (f r).status = .pending) :
      Stmt sub s { s.updateTasks (·.id == id) f with nextInst := s.nextInst + 1 }
  | delete (s : Store) (p : TaskRow → Bool) : Stmt sub s (s.deleteTasks p)
  | add (s : Store) (row : TaskRow) (hk : s.taskByKey row.key = none) (hb : row.status = .pending) :
      Stmt sub s (s.addTask row)
  | deleteEdges (s : Store) (p : Int × Int → Bool) : Stmt sub s { s with taskDeps := s.taskDeps.filter p }
  | addEdges (s : Store) (id : Int) (deps : List Int) (hs : sub = true) (hn : deps.Nodup)
      (hd : ∀ dep ∈ deps, (id, dep) ∉ s.taskDeps) :
      Stmt sub s { s with taskDeps := s.taskDeps ++ deps.map fun dep => (id, dep) }
  | settings (s : Store) (tags hierarchy running : Bool) (n : Nat) :
      Stmt sub s { s with hasTags := tags, hasHierarchy := hierarchy, hasRunning := running, completionCount := n }
  | groups (s : Store) (groups : List (String × Int × Option Int)) (hs : sub = false) :
      Stmt sub s { s with pausedGroups := groups }

/-- Some statements, one after the other. -/
def Steps (sub : Bool) : Store → Store → Prop := Relation.ReflTransGen (Stmt sub)

theorem Stmt.steps {sub : Bool} {s s' : Store} (h : Stmt sub s s') : Steps sub s s' := .single h

/-- A property that every statement keeps is kept by every sequence of statements. -/
theorem Steps.invariant {sub : Bool} {I : Store → Prop} (hI : ∀ s s', Stmt sub s s' → I s → I s') {s s' : Store}
    (h : Steps sub s s') (hs : I s) : I s' := by
  induction h with
  | refl => exact hs
  | tail _ hst ih => exact hI _ _ hst ih

theorem Steps.pausedGroups {s s' : Store} (h : Steps true s s') : s'.pausedGroups = s.pausedGroups := by
  refine Steps.invariant (I := fun t => t.pausedGroups = s.pausedGroups) (fun t t' hst ht => ?_) h rfl
  cases hst with
  | groups groups hs => cases hs
  | _ => exact ht

section Rules

variable {α β : Type} {b : Bool}

private theorem steps_pure {a : α} : Txn.Always (Steps b) (pure a : Sql α) := Txn.Always.pure (fun _ => .refl) a

private theorem steps_get : Txn.Always (Steps b) (Txn.get : Sql Store) := Txn.Always.get fun _ => .refl

private theorem steps_modify {f : Store → Store} (hf : ∀ s, Steps b s (f s)) :
    Txn.Always (Steps b) (Txn.modify f : Sql Unit) := Txn.Always.modify hf

private theorem steps_bind {x : Sql α} {f : α → Sql β} (hx : Txn.Always (Steps b) x)
    (hf : ∀ a, Txn.Always (Steps b) (f a)) : Txn.Always (Steps b) (x >>= f) :=
  hx.bind (fun _ _ _ h₁ h₂ => h₁.trans h₂) hf

private theorem steps_map {x : Sql α} {f : α → β} (hx : Txn.Always (Steps b) x) : Txn.Always (Steps b) (f <$> x) :=
  steps_bind hx fun _ => steps_pure

private theorem steps_mapList {f : α → Sql β} (hf : ∀ x, Txn.Always (Steps b) (f x)) (xs : List α) :
    Txn.Always (Steps b) (Txn.mapList f xs) :=
  Txn.Always.mapList (fun _ => .refl) (fun _ _ _ h₁ h₂ => h₁.trans h₂) hf xs

private theorem steps_transaction {x : Sql α} (hx : Txn.Always (Steps b) x) : Txn.Always (Steps b) (transaction x) :=
  hx.atomically fun s s' _ =>
    (Stmt.settings s s'.hasTags s'.hasHierarchy s'.hasRunning s.completionCount).steps

private theorem steps_insertHistory {task : TaskRecord} {status : HistoryStatus} {metrics : IoBudget}
    {durationMs : Option Int} {lastError : Option String} {skipTags : Bool} {now : Int} :
    Txn.Always (Steps b) (insertHistory task status metrics durationMs lastError skipTags now) := by
  intro s
  obtain ⟨tags, h⟩ := insertHistory_state task status metrics durationMs lastError skipTags now s
  rw [h]
  exact (Stmt.history s _ tags).steps

private theorem steps_insertTags {id : Int} {tags : List (String × String)} :
    Txn.Always (Steps b) (insertTags id tags) := by
  intro s
  obtain ⟨tt, h⟩ := insertTags_state id tags s
  rw [h]
  exact (Stmt.tags s tt).steps

private theorem steps_insertTask {row : TaskRow} (hb : row.status = .pending) :
    Txn.Always (Steps b) (insertTask row) := by
  intro s
  rw [insertTask]
  split
  · exact .refl
  · rename_i h
    exact (Stmt.add s row (by simpa using h) hb).steps

theorem steps_insertOrIgnoreTask {row : TaskRow} (hb : row.status = .pending) :
    Txn.Always (Steps b) (insertOrIgnoreTask row) := by
  intro s
  rw [insertOrIgnoreTask]
  split
  · exact .refl
  · rename_i h
    exact (Stmt.add s row (by simpa using h) hb).steps

/-- `DELETE`s of one row: its outgoing edges, its tags, the row. -/
private theorem steps_removeRow (s : Store) (id : Int) :
    Steps b s (((s.deleteEdgesFrom id).deleteTaskTags id).deleteTasks (·.id == id)) :=
  ((Stmt.deleteEdges s _).steps.tail (Stmt.tags _ _)).tail (Stmt.delete _ _)

private theorem steps_delete (s : Store) (id : Int) : Steps b s (s.delete id) :=
  (Stmt.tags s _).steps.tail (Stmt.delete _ _)

private theorem steps_update {s : Store} {p : TaskRow → Bool} {f : TaskRow → TaskRow}
    (hf : ∀ r, (f r).id = r.id ∧ (f r).inst = r.inst ∧ (f r).key = r.key)
    (hb : b = false → ∀ r, (f r).status = .blocked → r.status = .blocked) : Steps b s (s.updateTasks p f) :=
  (Stmt.update s p f hf hb).steps

end Rules

/-! ### Dependencies -/

section Dependencies

variable {b : Bool} {id now : Int}

private theorem steps_unblock {ids : List Int} : Txn.Always (Steps b) (unblock ids) :=
  fun s => steps_update (by intro r; exact ⟨rfl, rfl, rfl⟩) (by intro _ r h; cases h)

private theorem steps_pauseUnblocked (s : Store) (ids : List Int) : Steps b s (s.pauseUnblocked ids now) :=
  steps_update (by intro r; exact ⟨rfl, rfl, rfl⟩) (by intro _ r h; cases h)

theorem steps_resolveDependentsInner : Txn.Always (Steps b) (resolveDependentsInner id now) := by
  refine steps_bind (fun s => (Stmt.deleteEdges s _).steps) fun ids => ?_
  split
  · exact steps_pure
  · exact steps_bind steps_unblock fun unblocked =>
      steps_bind (steps_modify fun s => steps_pauseUnblocked s unblocked) fun _ => steps_pure

theorem steps_releaseDependent : Txn.Always (Steps b) (releaseDependent id now) := by
  intro s
  rw [releaseDependent]
  split
  · exact .refl
  · split
    · refine Relation.ReflTransGen.trans ?_ (steps_pauseUnblocked _ [id])
      exact steps_update (by intro r; exact ⟨rfl, rfl, rfl⟩) (by intro _ r h; cases h)
    · exact .refl

private theorem steps_failDependentsInner {fuel : Nat} : Txn.Always (Steps b) (failDependentsInner now fuel id) := by
  induction fuel generalizing id with
  | zero => exact steps_pure
  | succ fuel ih =>
    refine steps_bind (fun s => (Stmt.deleteEdges s _).steps) fun ids => ?_
    refine steps_bind (steps_mapList (fun depId => ?_) ids) fun _ => steps_pure
    refine steps_bind (steps_map steps_get) fun row => ?_
    have hremove : ∀ task, Txn.Always (Steps b) (dependencyFail id task now) := fun task =>
      steps_bind steps_insertHistory fun _ => steps_modify fun s => steps_removeRow s task.id
    match row with
    | none => exact steps_pure
    | some task =>
      simp only
      split
      · exact steps_bind (hremove task) fun _ => steps_bind ih fun _ => steps_pure
      · exact steps_bind (hremove task) fun _ => steps_bind ih fun _ => steps_pure
      · exact steps_bind steps_releaseDependent fun _ => steps_pure

end Dependencies

/-! ### Completion and failure -/

section Outcomes

variable {b : Bool} {task : TaskRecord} {metrics : IoBudget} {skipTags : Bool} {now : Int}

theorem steps_resetRequeued (s : Store) (id : Int) : Steps b s (s.resetRequeued id) := by
  by_cases h : s.ids.contains id
  · have hr : Stmt b s { s.updateTasks (·.id == id) (TaskRow.resetRequeued s.nextInst) with
        nextInst := s.nextInst + 1 } := .renew s id _ (fun _ => ⟨rfl, rfl, rfl⟩) fun _ => rfl
    rw [Store.resetRequeued, if_pos h]
    exact hr.steps
  · have hrows : ∀ r ∈ s.tasks, ¬ (r.id == id) = true := by
      intro r hr hid
      rw [beq_iff_eq] at hid
      refine h (List.contains_iff_mem.2 ?_)
      exact List.mem_map.2 ⟨r, hr, hid⟩
    have htasks : (s.resetRequeued id).tasks = s.tasks := by
      show s.tasks.map _ = s.tasks
      conv_rhs => rw [← List.map_id s.tasks]
      exact List.map_congr_left fun r hr => if_neg (hrows r hr)
    have heq : s.resetRequeued id = s := by
      have : s.resetRequeued id = { s with tasks := (s.resetRequeued id).tasks } := by
        simp only [Store.resetRequeued, if_neg h]
        rfl
      rw [this, htasks]
    rw [heq]
    exact .refl

private theorem steps_createNextInstance {tags : List (String × String)} {interval : Int} :
    Txn.Always (Steps b) (createNextInstance task tags interval now) := by
  refine steps_bind steps_get fun s => ?_
  split
  · exact steps_pure
  · refine steps_bind (steps_insertTask rfl) fun nextId => steps_bind steps_insertTags fun _ => ?_
    refine steps_bind (steps_map steps_get) fun groupPaused => ?_
    refine steps_bind (steps_modify fun s => ?_) fun _ => steps_pure
    split
    · exact steps_update (by intro r; exact ⟨rfl, rfl, rfl⟩) (by intro _ r h; cases h)
    · exact .refl

theorem steps_completeInner : Txn.Always (Steps b) (completeInner task metrics skipTags now) := by
  refine steps_bind steps_insertHistory fun _ => steps_bind (steps_map steps_get) fun tags => ?_
  refine steps_bind (fun s => (Stmt.delete s _).steps) fun deleted => ?_
  split
  · exact steps_bind (steps_modify fun s => steps_resetRequeued s task.id) fun _ => steps_pure
  · refine steps_bind (steps_modify fun s => ?_) fun _ => ?_
    · split
      · exact .refl
      · exact (Stmt.tags s _).steps
    · split
      · exact steps_pure
      · exact steps_createNextInstance

theorem steps_completeAndResolve (item : TaskRecord × IoBudget) :
    Txn.Always (Steps b) (completeAndResolve skipTags now item) :=
  steps_bind steps_completeInner fun _ => steps_bind steps_resolveDependentsInner fun _ => steps_pure

theorem steps_foldl_resetRequeued (ids : List Int) (s : Store) :
    Steps b s (ids.foldl Store.resetRequeued s) := by
  induction ids generalizing s with
  | nil => exact .refl
  | cons id ids ih => exact (steps_resetRequeued s id).trans (ih _)

theorem taskHistory_foldl_resetRequeued (ids : List Int) (s : Store) :
    (ids.foldl Store.resetRequeued s).taskHistory = s.taskHistory := by
  induction ids generalizing s with
  | nil => rfl
  | cons id ids ih => exact ih (s.resetRequeued id)

theorem steps_completeBatchFast {items : List (TaskRecord × IoBudget)} :
    Txn.Always (Steps b) (completeBatchFast skipTags now items) := by
  refine steps_bind (steps_mapList (fun item => steps_insertHistory) items) fun _ => ?_
  refine steps_bind (fun s => (Stmt.delete s _).steps) fun deleted => ?_
  refine steps_bind (steps_modify fun s => steps_foldl_resetRequeued _ s) fun _ => ?_
  refine steps_bind (steps_modify fun s => ?_) fun _ => ?_
  · split
    · exact .refl
    · exact (Stmt.tags s _).steps
  · refine steps_bind (fun s => (Stmt.deleteEdges s _).steps) fun ids => ?_
    split
    · exact steps_pure
    · exact steps_bind steps_unblock fun unblocked =>
        steps_bind (steps_modify fun s => steps_pauseUnblocked s unblocked) fun _ => steps_pure

private theorem steps_completeBatchTx {items : List (TaskRecord × IoBudget)} :
    Txn.Always (Steps b) (completeBatchTx items now) := by
  rw [completeBatchTx.eq_def]
  split
  · exact steps_pure
  · exact steps_bind (steps_transaction fun s => steps_completeAndResolve _ s) fun _ => steps_pure
  · split
    · exact steps_transaction fun s => steps_mapList steps_completeAndResolve items s
    · exact steps_bind (steps_transaction fun s => steps_completeBatchFast s) fun _ => steps_pure

private theorem steps_completeTx {id : Int} : Txn.Always (Steps b) (completeTx id metrics now) := by
  refine steps_transaction fun s => ?_
  split
  · exact .refl
  · exact steps_bind steps_completeInner (fun _ => steps_pure) s

variable {error : String} {retryable : Bool} {maxRetries : Int} {backoff : FailBackoff}

private theorem steps_failInner :
    Txn.Always (Steps b) (failInner task error retryable maxRetries metrics backoff now) := by
  rw [failInner]
  split
  · refine steps_modify fun s => ?_
    exact steps_update (by intro r; exact ⟨rfl, rfl, rfl⟩) (by intro _ r h; cases h)
  · exact steps_bind steps_insertHistory fun _ => steps_modify fun s => steps_delete s task.id

private theorem steps_failTx {id : Int} :
    Txn.Always (Steps b) (failTx id error retryable maxRetries metrics backoff now) := by
  refine steps_transaction fun s => ?_
  split
  · exact .refl
  · exact steps_failInner s

private theorem steps_failBatchTx {items : List FailureItem} : Txn.Always (Steps b) (failBatchTx items now) := by
  rw [failBatchTx.eq_def]
  split
  · exact steps_pure
  · exact steps_transaction steps_failInner
  · refine steps_transaction fun s => ?_
    refine steps_bind (steps_mapList (fun item => steps_insertHistory) items) (fun _ => ?_) s
    refine steps_bind (steps_modify fun s => (Stmt.delete s _).steps) fun _ => ?_
    refine steps_modify fun s => ?_
    split
    · exact .refl
    · exact (Stmt.tags s _).steps

end Outcomes

/-! ### Cancellation and expiry -/

section CancelExpire

variable {b : Bool} {id now : Int}

private theorem steps_cancelInner {task : TaskRecord} : Txn.Always (Steps b) (cancelInner task now) :=
  steps_bind steps_insertHistory fun _ => steps_modify fun s => steps_removeRow s task.id

private theorem steps_cancelToHistoryTx : Txn.Always (Steps b) (cancelToHistoryTx id now) := by
  refine steps_transaction fun s => ?_
  split
  · exact .refl
  · exact steps_bind steps_cancelInner (fun _ => steps_pure) s

theorem steps_expireRow (row : TaskRow) : Txn.Always (Steps b) (expireRow row now) :=
  steps_bind steps_get fun _ => steps_bind steps_insertHistory fun _ =>
    steps_bind (steps_modify fun s => steps_delete s row.id) fun _ => steps_pure

theorem steps_expireWithChildren (row : TaskRow) : Txn.Always (Steps b) (expireWithChildren now row) := by
  refine steps_bind steps_get fun _ => steps_bind steps_insertHistory fun _ => ?_
  refine steps_bind (steps_map steps_get) fun children => ?_
  refine steps_bind (steps_mapList steps_expireRow children) fun _ => ?_
  exact steps_bind (steps_modify fun s => steps_removeRow s row.id) fun _ => steps_pure

private theorem steps_expireTasksTx : Txn.Always (Steps b) (expireTasksTx now) := by
  refine steps_transaction (steps_bind (steps_map steps_get) fun rows => ?_)
  exact steps_bind (steps_mapList steps_expireWithChildren rows) fun _ => steps_pure

private theorem steps_expireSingle : Txn.Always (Steps b) (expireSingle id now) := by
  refine steps_transaction fun s => ?_
  split
  · exact .refl
  · exact steps_bind (steps_expireRow _) (fun _ => steps_pure) s

private theorem steps_cancelChildrenTx {read : List TaskRow} :
    Txn.Always (Steps b) (cancelChildrenTx id read now) := by
  rw [cancelChildrenTx]
  split
  · exact steps_pure
  · refine steps_transaction (steps_bind (steps_mapList (fun row => steps_insertHistory) read) fun _ => ?_)
    exact steps_modify fun s => (Stmt.delete s _).steps

end CancelExpire

/-! ### Submission -/

section Submission

variable {sub : TaskSubmission} {now : Int}

private theorem steps_ofExcept {α : Type} {b : Bool} {r : Except StoreError α} :
    Txn.Always (Steps b) (Txn.ofExcept r : Sql α) := Txn.Always.ofExcept (fun _ => .refl) r

private theorem steps_throw {α : Type} {b : Bool} {e : StoreError} : Txn.Always (Steps b) (Txn.throw e : Sql α) :=
  Txn.Always.throw (fun _ => .refl) e

private theorem steps_insertEdges {id : Int} {deps : List Int} : Txn.Always (Steps true) (insertEdges id deps) := by
  intro s
  rw [insertEdges]
  split
  · exact .refl
  · split
    · rename_i h
      exact (Stmt.addEdges s id deps rfl h.1 h.2).steps
    · exact .refl

private theorem steps_attachDependencies {id : Int} {deps : List Int} {policy : DependencyFailurePolicy} :
    Txn.Always (Steps true) (attachDependencies id deps policy) := by
  have hresolve : Txn.Always (Steps true) (resolveDependencyEdges id deps policy) := by
    rw [resolveDependencyEdges]
    split
    · exact steps_throw
    · refine steps_bind steps_get fun s => steps_bind steps_ofExcept fun needed => ?_
      refine steps_bind steps_ofExcept fun active => ?_
      split
      · exact steps_pure
      · exact steps_bind steps_insertEdges fun _ => steps_pure
  have hdetect (active : List Int) : Txn.Always (Steps true) (detectCycle id active) := by
    rw [detectCycle]
    split
    · exact steps_throw
    · refine steps_bind steps_get fun s => ?_
      split
      · exact steps_throw
      · exact steps_pure
  rw [attachDependencies]
  split
  · exact steps_pure
  · refine steps_bind hresolve fun active => ?_
    split
    · exact steps_pure
    · refine steps_bind (hdetect active) fun _ => steps_modify fun s => ?_
      exact steps_update (by intro r; exact ⟨rfl, rfl, rfl⟩) nofun

theorem steps_insertTagsFlagged {b : Bool} {id : Int} {tags : List (String × String)} :
    Txn.Always (Steps b) (insertTagsFlagged id tags) :=
  steps_bind (steps_modify fun s => (Stmt.settings s _ _ _ _).steps) fun _ => steps_insertTags

private theorem steps_finishInsert {id : Int} : Txn.Always (Steps true) (finishInsert sub id now) := by
  refine steps_bind (steps_modify fun s => (Stmt.settings s _ _ _ _).steps) fun _ => ?_
  refine steps_bind steps_insertTagsFlagged fun _ => steps_bind steps_attachDependencies fun _ => ?_
  refine steps_bind (steps_map steps_get) fun groupPaused => ?_
  refine steps_bind (steps_modify fun s => ?_) fun _ => steps_pure
  split
  · exact steps_update (by intro r; exact ⟨rfl, rfl, rfl⟩) (by intro _ r h; cases h)
  · exact .refl

theorem steps_skipExisting {b : Bool} {key : String} {priority : Priority} {skipRequeue : Bool} :
    Txn.Always (Steps b) (skipExisting key priority skipRequeue) := by
  have hupdate : ∀ (p : TaskRow → Bool) (f : TaskRow → TaskRow),
      (∀ r, (f r).id = r.id ∧ (f r).inst = r.inst ∧ (f r).key = r.key) → (∀ r, (f r).status = r.status) →
      Txn.Always (Steps b) (updateByKey p f) := fun p f hf hst s => steps_update hf fun _ r h => hst r ▸ h
  refine steps_bind (hupdate _ _ (fun _ => ⟨rfl, rfl, rfl⟩) fun _ => rfl) fun upgraded => ?_
  split
  · exact steps_pure
  · split
    · exact steps_pure
    · refine steps_bind (hupdate _ _ (fun _ => ⟨rfl, rfl, rfl⟩) fun _ => rfl) fun requeued => ?_
      split
      · exact steps_pure
      · exact steps_pure

theorem steps_supersedeExisting {b : Bool} {key : String} :
    Txn.Always (Steps b) (supersedeExisting sub key now) := by
  refine steps_bind (steps_map steps_get) fun row => ?_
  split
  · exact steps_pure
  · rename_i existing
    have hplace : Txn.Always (Steps b) (supersedeInPlace sub existing.id now) := by
      refine steps_bind (steps_modify fun s => ?_) fun _ => ?_
      · exact (Stmt.renew s existing.id (sub.supersedeRow s.nextInst now) (fun _ => ⟨rfl, rfl, rfl⟩) fun _ =>
          rfl).steps
      · exact steps_bind (steps_modify fun s => (Stmt.tags s _).steps) fun _ =>
          steps_bind steps_insertTags fun _ => steps_pure
    have hreplace : Txn.Always (Steps b) (supersedeReplace sub key existing.id now) :=
      steps_bind (steps_modify fun s => steps_delete s existing.id) fun _ =>
        steps_bind (steps_insertTask rfl) fun _ => steps_bind steps_insertTags fun _ => steps_pure
    refine steps_bind steps_insertHistory fun _ => ?_
    split
    · exact hplace
    · exact hplace
    · exact hplace
    · exact hreplace
    · exact hreplace

theorem steps_submitOne {sha256 : List UInt8 → String} {skipRequeue : Bool} :
    Txn.Always (Steps true) (submitOne sha256 sub skipRequeue now) := by
  refine steps_bind steps_ofExcept fun _ => steps_bind (steps_insertOrIgnoreTask rfl) fun inserted => ?_
  split
  · exact steps_finishInsert
  · split
    · exact steps_pure
    · exact steps_supersedeExisting
    · exact steps_skipExisting

theorem steps_submitItem {sha256 : List UInt8 → String} {skipRequeue : Bool} {last : Nat → String → Bool}
    (item : Nat × TaskSubmission) : Txn.Always (Steps true) (submitItem sha256 skipRequeue last now item) := by
  rw [submitItem]
  split
  · exact steps_submitOne
  · exact steps_pure

private theorem steps_submitEach {sha256 : List UInt8 → String} {skipRequeue : Bool}
    (batch : List (TaskSubmission × Int)) (s : Store) :
    Steps true s (submitEach sha256 skipRequeue batch s).2 := by
  induction batch generalizing s with
  | nil => exact .refl
  | cons m batch ih => exact (steps_submitOne s).trans (ih _)

end Submission

/-! ### The steps of the store -/

theorem RowUpdate.exec_eq (u : RowUpdate) (s : Store) :
    ∃ p f, (∀ r, (f r).id = r.id ∧ (f r).inst = r.inst ∧ (f r).key = r.key) ∧
      (∀ r, (f r).status = .blocked → r.status = .blocked) ∧ u.exec s = s.updateTasks p f := by
  cases u <;> refine ⟨_, _, ?_, ?_, rfl⟩ <;> intro r <;>
    first | exact ⟨rfl, rfl, rfl⟩ | exact fun h => h | exact nofun

private theorem steps_claimRows {b : Bool} {p : TaskRow → Bool} {now : Int} :
    Txn.Always (Steps b) (claimRows p now) :=
  fun s => steps_update (by intro r; exact ⟨rfl, rfl, rfl⟩) (by intro _ r h; cases h)

private theorem steps_popFirst {b : Bool} {limit : Nat} {aging : Option AgingParams} {now : Int} :
    Txn.Always (Steps b) (popFirst limit aging now) :=
  steps_bind (steps_map steps_get) fun _ => steps_bind steps_claimRows fun _ =>
    steps_bind (steps_modify fun s => (Stmt.settings s _ _ _ _).steps) fun _ => steps_pure

theorem steps_maybePrune {b : Bool} (s : Store) (now : Int) : Steps b s (s.maybePrune now) := by
  rw [Store.maybePrune]
  split
  · exact .refl
  · have hcount : Stmt b s { s with completionCount := s.completionCount + 1 } := .settings s _ _ _ _
    dsimp only
    split
    · exact hcount.steps
    · split
      · exact hcount.steps.tail (Stmt.history _ _ _)
      · exact hcount.steps.tail (Stmt.history _ _ _)

private theorem steps_recoverRunning {b : Bool} (s : Store) (now : Int) : Steps b s (s.recoverRunning now) := by
  have hreset : Steps b s s.resetRunning := steps_update (fun _ => ⟨rfl, rfl, rfl⟩) (by intro _ r h; cases h)
  have hsettle : Steps b s.resetRunning (s.resetRunning.settlePauses now) :=
    steps_update (fun _ => ⟨rfl, rfl, rfl⟩) fun _ r h => h
  have hclean := (hreset.trans hsettle).tail
    (Stmt.deleteEdges _ fun e => (s.resetRunning.settlePauses now).ids.contains e.2)
  rw [Store.recoverRunning]
  split
  · exact hclean
  · exact hclean.trans (steps_update (by intro r; exact ⟨rfl, rfl, rfl⟩) (by intro _ r h; cases h))

/-- The steps that submit tasks. -/
def Action.submits : Action → Bool
  | .submitDirect .. | .processSubmitBatch .. | .submitChunk .. => true
  | _ => false

/-- The steps that change the paused groups. -/
def Action.setsGroups : Action → Bool
  | .pauseGroupState .. | .resumeGroupState .. => true
  | _ => false

private theorem steps_exec (sha256 : List UInt8 → String) (s : Store) (a : Action) {b : Bool}
    (hsub : a.submits = true → b = true) (hgroups : a.setsGroups = true → b = false) :
    Steps b s (a.exec sha256 s) := by
  cases a with
  | update u =>
    obtain ⟨p, f, hf, hb, he⟩ := u.exec_eq s
    rw [Action.exec, he]
    exact steps_update hf fun _ => hb
  | submitDirect sub now =>
    obtain rfl := hsub rfl
    exact steps_transaction (fun s => steps_submitOne s) s
  | processSubmitBatch skipRequeue batch =>
    obtain rfl := hsub rfl
    exact steps_submitEach batch s
  | submitChunk skipRequeue last now chunk =>
    obtain rfl := hsub rfl
    exact steps_transaction (steps_mapList steps_submitItem chunk) s
  | claimTask id now =>
    exact steps_bind steps_claimRows (fun _ =>
      steps_bind (steps_modify fun s => (Stmt.settings s _ _ _ _).steps) fun _ => steps_pure) s
  | popById id now =>
    exact steps_bind steps_claimRows (fun _ => steps_bind steps_get fun _ => steps_pure) s
  | popNextBatch limit aging now =>
    rw [Action.exec, popNextBatch.eq_def]
    split
    · exact .refl
    · exact steps_bind (steps_bind steps_popFirst fun _ => steps_pure) (fun _ => steps_pure) s
    · exact steps_popFirst s
  | complete id metrics now => exact steps_completeTx s
  | completeWithRecord task metrics now => exact steps_transaction (fun s => steps_completeInner s) s
  | completeBatch items now => exact steps_completeBatchTx s
  | resolveDependents id now => exact steps_transaction steps_resolveDependentsInner s
  | fail id error retryable maxRetries metrics backoff now => exact steps_failTx s
  | failWithRecord task error retryable maxRetries metrics backoff now => exact steps_transaction steps_failInner s
  | failBatch items now => exact steps_failBatchTx s
  | failDependents id now => exact steps_transaction (fun s => steps_failDependentsInner s) s
  | cancelToHistory id now => exact steps_cancelToHistoryTx s
  | cancelToHistoryWithRecord task now => exact steps_transaction steps_cancelInner s
  | cancelChildren parent read now => exact steps_cancelChildrenTx s
  | expireTasks now => exact steps_expireTasksTx s
  | expireSingle id now => exact steps_expireSingle s
  | pauseGroupState group resumeAt now =>
    rw [Action.exec, Store.pauseGroupState]
    split
    · exact .refl
    · exact (Stmt.groups s _ (hgroups rfl)).steps
  | resumeGroupState group => exact (Stmt.groups s _ (hgroups rfl)).steps
  | delete id => exact steps_delete s id
  | deleteHistory historyId => exact (Stmt.history s _ _).steps
  | pruneHistoryByAge days now => exact (Stmt.history s _ _).steps
  | pruneHistoryByCount keep => exact (Stmt.history s _ _).steps
  | maybePrune now => exact steps_maybePrune s now
  | recoverRunning now => exact steps_recoverRunning s now

/-- Every step of the store is a sequence of statements, and only submissions insert edges. -/
theorem Action.steps (sha256 : List UInt8 → String) (s : Store) (a : Action) :
    Steps a.submits s (a.exec sha256 s) := by
  refine steps_exec sha256 s a (fun h => h) fun h => ?_
  cases a with
  | pauseGroupState group resumeAt now => rfl
  | resumeGroupState group => rfl
  | _ => cases h

/-- Only two steps change the paused groups. -/
theorem Action.pausedGroups_exec (sha256 : List UInt8 → String) (s : Store) {a : Action} (ha : a.setsGroups = false) :
    (a.exec sha256 s).pausedGroups = s.pausedGroups := by
  refine (steps_exec sha256 s a (b := true) (fun _ => rfl) fun h => ?_).pausedGroups
  rw [ha] at h
  cases h

/-- What a new database has and every statement keeps holds in every state of a run. -/
theorem ReachableVia.of_stmt {sha256 : List UInt8 → String} {guard : Store → Action → Prop} {I : Store → Prop}
    (h₀ : ∀ s, s.Fresh → I s) (hI : ∀ b s s', Stmt b s s' → I s → I s') {s : Store}
    (h : ReachableVia sha256 guard s) : I s :=
  h.invariant h₀ fun s a hs _ => (a.steps sha256 s).invariant (hI _) hs

/-! ### Rows that are not blocked -/

/-- No row with this id is blocked. -/
def Store.NotBlocked (s : Store) (id : Int) : Prop := ∀ r ∈ s.tasks, r.id = id → r.status ≠ .blocked

private theorem stmt_notBlocked {s s' : Store} {id : Int} (h : Stmt false s s') (hs : s.NotBlocked id) :
    s'.NotBlocked id := by
  intro r' hr' hid hb
  cases h with
  | update p f hf hst =>
    obtain ⟨r, hr, rfl⟩ := List.mem_map.1 hr'
    by_cases hp : p r = true
    · rw [if_pos hp] at hid hb
      rw [(hf r).1] at hid
      exact hs r hr hid (hst rfl r hb)
    · rw [if_neg hp] at hid hb
      exact hs r hr hid hb
  | renew id' f hf hst =>
    obtain ⟨r, hr, rfl⟩ := List.mem_map.1 hr'
    by_cases hp : (r.id == id') = true
    · rw [if_pos hp, hst] at hb
      cases hb
    · rw [if_neg hp] at hid hb
      exact hs r hr hid hb
  | delete p => exact hs r' (List.mem_of_mem_filter hr') hid hb
  | add row hk hrow =>
    rcases List.mem_append.1 hr' with hr' | hr'
    · exact hs r' hr' hid hb
    · rw [List.mem_singleton] at hr'
      subst hr'
      rw [show row.status = .blocked from hb] at hrow
      cases hrow
  | _ => exact hs r' hr' hid hb

theorem Store.NotBlocked.steps {s s' : Store} {id : Int} (hs : s.NotBlocked id) (h : Steps false s s') :
    s'.NotBlocked id :=
  h.invariant (fun _ _ hst hb => stmt_notBlocked hst hb) hs

end Taskmill
