import Taskmill.Schema

/-!
# The cases of a submission

`submit_one` written out: what it returns and leaves for an invalid submission, for a key that is already there and
for a new key, and the four ends of the dependency handling of a new row.
-/

namespace Taskmill

open Transact

/-- The dependencies that get an edge: neither in history nor failed, and in the active queue. -/
def Store.activeDeps (s : Store) (policy : DependencyFailurePolicy) (deps : List Int) :
    Except StoreError (List Int) :=
  if maxVariableNumber < deps.length then .error variablesError
  else
    match needActiveCheck s policy deps with
    | .error e => .error e
    | .ok needed => activeDependencies s needed

/-- The edges from `taskId` to the tasks `active`. -/
def edgesFrom (taskId : Int) (active : List Int) : List (Int × Int) := active.map fun dep => (taskId, dep)

theorem mem_edgesFrom {taskId : Int} {active : List Int} {e : Int × Int} :
    e ∈ edgesFrom taskId active ↔ e.1 = taskId ∧ e.2 ∈ active := by
  rcases e with ⟨x, y⟩
  simp only [edgesFrom, List.mem_map, Prod.mk.injEq]
  constructor
  · rintro ⟨dep, hdep, rfl, rfl⟩
    exact ⟨rfl, hdep⟩
  · rintro ⟨rfl, hy⟩
    exact ⟨y, hy, rfl, rfl⟩

/-- The store with more edges. -/
@[simps] def Store.addEdges (s : Store) (edges : List (Int × Int)) : Store :=
  { s with taskDeps := s.taskDeps ++ edges }

/-- The row is blocked. -/
def Store.block (s : Store) (taskId : Int) : Store :=
  s.updateTasks (·.id == taskId) fun r => { r with status := .blocked }

/-- The edges can all be inserted: there are not too many of them, and none of them is there already. -/
def Store.TakesEdges (s : Store) (taskId : Int) (active : List Int) : Prop :=
  2 * active.length ≤ maxVariableNumber ∧ active.Nodup ∧ ∀ dep ∈ active, (taskId, dep) ∉ s.taskDeps

instance (s : Store) (taskId : Int) (active : List Int) : Decidable (s.TakesEdges taskId active) :=
  inferInstanceAs (Decidable (_ ∧ _))

/-- Why edges are not inserted. -/
def edgesError (active : List Int) : StoreError :=
  if maxVariableNumber < 2 * active.length then variablesError else taskDepsError

theorem insertEdges_apply (taskId : Int) (deps : List Int) (s : Store) :
    insertEdges taskId deps s =
      if s.TakesEdges taskId deps then (.ok (), s.addEdges (edgesFrom taskId deps))
      else (.error (edgesError deps), s) := by
  rw [insertEdges, edgesError]
  by_cases hmany : maxVariableNumber < 2 * deps.length
  · rw [if_pos hmany, if_pos hmany, if_neg fun h => absurd h.1 (Nat.not_le.2 hmany)]
  · rw [if_neg hmany, if_neg hmany]
    by_cases hins : deps.Nodup ∧ ∀ dep ∈ deps, (taskId, dep) ∉ s.taskDeps
    · rw [if_pos hins, if_pos ⟨Nat.not_lt.1 hmany, hins⟩]
      rfl
    · rw [if_neg hins, if_neg fun h => hins h.2]

/-- `detect_cycle` fails: the query has too many seeds, or it reaches the new task. -/
def Store.RefusesSeeds (s : Store) (taskId : Int) (seeds : List Int) : Prop :=
  maxCompoundSelect ≤ seeds.length ∨ taskId ∈ reached s.taskDeps seeds

instance (s : Store) (taskId : Int) (seeds : List Int) : Decidable (s.RefusesSeeds taskId seeds) :=
  inferInstanceAs (Decidable (_ ∨ _))

/-- With which error `detect_cycle` fails. -/
def seedsError (seeds : List Int) : StoreError :=
  if maxCompoundSelect ≤ seeds.length then compoundSelectError else .cyclicDependency

theorem detectCycle_apply (newTaskId : Int) (deps : List Int) (s : Store) :
    detectCycle newTaskId deps s =
      if s.RefusesSeeds newTaskId deps then (.error (seedsError deps), s) else (.ok (), s) := by
  rw [detectCycle, seedsError]
  by_cases hmany : maxCompoundSelect ≤ deps.length
  · rw [if_pos hmany, if_pos hmany, if_pos (.inl hmany)]
    rfl
  · rw [if_neg hmany, if_neg hmany]
    show (if newTaskId ∈ reached s.taskDeps deps then Txn.throw .cyclicDependency else pure () : Sql Unit) s = _
    by_cases hcycle : newTaskId ∈ reached s.taskDeps deps
    · rw [if_pos hcycle, if_pos (.inr hcycle)]
      rfl
    · rw [if_neg hcycle, if_neg fun h => h.elim hmany hcycle]
      rfl

private theorem activeDeps_nil (s : Store) (policy : DependencyFailurePolicy) : s.activeDeps policy [] = .ok [] := rfl

private theorem ofExcept_ok_bind {α β : Type} (a : α) (f : α → Sql β) (s : Store) :
    ((Txn.ofExcept (.ok a) : Sql α) >>= f) s = f a s := rfl

private theorem ofExcept_error_bind {α β : Type} (e : StoreError) (f : α → Sql β) (s : Store) :
    ((Txn.ofExcept (.error e) : Sql α) >>= f) s = (.error e, s) := rfl

theorem resolveDependencyEdges_apply (taskId : Int) (deps : List Int) (policy : DependencyFailurePolicy) (s : Store) :
    resolveDependencyEdges taskId deps policy s =
      match s.activeDeps policy deps with
      | .error e => (.error e, s)
      | .ok active =>
        if active = [] then (.ok [], s)
        else if s.TakesEdges taskId active then (.ok active, s.addEdges (edgesFrom taskId active))
        else (.error (edgesError active), s) := by
  rw [resolveDependencyEdges, Store.activeDeps]
  by_cases hmany : maxVariableNumber < deps.length
  · rw [if_pos hmany, if_pos hmany]
    rfl
  · rw [if_neg hmany, if_neg hmany, Txn.get_bind_apply]
    cases needActiveCheck s policy deps with
    | error e => rfl
    | ok needed =>
      rw [ofExcept_ok_bind]
      dsimp only
      cases activeDependencies s needed with
      | error e => rw [ofExcept_error_bind]
      | ok active =>
        rw [ofExcept_ok_bind]
        dsimp only
        by_cases hempty : active = []
        · subst hempty
          rfl
        · rw [if_neg (by simpa using hempty), if_neg hempty, Txn.bind_apply, insertEdges_apply]
          by_cases hins : s.TakesEdges taskId active
          · rw [if_pos hins, if_pos hins]
            rfl
          · rw [if_neg hins, if_neg hins]

/-- The ends of the dependency handling. -/
theorem attachDependencies_apply (taskId : Int) (deps : List Int) (policy : DependencyFailurePolicy) (s : Store) :
    attachDependencies taskId deps policy s =
      match s.activeDeps policy deps with
      | .error e => (.error e, s)
      | .ok active =>
        if active = [] then (.ok (), s)
        else if s.TakesEdges taskId active then
          if (s.addEdges (edgesFrom taskId active)).RefusesSeeds taskId active then
            (.error (seedsError active), s.addEdges (edgesFrom taskId active))
          else (.ok (), (s.addEdges (edgesFrom taskId active)).block taskId)
        else (.error (edgesError active), s) := by
  by_cases hdeps : deps = []
  · subst hdeps
    rw [activeDeps_nil]
    rfl
  · have hne : ¬ deps.isEmpty = true := by simpa using hdeps
    rw [attachDependencies, if_neg hne, Txn.bind_apply, resolveDependencyEdges_apply]
    cases s.activeDeps policy deps with
    | error e => rfl
    | ok active =>
      dsimp only
      by_cases hempty : active = []
      · rw [if_pos hempty, if_pos hempty]
        rfl
      · rw [if_neg hempty, if_neg hempty]
        by_cases hins : s.TakesEdges taskId active
        · rw [if_pos hins, if_pos hins]
          dsimp only
          rw [if_neg (by simpa using hempty), Txn.bind_apply, detectCycle_apply]
          by_cases hcycle : (s.addEdges (edgesFrom taskId active)).RefusesSeeds taskId active
          · rw [if_pos hcycle, if_pos hcycle]
          · rw [if_neg hcycle, if_neg hcycle]
            rfl
        · rw [if_neg hins, if_neg hins]

/-- The new edges cannot lead back to the task themselves, so a cycle is a path through the edges that are there. -/
theorem mem_reached_edgesFrom {taskId : Int} {active : List Int} {edges : List (Int × Int)} :
    taskId ∈ reached (edges ++ edgesFrom taskId active) active ↔
      ∃ dep ∈ active, Relation.ReflTransGen (Edge edges) dep taskId := by
  rw [mem_reached]
  constructor
  · rintro ⟨dep, hdep, hpath⟩
    exact ⟨dep, hdep, reflTransGen_of_append (fun e he => (mem_edgesFrom.1 he).1) hpath⟩
  · rintro ⟨dep, hdep, hpath⟩
    exact ⟨dep, hdep, Relation.ReflTransGen.mono (fun _ _ h => List.mem_append_left _ h) dep taskId hpath⟩

/-- A query with few seeds refuses the new task only if a path leads back to it. -/
theorem refusesSeeds_edgesFrom {s : Store} {taskId : Int} {active : List Int} :
    (s.addEdges (edgesFrom taskId active)).RefusesSeeds taskId active ↔
      maxCompoundSelect ≤ active.length ∨ ∃ dep ∈ active, Relation.ReflTransGen (Edge s.taskDeps) dep taskId := by
  rw [Store.RefusesSeeds, Store.addEdges_taskDeps, mem_reached_edgesFrom]

theorem needActiveCheck_error {s : Store} {policy : DependencyFailurePolicy} {deps : List Int} {e : StoreError}
    (h : needActiveCheck s policy deps = .error e) : ∃ dep ∈ deps, e = .dependencyFailed dep := by
  induction deps with
  | nil => cases h
  | cons d deps ih =>
    have hrest : needActiveCheck s policy deps = .error e → ∃ dep ∈ d :: deps, e = .dependencyFailed dep := by
      intro h
      obtain ⟨dep, hdep, he⟩ := ih h
      exact ⟨dep, List.mem_cons_of_mem _ hdep, he⟩
    unfold needActiveCheck at h
    split at h
    · exact hrest h
    · split at h
      · exact ⟨d, List.mem_cons_self .., (Except.error.inj h).symm⟩
      · exact ⟨d, List.mem_cons_self .., (Except.error.inj h).symm⟩
      · exact hrest h
    · cases hr : needActiveCheck s policy deps with
      | error e' =>
        rw [hr] at h
        exact hrest (by rw [hr]; exact h)
      | ok rest =>
        rw [hr] at h
        cases h

theorem activeDependencies_error {s : Store} {deps : List Int} {e : StoreError}
    (h : activeDependencies s deps = .error e) : ∃ dep ∈ deps, e = .invalidDependency dep := by
  induction deps with
  | nil => cases h
  | cons d deps ih =>
    rw [activeDependencies] at h
    split at h
    · cases hr : activeDependencies s deps with
      | error e' =>
        rw [hr] at h
        obtain ⟨dep, hdep, he⟩ := ih (by rw [hr]; exact h)
        exact ⟨dep, List.mem_cons_of_mem _ hdep, he⟩
      | ok rest =>
        rw [hr] at h
        cases h
    · exact ⟨d, List.mem_cons_self .., (Except.error.inj h).symm⟩

/-- The dependencies are refused only if they are too many, or for a failed or an unknown one. -/
theorem activeDeps_error {s : Store} {policy : DependencyFailurePolicy} {deps : List Int} {e : StoreError}
    (h : s.activeDeps policy deps = .error e) :
    e = variablesError ∨ (∃ dep, e = .dependencyFailed dep) ∨ ∃ dep, e = .invalidDependency dep := by
  rw [Store.activeDeps] at h
  split at h
  · cases h
    exact .inl rfl
  · split at h
    · rename_i e' hn
      obtain ⟨dep, _, he⟩ := needActiveCheck_error hn
      cases h
      exact .inr (.inl ⟨dep, he⟩)
    · obtain ⟨dep, _, he⟩ := activeDependencies_error h
      exact .inr (.inr ⟨dep, he⟩)

/-- What is named within the limit is looked up. -/
theorem activeDeps_of_le {s : Store} {policy : DependencyFailurePolicy} {deps : List Int}
    (hle : deps.length ≤ maxVariableNumber) :
    s.activeDeps policy deps =
      match needActiveCheck s policy deps with
      | .error e => .error e
      | .ok needed => activeDependencies s needed := if_neg (Nat.not_lt.2 hle)

theorem activeDeps_ok_le {s : Store} {policy : DependencyFailurePolicy} {deps active : List Int}
    (h : s.activeDeps policy deps = .ok active) : deps.length ≤ maxVariableNumber := by
  by_contra hlt
  rw [Store.activeDeps, if_pos (Nat.not_le.1 hlt)] at h
  cases h

/-- The dependencies are looked up in `task_history` and among the ids of `tasks`. -/
theorem activeDeps_congr {s s' : Store} (hh : s'.taskHistory = s.taskHistory) (hi : s'.ids = s.ids)
    (policy : DependencyFailurePolicy) (deps : List Int) : s'.activeDeps policy deps = s.activeDeps policy deps := by
  have hstatus : ∀ dep, s'.historyStatus dep = s.historyStatus dep := by
    intro dep
    rw [Store.historyStatus, hh, ← Store.historyStatus]
  have hneed : ∀ deps, needActiveCheck s' policy deps = needActiveCheck s policy deps := by
    intro deps
    induction deps with
    | nil => rfl
    | cons d deps ih =>
      unfold needActiveCheck
      rw [hstatus, ih]
  have hact : ∀ needed, activeDependencies s' needed = activeDependencies s needed := by
    intro needed
    induction needed with
    | nil => rfl
    | cons d needed ih => rw [activeDependencies, activeDependencies, hi, ih]
  rw [Store.activeDeps, Store.activeDeps, hneed]
  by_cases hmany : maxVariableNumber < deps.length
  · rw [if_pos hmany, if_pos hmany]
  · rw [if_neg hmany, if_neg hmany]
    cases needActiveCheck s policy deps with
    | error e => rfl
    | ok needed => exact hact needed

/-- Only named dependencies get an edge. -/
theorem activeDeps_subset {s : Store} {policy : DependencyFailurePolicy} {deps active : List Int}
    (h : s.activeDeps policy deps = .ok active) : ∀ dep ∈ active, dep ∈ deps ∧ dep ∈ s.ids := by
  have hneed : ∀ deps needed, needActiveCheck s policy deps = .ok needed → ∀ dep ∈ needed, dep ∈ deps := by
    intro deps
    induction deps with
    | nil =>
      intro needed h
      cases h
      simp
    | cons d deps ih =>
      intro needed h dep hdep
      unfold needActiveCheck at h
      split at h
      · exact List.mem_cons_of_mem _ (ih needed h dep hdep)
      · split at h
        · cases h
        · cases h
        · exact List.mem_cons_of_mem _ (ih needed h dep hdep)
      · cases hrest : needActiveCheck s policy deps with
        | error e =>
          rw [hrest] at h
          cases h
        | ok rest =>
          rw [hrest] at h
          obtain rfl := Except.ok.inj h
          rcases List.mem_cons.1 hdep with rfl | hdep
          · exact List.mem_cons_self ..
          · exact List.mem_cons_of_mem _ (ih rest hrest dep hdep)
  have hact : ∀ needed active, activeDependencies s needed = .ok active → active = needed ∧
      ∀ dep ∈ needed, dep ∈ s.ids := by
    intro needed
    induction needed with
    | nil =>
      intro active h
      cases h
      simp
    | cons d needed ih =>
      intro active h
      rw [activeDependencies] at h
      split at h
      · rename_i hd
        cases hrest : activeDependencies s needed with
        | error e =>
          rw [hrest] at h
          cases h
        | ok rest =>
          rw [hrest] at h
          cases h
          obtain ⟨rfl, hids⟩ := ih rest hrest
          refine ⟨rfl, fun dep hdep => ?_⟩
          rcases List.mem_cons.1 hdep with rfl | hdep
          · exact List.contains_iff_mem.1 hd
          · exact hids dep hdep
      · cases h
  intro dep hdep
  rw [activeDeps_of_le (activeDeps_ok_le h)] at h
  cases hn : needActiveCheck s policy deps with
  | error e =>
    rw [hn] at h
    cases h
  | ok needed =>
    rw [hn] at h
    obtain ⟨rfl, hids⟩ := hact needed active h
    exact ⟨hneed deps _ hn dep hdep, hids dep hdep⟩

/-! ### A new row -/

/-- What `finish_insert` has done before the dependencies: tags and flags. -/
@[simps] def Store.tagged (s : Store) (tags : List (Int × String × String)) (hierarchy hasTags : Bool) : Store :=
  { s with taskTags := tags, hasHierarchy := hierarchy, hasTags := hasTags }

/-- The new row is paused if its group is. -/
def Store.pauseNew (s : Store) (taskId : Int) (group : Option String) (now : Int) : Store :=
  if s.groupPaused group then
    s.updateTasks (fun r => r.id == taskId && r.status == .pending) fun r => r.pauseFor .group now
  else s

theorem insertTags_error {id : Int} {tags : List (String × String)} {s s' : Store} {e : StoreError}
    (h : insertTags id tags s = (.error e, s')) : e = taskTagsError := by
  have hloop : ∀ (tags : List (String × String)) (s s' : Store),
      Txn.mapList (insertTag id) tags s = (.error e, s') → e = taskTagsError := by
    intro tags
    induction tags with
    | nil =>
      intro s s' h
      cases h
    | cons tag tags ih =>
      intro s s' h
      rcases Txn.bind_error h with h | ⟨_, s₁, _, h⟩
      · rw [insertTag] at h
        split at h
        · cases h
          rfl
        · cases h
      · rcases Txn.bind_error h with h | ⟨_, s₂, _, h⟩
        · exact ih _ _ h
        · cases h
  rcases Txn.bind_error h with h | ⟨_, s₁, _, h⟩
  · exact hloop _ _ _ h
  · cases h

/-- A tag with one of these keys is in `task_tags` for this id already: an earlier owner of the id left it. -/
def Store.TagLeft (s : Store) (id : Int) (tags : List (String × String)) : Prop :=
  ∃ t ∈ s.taskTags, t.1 = id ∧ t.2.1 ∈ tags.map Prod.fst

private theorem insertTag_apply (id : Int) (tag : String × String) (s : Store) :
    insertTag id tag s =
      if s.taskTags.any fun t => t.1 == id && t.2.1 == tag.1 then (.error taskTagsError, s)
      else (.ok (), s.withTags (s.taskTags ++ [(id, tag)])) := rfl

private theorem insertTag_loop {id : Int} {tags : List (String × String)} (hn : (tags.map Prod.fst).Nodup) {s : Store}
    (hfree : ¬ s.TagLeft id tags) :
    ∃ us, Txn.mapList (insertTag id) tags s = (.ok us, s.withTags (s.taskTags ++ tags.map fun tag => (id, tag))) := by
  induction tags generalizing s with
  | nil => exact ⟨[], by simp [Txn.mapList, Store.withTags]⟩
  | cons tag tags ih =>
    rw [List.map_cons, List.nodup_cons] at hn
    have hhead : ¬ (s.taskTags.any fun t => t.1 == id && t.2.1 == tag.1) = true := by
      rw [List.any_eq_true]
      rintro ⟨t, ht, he⟩
      simp only [Bool.and_eq_true, beq_iff_eq] at he
      exact hfree ⟨t, ht, he.1, by rw [he.2, List.map_cons]; exact List.mem_cons_self ..⟩
    have hrest : ¬ (s.withTags (s.taskTags ++ [(id, tag)])).TagLeft id tags := by
      rintro ⟨t, ht, hid, hkey⟩
      rcases List.mem_append.1 ht with ht | ht
      · exact hfree ⟨t, ht, hid, by rw [List.map_cons]; exact List.mem_cons_of_mem _ hkey⟩
      · rw [List.mem_singleton] at ht
        rw [ht] at hkey
        exact hn.1 hkey
    obtain ⟨us, hus⟩ := ih hn.2 hrest
    refine ⟨() :: us, ?_⟩
    rw [Txn.mapList, Txn.bind_apply, insertTag_apply, if_neg hhead]
    dsimp only
    rw [Txn.bind_apply, hus]
    simp [Store.withTags]

/-- Tags with different keys are inserted unless an earlier owner of the id left one of them. -/
theorem insertTags_free {id : Int} {tags : List (String × String)} (hn : (tags.map Prod.fst).Nodup) {s : Store}
    (hfree : ¬ s.TagLeft id tags) :
    insertTags id tags s = (.ok (), s.withTags (s.taskTags ++ tags.map fun tag => (id, tag))) := by
  obtain ⟨us, hus⟩ := insertTag_loop hn hfree
  rw [insertTags, Txn.bind_of_ok hus]
  rfl

/-- The tags cannot all be inserted for this id: two of them have the same key, or an earlier owner left one. -/
def Store.TagsRefused (s : Store) (id : Int) (tags : List (String × String)) : Prop :=
  ¬ (tags.map Prod.fst).Nodup ∨ s.TagLeft id tags

private theorem insertTag_loop_ok {id : Int} {tags : List (String × String)} {s s' : Store} {us : List Unit}
    (h : Txn.mapList (insertTag id) tags s = (.ok us, s')) : (tags.map Prod.fst).Nodup ∧ ¬ s.TagLeft id tags := by
  induction tags generalizing s us s' with
  | nil =>
    refine ⟨List.nodup_nil, ?_⟩
    rintro ⟨t, _, _, hkey⟩
    cases hkey
  | cons tag tags ih =>
    obtain ⟨u, s₁, h₁, h⟩ := Txn.bind_ok h
    obtain ⟨rest, s₂, h₂, _⟩ := Txn.bind_ok h
    rw [insertTag_apply] at h₁
    split at h₁
    · cases h₁
    · rename_i hany
      cases h₁
      obtain ⟨hn, hfree⟩ := ih h₂
      constructor
      · rw [List.map_cons, List.nodup_cons]
        exact ⟨fun hmem => hfree ⟨(id, tag), List.mem_append_right _ (List.mem_singleton_self _), rfl, hmem⟩, hn⟩
      · rintro ⟨t, ht, hid, hkey⟩
        rw [List.map_cons] at hkey
        rcases List.mem_cons.1 hkey with hkey | hkey
        · exact hany (List.any_eq_true.2 ⟨t, ht, by simp [hid, hkey]⟩)
        · exact hfree ⟨t, List.mem_append_left _ ht, hid, hkey⟩

theorem insertTags_refused {id : Int} {tags : List (String × String)} {s : Store} (href : s.TagsRefused id tags) :
    ∃ tt, insertTags id tags s = (.error taskTagsError, s.withTags tt) := by
  rcases h : insertTags id tags s with ⟨e | u, s'⟩
  · obtain ⟨tt, rfl⟩ := insertTags_leaves h
    exact ⟨tt, by rw [insertTags_error h]⟩
  · obtain ⟨us, s₁, h₁, _⟩ := Txn.bind_ok h
    obtain ⟨hn, hfree⟩ := insertTag_loop_ok h₁
    rcases href with h | h
    · exact absurd hn h
    · exact absurd h hfree

/-- The ends of `submit_one` after the row is in: the tags clash, the dependencies are refused, or it is inserted. -/
theorem finishInsert_cases (sub : TaskSubmission) (taskId now : Int) (s : Store) :
    ∃ tags hierarchy hasTags,
      (insertTags taskId sub.tags.entries (s.tagged s.taskTags hierarchy hasTags) =
          (.error taskTagsError, s.tagged tags hierarchy hasTags) ∧
        finishInsert sub taskId now s = (.error taskTagsError, s.tagged tags hierarchy hasTags)) ∨
      insertTags taskId sub.tags.entries (s.tagged s.taskTags hierarchy hasTags) =
          (.ok (), s.tagged tags hierarchy hasTags) ∧
        ((∃ e s₂, attachDependencies taskId sub.dependencies sub.onDependencyFailure
          (s.tagged tags hierarchy hasTags) =
            (.error e, s₂) ∧ finishInsert sub taskId now s = (.error e, s₂)) ∨
          ∃ s₂, attachDependencies taskId sub.dependencies sub.onDependencyFailure (s.tagged tags hierarchy hasTags) =
            (.ok (), s₂) ∧
            finishInsert sub taskId now s =
              (.ok (.inserted taskId (s₂.groupPaused sub.groupKey)), s₂.pauseNew taskId sub.groupKey now)) := by
  have hstart : finishInsert sub taskId now s =
      (do
        insertTags taskId sub.tags.entries
        attachDependencies taskId sub.dependencies sub.onDependencyFailure
        let groupPaused ← (fun s => s.groupPaused sub.groupKey) <$> Txn.get
        Txn.modify fun s =>
          if groupPaused then
            s.updateTasks (fun r => r.id == taskId && r.status == .pending) fun r => r.pauseFor .group now
          else s
        pure (.inserted taskId groupPaused) : Sql SubmitOutcome)
      (s.tagged s.taskTags (s.hasHierarchy || sub.parentId.isSome) (s.hasTags || !sub.tags.entries.isEmpty)) := rfl
  rw [hstart]
  generalize (s.hasHierarchy || sub.parentId.isSome) = hierarchy
  generalize (s.hasTags || !sub.tags.entries.isEmpty) = hasTags
  obtain ⟨tt, htags⟩ := insertTags_state taskId sub.tags.entries (s.tagged s.taskTags hierarchy hasTags)
  refine ⟨tt, hierarchy, hasTags, ?_⟩
  rcases hins : insertTags taskId sub.tags.entries (s.tagged s.taskTags hierarchy hasTags) with ⟨e | ⟨⟩, s₁⟩
  · obtain rfl := insertTags_error hins
    rw [hins] at htags
    subst htags
    exact .inl ⟨rfl, Txn.bind_of_error hins⟩
  · rw [hins] at htags
    subst htags
    refine .inr ⟨rfl, ?_⟩
    rw [Txn.bind_of_ok hins]
    rcases hatt : attachDependencies taskId sub.dependencies sub.onDependencyFailure
      ((s.tagged s.taskTags hierarchy hasTags).withTags tt) with ⟨e | ⟨⟩, s₂⟩
    · exact .inl ⟨e, s₂, hatt, Txn.bind_of_error hatt⟩
    · exact .inr ⟨s₂, hatt, Txn.bind_of_ok hatt⟩

/-! ### Duplicates -/

/-- An `UPDATE` that reports no row has changed none. -/
private theorem updateByKey_none {p : TaskRow → Bool} {f : TaskRow → TaskRow} {s s' : Store}
    (h : updateByKey p f s = (.ok none, s')) : s' = s := by
  have hnone : s.tasks.find? p = none := by
    have hid : Except.ok ((s.tasks.find? p).map (·.id)) = (Except.ok none : Except StoreError (Option Int)) :=
      congrArg Prod.fst h
    cases hf : s.tasks.find? p with
    | none => rfl
    | some r =>
      rw [hf] at hid
      cases hid
  obtain rfl : s.updateTasks p f = s' := (Prod.mk.inj h).2
  have hrows : (s.tasks.map fun r => if p r then f r else r) = s.tasks := by
    conv_rhs => rw [← List.map_id s.tasks]
    refine List.map_congr_left fun r hr => ?_
    rw [if_neg (List.find?_eq_none.1 hnone r hr)]
    rfl
  rw [Store.updateTasks, hrows]

/-- `skip_existing` upgrades the row with the key, or marks it for another run, or leaves everything as it is. -/
theorem skipExisting_state {I : Store → Prop} {key : String} {priority : Priority} {skipRequeue : Bool} {s : Store}
    (hs : I s)
    (hupgraded : I (s.updateTasks
      (fun r => r.key == key && (r.status == .pending || r.status == .paused) && priority < r.priority)
      fun r => { r with priority := priority }))
    (hrequeued : I (s.updateTasks
      (fun r => r.key == key && (r.status == .running || r.status == .paused) &&
        (!r.requeue || r.requeuePriority.any (priority < ·)))
      fun r => { r with requeue := true, requeuePriority := some priority })) :
    I (skipExisting key priority skipRequeue s).2 := by
  refine Txn.bind_state (fun _ _ h => absurd h Txn.ok_ne_error) fun upgraded s₁ h₁ => ?_
  cases upgraded with
  | some id =>
    obtain rfl := (Prod.mk.inj h₁).2
    exact hupgraded
  | none =>
    obtain rfl := updateByKey_none h₁
    dsimp only
    split
    · exact hs
    · refine Txn.bind_state (fun _ _ h => absurd h Txn.ok_ne_error) fun requeued s₂ h₂ => ?_
      obtain rfl := (Prod.mk.inj h₂).2
      cases requeued with
      | some id => exact hrequeued
      | none => exact hrequeued

/-- The row is renewed, whatever becomes of the new tags. -/
theorem supersedeInPlace_state (sub : TaskSubmission) (id now : Int) (s : Store) :
    ∃ tags, (supersedeInPlace sub id now s).2 =
      { s.updateTasks (·.id == id) (sub.supersedeRow s.nextInst now) with
        nextInst := s.nextInst + 1 }.withTags tags := by
  rw [supersedeInPlace, Txn.modify_bind_apply, Txn.modify_bind_apply, Txn.bind_pure_state]
  exact insertTags_state id sub.tags.entries _

/-- The key is free once the row is deleted, so the new row can be inserted. -/
theorem supersedeReplace_apply (sub : TaskSubmission) (now : Int) {key : String} {row : TaskRow} {s : Store}
    (hschema : s.Schema) (hrow : s.taskByKey key = some row) :
    supersedeReplace sub key row.id now s =
      (do
        insertTags (s.delete row.id).nextTaskId sub.tags.entries
        pure (.superseded (s.delete row.id).nextTaskId row.id) : Sql SubmitOutcome)
      ((s.delete row.id).addTask (sub.baseRow key now)) := by
  have hfree := hschema.taskByKey_delete hrow
  have hins : insertTask (sub.baseRow key now) (s.delete row.id) =
      (.ok (s.delete row.id).nextTaskId, (s.delete row.id).addTask (sub.baseRow key now)) := by
    rw [insertTask, if_neg]
    show ¬ ((s.delete row.id).taskByKey key).isSome = true
    rw [hfree]
    simp
  rw [supersedeReplace, Txn.modify_bind_apply]
  exact Txn.bind_of_ok hins

/-- The new row takes the place of the old one, whatever becomes of its tags. -/
theorem supersedeReplace_state (sub : TaskSubmission) (now : Int) {key : String} {row : TaskRow} {s : Store}
    (hschema : s.Schema) (hrow : s.taskByKey key = some row) :
    ∃ tags, (supersedeReplace sub key row.id now s).2 =
      ((s.delete row.id).addTask (sub.baseRow key now)).withTags tags := by
  rw [supersedeReplace_apply sub now hschema hrow, Txn.bind_pure_state]
  exact insertTags_state _ sub.tags.entries _

/-- `supersede_existing` writes the row with the key to the history, and then renews it in place or replaces it. -/
theorem supersedeExisting_state {I : Store → Prop} {sub : TaskSubmission} {key : String} {now : Int} {s : Store}
    (hs : I s)
    (hlogged : ∀ existing, s.taskByKey key = some existing → ∀ entry tags, I (s.log entry tags))
    (hplaced : ∀ existing, s.taskByKey key = some existing →
      existing.status = .pending ∨ existing.status = .paused ∨ existing.status = .blocked → ∀ entry tags,
        I (supersedeInPlace sub existing.id now (s.log entry tags)).2)
    (hreplaced : ∀ existing, s.taskByKey key = some existing →
      existing.status = .running ∨ existing.status = .waiting → ∀ entry tags,
        I (supersedeReplace sub key existing.id now (s.log entry tags)).2) :
    I (supersedeExisting sub key now s).2 := by
  refine Txn.bind_state (fun _ _ h => absurd h Txn.ok_ne_error) fun row s₁ h₁ => ?_
  obtain ⟨hrow, rfl⟩ : s.taskByKey key = row ∧ s = s₁ := by
    cases h₁
    exact ⟨rfl, rfl⟩
  cases row with
  | none => exact hs
  | some existing =>
    refine Txn.bind_state (fun e s' h => ?_) fun u s₁ h => ?_
    · obtain ⟨tags, rfl⟩ := insertHistory_leaves h
      exact hlogged existing hrow _ tags
    · obtain ⟨tags, rfl⟩ := insertHistory_leaves h
      cases hst : existing.status with
      | pending => exact hplaced existing hrow (.inl hst) _ tags
      | paused => exact hplaced existing hrow (.inr (.inl hst)) _ tags
      | blocked => exact hplaced existing hrow (.inr (.inr hst)) _ tags
      | running => exact hreplaced existing hrow (.inl hst) _ tags
      | waiting => exact hreplaced existing hrow (.inr hst) _ tags

/-! ### `submit_one` -/

section SubmitOne

variable {sha256 : List UInt8 → String} {sub : TaskSubmission} {skipRequeue : Bool} {now : Int} {s : Store}

theorem submitOne_invalid {e : StoreError} (hv : sub.validate = .error e) :
    submitOne sha256 sub skipRequeue now s = (.error e, s) := by
  rw [submitOne, hv]
  rfl

theorem submitOne_fresh (hv : sub.validate = .ok ()) (hk : s.taskByKey (sub.effectiveKey sha256) = none) :
    submitOne sha256 sub skipRequeue now s =
      finishInsert sub s.nextTaskId now (s.addTask (sub.newRow (sub.effectiveKey sha256) now)) := by
  have hins : insertOrIgnoreTask (sub.newRow (sub.effectiveKey sha256) now) s =
      (.ok (some s.nextTaskId), s.addTask (sub.newRow (sub.effectiveKey sha256) now)) := by
    rw [insertOrIgnoreTask, if_neg]
    show ¬ (s.taskByKey (sub.effectiveKey sha256)).isSome = true
    rw [hk]
    simp
  rw [submitOne, hv]
  exact Txn.bind_of_ok hins

theorem submitOne_duplicate (hv : sub.validate = .ok ()) {row : TaskRow}
    (hk : s.taskByKey (sub.effectiveKey sha256) = some row) :
    submitOne sha256 sub skipRequeue now s =
      match sub.onDuplicate with
      | .reject => (.ok .rejected, s)
      | .supersede => supersedeExisting sub (sub.effectiveKey sha256) now s
      | .skip => skipExisting (sub.effectiveKey sha256) sub.priority skipRequeue s := by
  have hins : insertOrIgnoreTask (sub.newRow (sub.effectiveKey sha256) now) s = (.ok none, s) := by
    rw [insertOrIgnoreTask, if_pos]
    show (s.taskByKey (sub.effectiveKey sha256)).isSome = true
    rw [hk]
    rfl
  rw [submitOne, hv]
  refine (Txn.bind_of_ok hins).trans ?_
  cases sub.onDuplicate with
  | skip => rfl
  | supersede => rfl
  | reject => rfl

end SubmitOne

/-! ### The flags of a submission -/

section FlagsUp

variable {sha256 : List UInt8 → String} {sub : TaskSubmission} {now : Int}

/-- Submissions raise the flags for tags and parents, and claim nothing. -/
structure Store.FlagsUp (s s' : Store) : Prop where
  tags : s.hasTags = true → s'.hasTags = true
  hierarchy : s.hasHierarchy = true → s'.hasHierarchy = true
  running : s'.hasRunning = s.hasRunning

private theorem up_same {s s' : Store} (htags : s'.hasTags = s.hasTags)
    (hhierarchy : s'.hasHierarchy = s.hasHierarchy) (hrunning : s'.hasRunning = s.hasRunning) : s.FlagsUp s' where
  tags hup := htags.trans hup
  hierarchy hup := hhierarchy.trans hup
  running := hrunning

theorem Store.FlagsUp.refl (s : Store) : s.FlagsUp s := up_same rfl rfl rfl

theorem Store.FlagsUp.trans (a b c : Store) (h : a.FlagsUp b) (h' : b.FlagsUp c) : a.FlagsUp c :=
  ⟨fun hup => h'.tags (h.tags hup), fun hup => h'.hierarchy (h.hierarchy hup), h'.running.trans h.running⟩

theorem Store.FlagsUp.rollback {s s' : Store} (h : s.FlagsUp s') : s.FlagsUp (s.rollback s') :=
  ⟨h.tags, h.hierarchy, h.running⟩

private theorem up_bind {α β : Type} {x : Sql α} {f : α → Sql β} (hx : Txn.Always Store.FlagsUp x)
    (hf : ∀ a, Txn.Always Store.FlagsUp (f a)) : Txn.Always Store.FlagsUp (x >>= f) := hx.bind Store.FlagsUp.trans hf

private theorem up_pure {α : Type} {a : α} : Txn.Always Store.FlagsUp (pure a : Sql α) := fun s => .refl s

private theorem up_modify {f : Store → Store} (hf : ∀ s, Store.FlagsUp s (f s)) :
    Txn.Always Store.FlagsUp (Txn.modify f : Sql Unit) := hf

private theorem up_insertTags {id : Int} {tags : List (String × String)} :
    Txn.Always Store.FlagsUp (insertTags id tags) := by
  intro s
  obtain ⟨tt, h⟩ := insertTags_state id tags s
  rw [h]
  exact up_same rfl rfl rfl

private theorem up_attachDependencies {taskId : Int} {deps : List Int} {policy : DependencyFailurePolicy} :
    Txn.Always Store.FlagsUp (attachDependencies taskId deps policy) := by
  intro s
  rw [attachDependencies_apply]
  split
  · exact up_same rfl rfl rfl
  · split
    · exact up_same rfl rfl rfl
    · split
      · split
        · exact up_same rfl rfl rfl
        · exact up_same rfl rfl rfl
      · exact up_same rfl rfl rfl

private theorem up_finishInsert {taskId : Int} : Txn.Always Store.FlagsUp (finishInsert sub taskId now) := by
  refine up_bind (up_modify fun s => ⟨id, fun h => by simp [h], rfl⟩) fun _ => up_bind ?_ fun _ => ?_
  · exact up_bind (up_modify fun s => ⟨fun h => by simp [h], id, rfl⟩) fun _ => up_insertTags
  · refine up_bind up_attachDependencies fun _ => up_bind (fun s => .refl s) fun paused => ?_
    refine up_bind (up_modify fun s => ?_) fun _ => up_pure
    split
    · exact up_same rfl rfl rfl
    · exact up_same rfl rfl rfl

private theorem up_skipExisting {key : String} {priority : Priority} {skipRequeue : Bool} :
    Txn.Always Store.FlagsUp (skipExisting key priority skipRequeue) := by
  refine up_bind (fun s => up_same rfl rfl rfl) fun upgraded => ?_
  split
  · exact up_pure
  · split
    · exact up_pure
    · refine up_bind (fun s => up_same rfl rfl rfl) fun requeued => ?_
      split
      · exact up_pure
      · exact up_pure

private theorem up_supersedeExisting {key : String} : Txn.Always Store.FlagsUp (supersedeExisting sub key now) := by
  have hplace (id : Int) : Txn.Always Store.FlagsUp (supersedeInPlace sub id now) :=
    up_bind (up_modify fun s => up_same rfl rfl rfl) fun _ =>
        up_bind (up_modify fun s => up_same rfl rfl rfl) fun _ =>
      up_bind up_insertTags fun _ => up_pure
  have hinsert (row : TaskRow) : Txn.Always Store.FlagsUp (insertTask row) := by
    intro s
    rw [insertTask]
    split
    · exact up_same rfl rfl rfl
    · exact up_same rfl rfl rfl
  refine up_bind (fun s => .refl s) fun row => ?_
  split
  · exact up_pure
  · refine up_bind (fun s => ?_) fun _ => ?_
    · obtain ⟨tags, h⟩ := insertHistory_state (rowToTaskRecord _) .superseded {} _ none false now s
      rw [h]
      exact up_same rfl rfl rfl
    · have hreplace (id : Int) : Txn.Always Store.FlagsUp (supersedeReplace sub key id now) :=
        up_bind (up_modify fun s => up_same rfl rfl rfl) fun _ => up_bind (hinsert _) fun _ =>
          up_bind up_insertTags fun _ => up_pure
      split
      · exact hplace _
      · exact hplace _
      · exact hplace _
      · exact hreplace _
      · exact hreplace _

theorem submitOne_flags {skipRequeue : Bool} : Txn.Always Store.FlagsUp (submitOne sha256 sub skipRequeue now) := by
  refine up_bind (fun s => .refl s) fun _ => up_bind (fun s => ?_) fun inserted => ?_
  · rw [insertOrIgnoreTask]
    split
    · exact up_same rfl rfl rfl
    · exact up_same rfl rfl rfl
  · split
    · exact up_finishInsert
    · split
      · exact up_pure
      · exact up_supersedeExisting
      · exact up_skipExisting

theorem submitItem_flags {skipRequeue : Bool} {last : Nat → String → Bool} {item : Nat × TaskSubmission} :
    Txn.Always Store.FlagsUp (submitItem sha256 skipRequeue last now item) := by
  unfold submitItem
  split
  · exact submitOne_flags
  · exact up_pure

end FlagsUp

end Taskmill
