import Taskmill.Schema

/-!
# `blocked` and the dependency edges

A row is meant to be `blocked` exactly while it has an edge in `task_deps`.  The invariant behind this also says that
every edge belongs to a row, because an id is handed out again and a leftover edge would then belong to the new task.
While a resolution is under way some dependents have lost their last edge and are still blocked: `BlockedExcept ids`
is the invariant with the rows `ids` left out.

The invariant is not kept by every step.  A submission that supersedes a blocked row in place makes it pending and
leaves its edges; the statements that address a row by id alone (`pause`, the retry updates, the deletion of a
completed or failed row, `delete`) do so without looking at its status; and a coalesced submission that fails in
`detect_cycle` leaves a pending row with its edges.  `KeepsBlocked` rules out these steps, and nothing else.
-/

namespace Taskmill

open Transact

/-- `blocked` means "has an edge", except that the rows `ids` may be blocked without one. -/
structure BlockedExcept (ids : List Int) (s : Store) : Prop where
  owner : ∀ e ∈ s.taskDeps, ∃ r ∈ s.tasks, r.id = e.1
  blocked : ∀ r ∈ s.tasks, ∀ e ∈ s.taskDeps, e.1 = r.id → r.status = .blocked
  edge : ∀ r ∈ s.tasks, r.status = .blocked → r.id ∈ ids ∨ ∃ e ∈ s.taskDeps, e.1 = r.id

/-! ### Statements -/

section Statements

variable {ids : List Int} {s s' : Store}

/-- Only the two tables matter. -/
theorem BlockedExcept.congr (h : BlockedExcept ids s) (ht : s'.tasks = s.tasks) (hd : s'.taskDeps = s.taskDeps) :
    BlockedExcept ids s' := by
  constructor
  · rw [ht, hd]; exact h.owner
  · rw [ht, hd]; exact h.blocked
  · rw [ht, hd]; exact h.edge

/-- An `UPDATE` that neither blocks nor unblocks a row. -/
theorem BlockedExcept.update {p : TaskRow → Bool} {f : TaskRow → TaskRow} (h : BlockedExcept ids s)
    (hid : ∀ r, (f r).id = r.id)
    (hst : ∀ r ∈ s.tasks, p r = true → ((f r).status = .blocked ↔ r.status = .blocked)) :
    BlockedExcept ids (s.updateTasks p f) := by
  have hrow : ∀ r' ∈ (s.updateTasks p f).tasks, ∃ r ∈ s.tasks, r'.id = r.id ∧
      (r'.status = .blocked ↔ r.status = .blocked) := by
    intro r' hr'
    obtain ⟨r, hr, rfl⟩ := List.mem_map.1 hr'
    refine ⟨r, hr, ?_⟩
    split
    · rename_i hp
      exact ⟨hid r, hst r hr hp⟩
    · exact ⟨rfl, Iff.rfl⟩
  constructor
  · intro e he
    obtain ⟨r, hr, hre⟩ := h.owner e he
    refine ⟨_, List.mem_map.2 ⟨r, hr, rfl⟩, ?_⟩
    split
    · rw [hid, hre]
    · exact hre
  · intro r' hr' e he hee
    obtain ⟨r, hr, hi, hb⟩ := hrow r' hr'
    exact hb.2 (h.blocked r hr e he (hee.trans hi))
  · intro r' hr' hst'
    obtain ⟨r, hr, hi, hb⟩ := hrow r' hr'
    rw [hi]
    exact h.edge r hr (hb.1 hst')

/-- A `DELETE` of rows that are not blocked. -/
theorem BlockedExcept.delete {p : TaskRow → Bool} (h : BlockedExcept ids s)
    (hp : ∀ r ∈ s.tasks, p r = true → r.status ≠ .blocked) : BlockedExcept ids (s.deleteTasks p) := by
  have hmem : ∀ r ∈ (s.deleteTasks p).tasks, r ∈ s.tasks := fun r hr => List.mem_of_mem_filter hr
  constructor
  · intro e he
    obtain ⟨r, hr, hre⟩ := h.owner e he
    have hb := h.blocked r hr e he hre.symm
    refine ⟨r, List.mem_filter.2 ⟨hr, ?_⟩, hre⟩
    by_contra hc
    exact hp r hr (by simpa using hc) hb
  · exact fun r hr => h.blocked r (hmem r hr)
  · exact fun r hr => h.edge r (hmem r hr)

/-- A row is deleted together with its outgoing edges. -/
theorem BlockedExcept.remove {id : Int} (h : BlockedExcept (id :: ids) s) :
    BlockedExcept ids (((s.deleteEdgesFrom id).deleteTaskTags id).deleteTasks (·.id == id)) := by
  have hrow : ∀ r ∈ (((s.deleteEdgesFrom id).deleteTaskTags id).deleteTasks (·.id == id)).tasks,
      r ∈ s.tasks ∧ r.id ≠ id := by
    intro r hr
    simpa using hr
  have hedge : ∀ e, e ∈ (((s.deleteEdgesFrom id).deleteTaskTags id).deleteTasks (·.id == id)).taskDeps ↔
      e ∈ s.taskDeps ∧ e.1 ≠ id := by
    intro e
    simp
  constructor
  · intro e he
    obtain ⟨he, hne⟩ := (hedge e).1 he
    obtain ⟨r, hr, hre⟩ := h.owner e he
    refine ⟨r, ?_, hre⟩
    have : r.id ≠ id := by rw [hre]; exact hne
    simpa using ⟨hr, this⟩
  · intro r hr e he
    exact h.blocked r (hrow r hr).1 e ((hedge e).1 he).1
  · intro r hr hb
    obtain ⟨hr, hne⟩ := hrow r hr
    rcases h.edge r hr hb with hm | ⟨e, he, hee⟩
    · rcases List.mem_cons.1 hm with hm | hm
      · exact absurd hm hne
      · exact .inl hm
    · exact .inr ⟨e, (hedge e).2 ⟨he, by rw [hee]; exact hne⟩, hee⟩

/-- A new row that is not blocked: its id belongs to no edge. -/
theorem BlockedExcept.add {row : TaskRow} (h : BlockedExcept ids s) (hrow : row.status ≠ .blocked) :
    BlockedExcept ids (s.addTask row) := by
  have hnew : ∀ e ∈ s.taskDeps, e.1 ≠ s.nextTaskId := by
    intro e he
    obtain ⟨r, hr, hre⟩ := h.owner e he
    rw [← hre]
    exact Store.id_ne_nextTaskId hr
  constructor
  · intro e he
    obtain ⟨r, hr, hre⟩ := h.owner e he
    exact ⟨r, List.mem_append_left _ hr, hre⟩
  · intro r hr e he hee
    rcases List.mem_append.1 hr with hr | hr
    · exact h.blocked r hr e he hee
    · rw [List.mem_singleton] at hr
      subst hr
      exact absurd hee (hnew e he)
  · intro r hr hb
    rcases List.mem_append.1 hr with hr | hr
    · exact h.edge r hr hb
    · rw [List.mem_singleton] at hr
      subst hr
      exact absurd hb hrow

/-- The owners of deleted edges may have lost their last one. -/
theorem BlockedExcept.deleteEdges {p : Int × Int → Bool} (h : BlockedExcept ids s) :
    BlockedExcept ((s.taskDeps.filter p).map Prod.fst ++ ids)
      { s with taskDeps := s.taskDeps.filter fun e => !p e } := by
  constructor
  · exact fun e he => h.owner e (List.mem_of_mem_filter he)
  · exact fun r hr e he => h.blocked r hr e (List.mem_of_mem_filter he)
  · intro r hr hb
    rcases h.edge r hr hb with hm | ⟨e, he, hee⟩
    · exact .inl (List.mem_append_right _ hm)
    · by_cases hp : p e = true
      · exact .inl (List.mem_append_left _ (List.mem_map.2 ⟨e, List.mem_filter.2 ⟨he, hp⟩, hee⟩))
      · exact .inr ⟨e, List.mem_filter.2 ⟨he, by simpa using hp⟩, hee⟩

/-- `unblock` gives the dependents that lost their last edge back. -/
theorem BlockedExcept.unblock {dependents : List Int} (h : BlockedExcept (dependents ++ ids) s) :
    BlockedExcept ids (s.updateTasks (s.unblockable dependents) fun r => { r with status := .pending }) := by
  have hrow : ∀ r' ∈ (s.updateTasks (s.unblockable dependents) fun r => { r with status := .pending }).tasks,
      ∃ r ∈ s.tasks, r'.id = r.id ∧
        (s.unblockable dependents r = true ∧ r'.status = .pending ∨
          s.unblockable dependents r = false ∧ r'.status = r.status) := by
    intro r' hr'
    obtain ⟨r, hr, rfl⟩ := List.mem_map.1 hr'
    refine ⟨r, hr, ?_⟩
    split
    · exact ⟨rfl, .inl ⟨‹_›, rfl⟩⟩
    · exact ⟨rfl, .inr ⟨Bool.eq_false_of_not_eq_true ‹_›, rfl⟩⟩
  constructor
  · intro e he
    obtain ⟨r, hr, hre⟩ := h.owner e he
    refine ⟨_, List.mem_map.2 ⟨r, hr, rfl⟩, ?_⟩
    split
    · exact hre
    · exact hre
  · intro r' hr' e he hee
    obtain ⟨r, hr, hi, hst⟩ := hrow r' hr'
    have he : e ∈ s.taskDeps := he
    rw [hi] at hee
    rcases hst with ⟨hu, _⟩ | ⟨_, hst⟩
    · exfalso
      simp only [Store.unblockable, Bool.and_eq_true, Bool.not_eq_true', List.any_eq_false] at hu
      exact hu.2 e he (by simpa using hee)
    · rw [hst]
      exact h.blocked r hr e he hee
  · intro r' hr' hb
    obtain ⟨r, hr, hi, hst⟩ := hrow r' hr'
    rcases hst with ⟨_, hst⟩ | ⟨hu, hst⟩
    · rw [hst] at hb
      cases hb
    · rw [hst] at hb
      rw [hi]
      rcases h.edge r hr hb with hm | hm
      · rcases List.mem_append.1 hm with hm | hm
        · right
          by_contra hc
          have : s.unblockable dependents r = true := by
            simp only [Store.unblockable, Bool.and_eq_true, Bool.not_eq_true', List.any_eq_false, hb,
              beq_self_eq_true, List.contains_iff_mem, hm, true_and]
            intro e he hee
            exact hc ⟨e, he, by simpa using hee⟩
          rw [this] at hu
          cases hu
        · exact .inl hm
      · exact .inr hm

end Statements

/-! ### Resolution and cascades -/

section Operations

variable {ids : List Int} {now : Int}

private theorem blocked_insertHistory {task : TaskRecord} {status : HistoryStatus} {metrics : IoBudget}
    {durationMs : Option Int} {lastError : Option String} {skipTags : Bool} :
    Txn.Ensures (BlockedExcept ids) (insertHistory task status metrics durationMs lastError skipTags now)
      fun _ => BlockedExcept ids := by
  intro s hs u s' h
  obtain ⟨tags, rfl⟩ := insertHistory_leaves h
  exact hs.congr rfl rfl

private theorem BlockedExcept.pauseUnblocked {s : Store} (h : BlockedExcept ids s) (unblocked : List Int) :
    BlockedExcept ids (s.pauseUnblocked unblocked now) := by
  refine h.update (fun _ => rfl) fun r _ hp => ?_
  simp only [Bool.and_eq_true, beq_iff_eq] at hp
  rw [hp.1.2]
  exact ⟨nofun, nofun⟩

/-- What follows the deletion of edges: unblock their owners and pause those of paused groups. -/
private theorem blocked_release (dependents : List Int) :
    Txn.Ensures (BlockedExcept (dependents ++ ids))
      (if dependents.isEmpty then pure [] else do
        let unblocked ← unblock dependents
        Txn.modify fun s => s.pauseUnblocked unblocked now
        pure unblocked : Sql (List Int)) fun _ => BlockedExcept ids := by
  split
  · rename_i hempty
    rw [List.isEmpty_iff.1 hempty]
    exact Txn.Ensures.pure fun s hs => hs
  · refine Txn.Ensures.bind (Q := fun _ => BlockedExcept ids) ?_ fun unblocked => ?_
    · intro s hs unblocked s' h
      cases h
      exact hs.unblock
    · exact Txn.Ensures.bind (Q := fun _ => BlockedExcept ids)
        (Txn.Ensures.modify fun s hs => hs.pauseUnblocked unblocked) fun _ => Txn.Ensures.pure fun s hs => hs

theorem blocked_resolveDependentsInner {id : Int} :
    Txn.Ensures (BlockedExcept ids) (resolveDependentsInner id now) fun _ => BlockedExcept ids := by
  refine Txn.Ensures.bind (Q := fun dependents => BlockedExcept (dependents ++ ids)) ?_ blocked_release
  intro s hs dependents s' h
  cases h
  exact hs.deleteEdges

private theorem blocked_releaseDependent {id : Int} :
    Txn.Ensures (BlockedExcept (id :: ids)) (releaseDependent id now) fun _ => BlockedExcept ids := by
  intro s hs unblocked s' h
  rw [releaseDependent] at h
  split at h
  · -- another edge is left: the row is blocked for good reason
    rename_i hedge
    cases h
    refine ⟨hs.owner, hs.blocked, fun r hr hb => ?_⟩
    rcases hs.edge r hr hb with hm | hm
    · rcases List.mem_cons.1 hm with rfl | hm
      · obtain ⟨e, he, hee⟩ := List.any_eq_true.1 hedge
        exact .inr ⟨e, he, by simpa using hee⟩
      · exact .inl hm
    · exact .inr hm
  · rename_i hedge
    have hnone : ∀ e ∈ s.taskDeps, e.1 ≠ id := by
      intro e he hee
      exact hedge (List.any_eq_true.2 ⟨e, he, by simpa using hee⟩)
    split at h
    · cases h
      apply BlockedExcept.pauseUnblocked
      have hun : s.updateTasks (fun r => r.id == id && r.status == .blocked)
        (fun r => { r with status := .pending }) =
          s.updateTasks (s.unblockable [id]) fun r => { r with status := .pending } := by
        refine Store.updateTasks_congr fun r _ => ?_
        rw [Bool.eq_iff_iff]
        simp only [Store.unblockable, Bool.and_eq_true, beq_iff_eq, List.contains_iff_mem, List.mem_singleton,
          Bool.not_eq_true', List.any_eq_false]
        constructor
        · rintro ⟨rfl, hb⟩
          exact ⟨⟨hb, rfl⟩, fun e he => hnone e he⟩
        · rintro ⟨⟨hb, hid⟩, _⟩
          exact ⟨hid, hb⟩
      rw [hun]
      exact BlockedExcept.unblock (show BlockedExcept ([id] ++ ids) s from hs)
    · rename_i hrow
      cases h
      refine ⟨hs.owner, hs.blocked, fun r hr hb => ?_⟩
      rcases hs.edge r hr hb with hm | hm
      · rcases List.mem_cons.1 hm with rfl | hm
        · exact absurd (List.any_eq_true.2 ⟨r, hr, by simp [hb]⟩) hrow
        · exact .inl hm
      · exact .inr hm

private theorem blocked_failDependent {cascade : Int → Sql (List Int × List Int)}
    (hc : ∀ id ids, Txn.Ensures (BlockedExcept ids) (cascade id) fun _ => BlockedExcept ids)
    {failedTaskId depId : Int} :
    Txn.Ensures (BlockedExcept (depId :: ids)) (failDependent cascade failedTaskId depId now)
      fun _ => BlockedExcept ids := by
  intro s hs result s' h
  cases hrow : s.taskById depId with
  | none =>
    -- the dependent is gone already
    rw [failDependent_gone hrow] at h
    cases h
    refine ⟨hs.owner, hs.blocked, fun r hr hb => ?_⟩
    rcases hs.edge r hr hb with hm | hm
    · rcases List.mem_cons.1 hm with hid | hm
      · have := List.find?_eq_none.1 hrow r hr
        exact absurd hid (by simpa using this)
      · exact .inl hm
    · exact .inr hm
  | some task =>
    by_cases hpolicy : task.onDepFailure = .ignore
    · rw [failDependent_releases hrow hpolicy] at h
      obtain ⟨unblocked, s₂, h₂, h⟩ := Txn.bind_ok h
      cases h
      exact blocked_releaseDependent s hs _ _ h₂
    · rw [failDependent_removes hrow hpolicy] at h
      have hid : task.id = depId := by
        have := List.find?_some hrow
        simpa using this
      obtain ⟨_, s₂, h₂, h⟩ := Txn.bind_ok h
      obtain ⟨_, s₃, h₃, h₂⟩ := Txn.bind_ok h₂
      cases h₂
      have hs₃ := blocked_insertHistory s hs _ _ h₃
      rw [← hid] at hs₃
      obtain ⟨r, s₄, h₄, h⟩ := Txn.bind_ok h
      cases h
      exact hc depId ids _ hs₃.remove _ _ h₄

/-- The induction is on the nesting of the calls; within one call the dependents still to be visited are the ones that
may be blocked without an edge. -/
theorem blocked_failDependentsInner (fuel : Nat) (id : Int) (ids : List Int) :
    Txn.Ensures (BlockedExcept ids) (failDependentsInner now fuel id) fun _ => BlockedExcept ids := by
  induction fuel generalizing id ids with
  | zero => exact Txn.Ensures.pure fun s hs => hs
  | succ fuel ih =>
    refine Txn.Ensures.bind (Q := fun dependents => BlockedExcept (dependents ++ ids)) ?_ fun dependents => ?_
    · intro s hs dependents s' h
      cases h
      exact hs.deleteEdges
    · refine Txn.Ensures.bind (Q := fun _ => BlockedExcept ids) ?_ fun _ => Txn.Ensures.pure fun s hs => hs
      induction dependents with
      | nil => exact Txn.Ensures.pure fun s hs => hs
      | cons depId dependents ihd =>
        refine Txn.Ensures.bind (blocked_failDependent fun id ids => ih id ids) fun _ => ?_
        exact Txn.Ensures.bind ihd fun _ => Txn.Ensures.pure fun s hs => hs

/-! ### Completion and failure -/

private theorem BlockedExcept.resetRequeued {s : Store} {id : Int} (h : BlockedExcept ids s) (hb : s.NotBlocked id) :
    BlockedExcept ids (s.resetRequeued id) := by
  have hu : BlockedExcept ids (s.updateTasks (·.id == id) (TaskRow.resetRequeued s.nextInst)) := by
    refine h.update (fun _ => rfl) fun r hr hp => ?_
    exact ⟨nofun, fun hst => absurd hst (hb r hr (by simpa using hp))⟩
  exact hu.congr rfl rfl

private theorem blocked_createNextInstance {task : TaskRecord} {tags : List (String × String)} {interval : Int} :
    Txn.Ensures (BlockedExcept ids) (createNextInstance task tags interval now) fun _ => BlockedExcept ids := by
  intro s hs result s' h
  obtain ⟨s₀, _, h₀, h⟩ := Txn.bind_ok h
  cases h₀
  split at h
  · cases h
    exact hs
  · obtain ⟨nextId, s₁, h₁, h⟩ := Txn.bind_ok h
    obtain ⟨rfl, rfl⟩ := insertTask_ok h₁
    obtain ⟨_, s₂, h₂, h⟩ := Txn.bind_ok h
    obtain ⟨tt, rfl⟩ := insertTags_leaves h₂
    obtain ⟨groupPaused, _, h₃, h⟩ := Txn.bind_ok h
    cases h₃
    obtain ⟨_, s₄, h₄, h⟩ := Txn.bind_ok h
    cases h
    cases h₄
    have hadd : BlockedExcept ids ((s.addTask (task.nextInstance interval now)).withTags tt) :=
      BlockedExcept.congr (hs.add (show (task.nextInstance interval now).status ≠ .blocked from nofun)) rfl rfl
    dsimp only
    split
    · refine hadd.update (fun _ => rfl) fun r hr hp => ⟨nofun, fun hst => ?_⟩
      -- the only row with the new id is the new one
      rcases List.mem_append.1 hr with hr | hr
      · exact absurd (by simpa using hp) (Store.id_ne_nextTaskId hr)
      · rw [List.mem_singleton] at hr
        subst hr
        cases hst
    · exact hadd

theorem blocked_completeInner {task : TaskRecord} {metrics : IoBudget} {skipTags : Bool} :
    Txn.Ensures (fun s => BlockedExcept ids s ∧ s.NotBlocked task.id) (completeInner task metrics skipTags now)
      fun _ => BlockedExcept ids := by
  rintro s ⟨hs, hb⟩ result s' h
  obtain ⟨_, s₁, h₁, h⟩ := Txn.bind_ok h
  obtain ⟨tags, rfl⟩ := insertHistory_leaves h₁
  obtain ⟨savedTags, _, h₂, h⟩ := Txn.bind_ok h
  cases h₂
  obtain ⟨deleted, s₃, h₃, h⟩ := Txn.bind_ok h
  cases h₃
  have hlog : BlockedExcept ids (s.log (historyRow s.nextHistoryId task .completed metrics
      (computeDurationMs now task) task.lastError now) tags) := hs.congr rfl rfl
  have hdel := hlog.delete (p := fun r => r.id == task.id && !r.requeue) fun r hr hp => hb r hr (by
    simp only [Bool.and_eq_true, beq_iff_eq] at hp
    exact hp.1)
  split at h
  · obtain ⟨_, s₄, h₄, h⟩ := Txn.bind_ok h
    cases h
    cases h₄
    exact hdel.resetRequeued fun r hr => hb r (List.mem_of_mem_filter hr)
  · obtain ⟨_, s₄, h₄, h⟩ := Txn.bind_ok h
    have hs₄ : BlockedExcept ids s₄ := by
      cases h₄
      dsimp only
      split
      · exact hdel
      · exact hdel.congr rfl rfl
    cases hrec : task.recurs with
    | none =>
      simp only [hrec] at h
      cases h
      exact hs₄
    | some interval =>
      simp only [hrec] at h
      exact blocked_createNextInstance _ hs₄ _ _ h

private theorem blocked_completeAndResolve {skipTags : Bool} {item : TaskRecord × IoBudget} :
    Txn.Ensures (fun s => BlockedExcept ids s ∧ s.NotBlocked item.1.id) (completeAndResolve skipTags now item)
      fun _ => BlockedExcept ids := by
  refine Txn.Ensures.bind blocked_completeInner fun _ => ?_
  exact Txn.Ensures.bind blocked_resolveDependentsInner fun _ => Txn.Ensures.pure fun s hs => hs

private theorem blocked_foldl_resetRequeued (reset : List Int) (s : Store) (hs : BlockedExcept ids s)
    (hb : ∀ id ∈ reset, s.NotBlocked id) : BlockedExcept ids (reset.foldl Store.resetRequeued s) := by
  induction reset generalizing s with
  | nil => exact hs
  | cons id reset ih =>
    refine ih _ (hs.resetRequeued (hb id (List.mem_cons_self ..))) fun id' hid' => ?_
    exact (hb id' (List.mem_cons_of_mem _ hid')).steps (steps_resetRequeued s id)

private theorem blocked_completeBatchFast {skipTags : Bool} {items : List (TaskRecord × IoBudget)} :
    Txn.Ensures (fun s => BlockedExcept [] s ∧ ∀ item ∈ items, s.NotBlocked item.1.id)
      (completeBatchFast skipTags now items) fun _ => BlockedExcept [] := by
  rintro s ⟨hs, hb⟩ result s' h
  obtain ⟨_, s₁, h₁, h⟩ := Txn.bind_ok h
  obtain ⟨rows, tags, rfl⟩ := mapList_history (fun _ _ _ _ => insertHistory_leaves) h₁
  obtain ⟨deleted, s₂, h₂, h⟩ := Txn.bind_ok h
  cases h₂
  have hlog : BlockedExcept [] (s.logAll rows tags) := hs.congr rfl rfl
  have hids : ∀ id ∈ items.map (·.1.id), s.NotBlocked id := by
    intro id hid
    obtain ⟨item, hitem, rfl⟩ := List.mem_map.1 hid
    exact hb item hitem
  have hdel : BlockedExcept [] ((s.logAll rows tags).deleteTasks
      fun r => (items.map (·.1.id)).contains r.id && !r.requeue) := by
    refine hlog.delete fun r hr hp => ?_
    simp only [Bool.and_eq_true, List.contains_iff_mem] at hp
    exact hids r.id hp.1 r hr rfl
  obtain ⟨_, s₃, h₃, h⟩ := Txn.bind_ok h
  have hs₃ : BlockedExcept [] s₃ := by
    cases h₃
    refine blocked_foldl_resetRequeued _ _ hdel fun id hid => ?_
    exact (hids id (List.mem_of_mem_filter hid)).steps (Stmt.history s _ tags).steps |>.steps (Stmt.delete _ _).steps
  obtain ⟨_, s₄, h₄, h⟩ := Txn.bind_ok h
  have hs₄ : BlockedExcept [] s₄ := by
    cases h₄
    dsimp only
    split
    · exact hs₃
    · exact hs₃.congr rfl rfl
  obtain ⟨dependents, s₅, h₅, h⟩ := Txn.bind_ok h
  cases h₅
  exact blocked_release _ _ hs₄.deleteEdges _ _ h

/-- A loop whose rounds each need one row not to be blocked: no round blocks a row, so all may be checked before. -/
private theorem blocked_mapList {α β : Type} {f : α → Sql β} {g : α → Int}
    (hf : ∀ x, Txn.Ensures (fun s => BlockedExcept ids s ∧ s.NotBlocked (g x)) (f x) fun _ => BlockedExcept ids)
    (hsteps : ∀ x, Txn.Always (Steps false) (f x)) (xs : List α) :
    Txn.Ensures (fun s => BlockedExcept ids s ∧ ∀ x ∈ xs, s.NotBlocked (g x)) (Txn.mapList f xs)
      fun _ => BlockedExcept ids := by
  induction xs with
  | nil => exact Txn.Ensures.pure fun s hs => hs.1
  | cons x xs ih =>
    rintro s ⟨hs, hb⟩ results s' h
    obtain ⟨result, s₁, h₁, h⟩ := Txn.bind_ok h
    obtain ⟨rest, s₂, h₂, h⟩ := Txn.bind_ok h
    cases h
    have hst := hsteps x s
    rw [h₁] at hst
    refine ih s₁ ⟨hf x s ⟨hs, hb x (List.mem_cons_self ..)⟩ _ _ h₁, fun y hy => ?_⟩ _ _ h₂
    exact (hb y (List.mem_cons_of_mem _ hy)).steps hst

/-- An operation that only fails or leaves the invariant, run as a transaction. -/
theorem blocked_transaction {α : Type} {x : Sql α} {s : Store}
    (hx : ∀ a s', x s = (.ok a, s') → BlockedExcept [] s') (hs : BlockedExcept [] s) :
    BlockedExcept [] (transaction x s).2 := by
  rcases Txn.atomically_cases Store.rollback x s with ⟨a, s', hok, he⟩ | ⟨e, s', _, he⟩
  · rw [transaction, he]
    exact hx a s' hok
  · rw [transaction, he]
    exact hs.congr rfl rfl

theorem blocked_completeBatchTx {items : List (TaskRecord × IoBudget)} {s : Store} (hs : BlockedExcept [] s)
    (hb : ∀ item ∈ items, s.NotBlocked item.1.id) : BlockedExcept [] (completeBatchTx items now s).2 := by
  rw [completeBatchTx.eq_def]
  split
  · exact hs
  · rw [Txn.bind_pure_state]
    exact blocked_transaction
      (fun a s' h => blocked_completeAndResolve s ⟨hs, hb _ (List.mem_cons_self ..)⟩ _ _ h) hs
  · split
    · refine blocked_transaction (fun a s' h => ?_) hs
      exact blocked_mapList (fun _ => blocked_completeAndResolve) steps_completeAndResolve items s ⟨hs, hb⟩ _ _ h
    · rw [Txn.bind_pure_state]
      exact blocked_transaction (fun a s' h => blocked_completeBatchFast s ⟨hs, hb⟩ _ _ h) hs

theorem blocked_failInner {task : TaskRecord} {error : String} {retryable : Bool} {maxRetries : Int}
    {metrics : IoBudget} {backoff : FailBackoff} :
    Txn.Ensures (fun s => BlockedExcept [] s ∧ s.NotBlocked task.id)
      (failInner task error retryable maxRetries metrics backoff now) fun _ => BlockedExcept [] := by
  rintro s ⟨hs, hb⟩ u s' h
  rw [failInner] at h
  split at h
  · cases h
    refine hs.update (fun _ => rfl) fun r hr hp => ⟨(by rintro ⟨⟩), fun hst => ?_⟩
    exact absurd hst (hb r hr (by simpa using hp))
  · obtain ⟨_, s₁, h₁, h⟩ := Txn.bind_ok h
    obtain ⟨tags, rfl⟩ := insertHistory_leaves h₁
    cases h
    refine BlockedExcept.delete (hs.congr rfl rfl) fun r hr hp => hb r hr (by simpa using hp)

theorem blocked_failBatchTx {items : List FailureItem} {s : Store} (hs : BlockedExcept [] s)
    (hb : ∀ item ∈ items, s.NotBlocked item.task.id) : BlockedExcept [] (failBatchTx items now s).2 := by
  rw [failBatchTx.eq_def]
  split
  · exact hs
  · exact blocked_transaction (fun a s' h => blocked_failInner s ⟨hs, hb _ (List.mem_cons_self ..)⟩ _ _ h) hs
  · refine blocked_transaction (fun a s' h => ?_) hs
    obtain ⟨_, s₁, h₁, h⟩ := Txn.bind_ok h
    obtain ⟨rows, tags, rfl⟩ := mapList_history (fun _ _ _ _ => insertHistory_leaves) h₁
    obtain ⟨_, s₂, h₂, h⟩ := Txn.bind_ok h
    cases h₂
    cases h
    have hdel : BlockedExcept [] ((s.logAll rows tags).deleteTasks fun r =>
        (items.map (·.task.id)).contains r.id) := by
      refine BlockedExcept.delete (hs.congr rfl rfl) fun r hr hp => ?_
      obtain ⟨item, hitem, hid⟩ := List.mem_map.1 (List.contains_iff_mem.1 hp)
      exact hb item hitem r hr hid.symm
    dsimp only
    split
    · exact hdel
    · exact hdel.congr rfl rfl

/-! ### Cancellation and expiry -/

/-- A row that is removed with its own edges leaves nothing behind, whatever its status was. -/
private theorem BlockedExcept.removeAny {s : Store} {id : Int} (h : BlockedExcept ids s) :
    BlockedExcept ids (((s.deleteEdgesFrom id).deleteTaskTags id).deleteTasks (·.id == id)) := by
  refine BlockedExcept.remove ⟨h.owner, h.blocked, fun r hr hb => ?_⟩
  rcases h.edge r hr hb with hm | hm
  · exact .inl (List.mem_cons_of_mem _ hm)
  · exact .inr hm

theorem blocked_cancelInner {task : TaskRecord} :
    Txn.Ensures (BlockedExcept ids) (cancelInner task now) fun _ => BlockedExcept ids := by
  refine Txn.Ensures.bind blocked_insertHistory fun _ => ?_
  exact Txn.Ensures.modify fun s hs => hs.removeAny

/-- `expireRow` deletes a row by its id: none of the rows with this id may be blocked. -/
private theorem blocked_expireRow {row : TaskRow} :
    Txn.Ensures (fun s => BlockedExcept ids s ∧ s.NotBlocked row.id) (expireRow row now) fun _ =>
      BlockedExcept ids := by
  rintro s ⟨hs, hb⟩ task s' h
  obtain ⟨s₀, _, h₀, h⟩ := Txn.bind_ok h
  cases h₀
  obtain ⟨_, s₁, h₁, h⟩ := Txn.bind_ok h
  obtain ⟨tags, rfl⟩ := insertHistory_leaves h₁
  obtain ⟨_, s₂, h₂, h⟩ := Txn.bind_ok h
  cases h
  cases h₂
  exact BlockedExcept.delete (hs.congr rfl rfl) fun r hr hp => hb r hr (by simpa using hp)

/-- A row that is pending or paused is the only one with its id. -/
private theorem notBlocked_of_pendingOrPaused {s : Store} (hs : s.Schema) {row : TaskRow} (hr : row ∈ s.tasks)
    (hp : row.pendingOrPaused = true) : s.NotBlocked row.id := by
  intro r hr' hid hb
  rw [hs.eq_of_id hr' hr hid] at hb
  simp [TaskRow.pendingOrPaused, hb] at hp

private theorem blocked_expireWithChildren {row : TaskRow} :
    Txn.Ensures (fun s => BlockedExcept ids s ∧ s.Schema) (expireWithChildren now row) fun _ =>
      BlockedExcept ids := by
  rintro s ⟨hs, hschema⟩ expired s' h
  obtain ⟨s₀, _, h₀, h⟩ := Txn.bind_ok h
  cases h₀
  obtain ⟨_, s₁, h₁, h⟩ := Txn.bind_ok h
  obtain ⟨tags, hlog⟩ := insertHistory_leaves h₁
  have hs₁ : BlockedExcept ids s₁ := by
    rw [hlog]
    exact hs.congr rfl rfl
  have hschema₁ : s₁.Schema := by
    rw [hlog]
    exact hschema.stmt (b := false) (.history s _ _)
  obtain ⟨children, _, h₂, h⟩ := Txn.bind_ok h
  cases h₂
  obtain ⟨gone, s₃, h₃, h⟩ := Txn.bind_ok h
  obtain ⟨_, s₄, h₄, h⟩ := Txn.bind_ok h
  cases h
  cases h₄
  have hs₃ := blocked_mapList (fun _ => blocked_expireRow) steps_expireRow _ s₁ ⟨hs₁, fun child hchild => ?_⟩ _ _ h₃
  · exact hs₃.removeAny
  · obtain ⟨hmem, hp⟩ := List.mem_filter.1 hchild
    rw [Bool.and_eq_true] at hp
    exact notBlocked_of_pendingOrPaused hschema₁ hmem hp.2

theorem blocked_expireTasksTx {s : Store} (hs : BlockedExcept [] s) (hschema : s.Schema) :
    BlockedExcept [] (expireTasksTx now s).2 := by
  have hround : ∀ row, Txn.Ensures (fun s => BlockedExcept [] s ∧ s.Schema) (expireWithChildren now row)
      fun _ s => BlockedExcept [] s ∧ s.Schema := by
    intro row s hs expired s' h
    refine ⟨blocked_expireWithChildren s hs _ _ h, ?_⟩
    have hst : Steps false s (expireWithChildren now row s).2 := steps_expireWithChildren row s
    rw [h] at hst
    exact hs.2.steps hst
  refine blocked_transaction (fun a s' h => ?_) hs
  obtain ⟨rows, _, h₁, h⟩ := Txn.bind_ok h
  cases h₁
  obtain ⟨expired, s₂, h₂, h⟩ := Txn.bind_ok h
  cases h
  exact (Txn.Ensures.mapList (fun row _ => hround row) s ⟨hs, hschema⟩ _ _ h₂).1

theorem blocked_expireSingle {id : Int} {s : Store} (hs : BlockedExcept [] s) (hschema : s.Schema) :
    BlockedExcept [] (expireSingle id now s).2 := by
  refine blocked_transaction (fun a s' h => ?_) hs
  split at h
  · cases h
    exact hs
  · rename_i row hrow
    obtain ⟨task, s₁, h₁, h⟩ := Txn.bind_ok h
    cases h
    have hp := List.find?_some hrow
    simp only [Bool.and_eq_true] at hp
    exact blocked_expireRow s ⟨hs, notBlocked_of_pendingOrPaused hschema (List.mem_of_find?_eq_some hrow) hp.2⟩ _ _ h₁

theorem blocked_cancelChildrenTx {parent : Int} {read : List TaskRow} {s : Store} (hs : BlockedExcept [] s) :
    BlockedExcept [] (cancelChildrenTx parent read now s).2 := by
  rw [cancelChildrenTx]
  split
  · exact hs
  · refine blocked_transaction (fun a s' h => ?_) hs
    obtain ⟨_, s₁, h₁, h⟩ := Txn.bind_ok h
    obtain ⟨rows, tags, rfl⟩ := mapList_history (fun _ _ _ _ => insertHistory_leaves) h₁
    cases h
    refine BlockedExcept.delete (hs.congr rfl rfl) fun r _ hp hb => ?_
    simp [TaskRow.pendingOrPaused, hb] at hp

/-! ### Recovery -/

private theorem BlockedExcept.unblockEdgeless {s : Store} (h : BlockedExcept ids s) :
    BlockedExcept [] s.unblockEdgeless := by
  have hsame : s.unblockEdgeless = s.updateTasks (s.unblockable ids) fun r => { r with status := .pending } := by
    refine Store.updateTasks_congr fun r hr => ?_
    rw [Bool.eq_iff_iff]
    simp only [Store.unblockable, Bool.and_eq_true, beq_iff_eq, List.contains_iff_mem, Bool.not_eq_true',
      List.any_eq_false]
    constructor
    · rintro ⟨hb, hnone⟩
      refine ⟨⟨hb, ?_⟩, hnone⟩
      rcases h.edge r hr hb with hm | ⟨e, he, hee⟩
      · exact hm
      · exact absurd hee (hnone e he)
    · rintro ⟨⟨hb, _⟩, hnone⟩
      exact ⟨hb, hnone⟩
  rw [hsame]
  refine BlockedExcept.unblock ?_
  rwa [List.append_nil]

theorem blocked_recoverRunning {s : Store} (hs : BlockedExcept [] s) : BlockedExcept [] (s.recoverRunning now) := by
  have hreset : BlockedExcept [] s.resetRunning := by
    refine hs.update (fun _ => rfl) fun r _ hp => ⟨nofun, fun hb => ?_⟩
    simp [hb] at hp
  have hsettled : BlockedExcept [] (s.resetRunning.settlePauses now) :=
    hreset.update (fun _ => rfl) fun _ _ _ => Iff.rfl
  rw [Store.recoverRunning]
  generalize s.resetRunning.settlePauses now = settled at hsettled ⊢
  have hcleaned : BlockedExcept ((settled.taskDeps.filter fun e => !settled.ids.contains e.2).map Prod.fst ++ [])
      settled.deleteDanglingEdges := by
    have := hsettled.deleteEdges (p := fun e => !settled.ids.contains e.2)
    simpa [Store.deleteDanglingEdges] using this
  split
  · -- no edge was deleted
    rename_i hlen
    refine hsettled.congr rfl (List.filter_eq_self.2 ?_)
    rw [beq_iff_eq] at hlen
    exact List.length_filter_eq_length_iff.1 hlen
  · exact hcleaned.unblockEdgeless

end Operations

end Taskmill
