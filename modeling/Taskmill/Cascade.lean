import Taskmill.Frame

/-!
# The failure cascade

`fail_dependents_inner` visits the dependents of a failed task and calls itself for each one that it moves to history.
The row is deleted before the call, so the number of rows bounds the nesting: `failDependentsInner_fuel`.

SQLite does not say in which order `DELETE … RETURNING` returns the edges.  `failDependentsBy` asks a `ReturnOrder` at
every call, and what is proved about the cascade is proved for all of them; `fail_dependents_inner` is the one that
takes the edges in the order of the table.

`EdgesWithin owed` is what the cascade is for: both ends of every edge are rows, except that an edge may lead to a
task of `owed`, whose dependents are still to be visited.  A call for `id` takes `id` off that list, and it can only
fail on a clash with the history tags of a pruned row.
-/

namespace Taskmill

open Transact

/-- Both ends of every edge are active, or its target is still owed a cascade. -/
def EdgesWithin (owed : List Int) (s : Store) : Prop :=
  ∀ e ∈ s.taskDeps, e.1 ∈ s.ids ∧ (e.2 ∈ s.ids ∨ e.2 ∈ owed)

theorem EdgesWithin.mono {owed owed' : List Int} {s : Store} (h : EdgesWithin owed s) (ho : ∀ id ∈ owed, id ∈ owed') :
    EdgesWithin owed' s :=
  fun e he => ⟨(h e he).1, (h e he).2.imp_right (ho _)⟩

/-! ### The order of the edges -/

/-- The order in which the dependents of a task are returned may depend on everything that is in the tables. -/
structure ReturnOrder where
  rows : Store → Int → List Int → List Int
  perm : ∀ s id dependents, (rows s id dependents).Perm dependents

/-- The order of the table. -/
def ReturnOrder.inserted : ReturnOrder where
  rows := fun _ _ dependents => dependents
  perm := fun _ _ dependents => List.Perm.refl dependents

/-- `fail_dependents_inner` when SQLite returns the edges in this order. -/
def failDependentsBy (order : ReturnOrder) (now : Int) : Nat → Int → Sql (List Int × List Int)
  | 0, _ => pure ([], [])
  | fuel + 1, failedTaskId => do
    let s ← Txn.get
    let dependents ← deleteEdgesTo failedTaskId
    let results ← Txn.mapList (fun depId => failDependent (failDependentsBy order now fuel) failedTaskId depId now)
      (order.rows s failedTaskId dependents)
    pure ((results.map Prod.fst).flatten, (results.map Prod.snd).flatten)

/-- `fail_dependents` when SQLite returns the edges in this order. -/
def failDependentsIn (order : ReturnOrder) (failedTaskId now : Int) : Sql (List Int × List Int) :=
  transaction fun s => failDependentsBy order now (s.tasks.length + 1) failedTaskId s

theorem failDependentsBy_inserted (now : Int) (fuel : Nat) (id : Int) :
    failDependentsBy .inserted now fuel id = failDependentsInner now fuel id := by
  induction fuel generalizing id with
  | zero => rfl
  | succ fuel ih =>
    have hcalls : failDependentsBy .inserted now fuel = failDependentsInner now fuel := funext ih
    funext s
    rw [failDependentsBy, failDependentsInner, hcalls]
    rfl

theorem failDependentsIn_inserted (id now : Int) : failDependentsIn .inserted id now = failDependents id now := by
  funext s
  rw [failDependentsIn, failDependents]
  congr 1
  funext s
  rw [failDependentsBy_inserted]

/-! ### The calls -/

section Cascade

variable {now : Int} (order : ReturnOrder)

theorem dependencyFail_ok {failedTaskId : Int} {task : TaskRow} {s s' : Store} {u : Unit}
    (h : dependencyFail failedTaskId task now s = (.ok u, s')) :
    s'.tasks = s.tasks.filter (fun r => !(r.id == task.id)) ∧ s'.taskDeps = s.taskDeps.filter fun e =>
      !(e.1 == task.id) := by
  obtain ⟨_, s₁, h₁, h⟩ := Txn.bind_ok h
  obtain ⟨tags, rfl⟩ := insertHistory_leaves h₁
  cases h
  exact ⟨rfl, rfl⟩

theorem releaseDependent_ids (depId : Int) (s : Store) :
    (releaseDependent depId now s).2.ids = s.ids ∧ (releaseDependent depId now s).2.taskDeps = s.taskDeps := by
  rw [releaseDependent]
  split
  · exact ⟨rfl, rfl⟩
  · split
    · refine ⟨?_, rfl⟩
      dsimp only
      exact (Store.ids_updateTasks _ _ (by intro r; rfl)).trans (Store.ids_updateTasks _ _ (by intro r; rfl))
    · exact ⟨rfl, rfl⟩

/-- What one round of the loop does: nothing, release the dependent, or remove it and visit its own dependents. -/
theorem failDependent_ok {cascade : Int → Sql (List Int × List Int)} {failedTaskId depId : Int} {s s' : Store}
    {result : List Int × List Int} (h : failDependent cascade failedTaskId depId now s = (.ok result, s')) :
    (s'.ids = s.ids ∧ s'.taskDeps = s.taskDeps) ∨
      ∃ task s₁ sub, task ∈ s.tasks ∧ task.id = depId ∧ dependencyFail failedTaskId task now s = (.ok (), s₁) ∧
        cascade depId s₁ = (.ok sub, s') := by
  obtain ⟨row, s₁, h₁, h⟩ := Txn.bind_ok h
  obtain ⟨hrow, rfl⟩ : s.taskById depId = row ∧ s = s₁ := by
    cases h₁
    exact ⟨rfl, rfl⟩
  cases row with
  | none =>
    cases h
    exact .inl ⟨rfl, rfl⟩
  | some task =>
    have hid : task.id = depId := by simpa using List.find?_some hrow
    cases hpolicy : task.onDepFailure with
    | ignore =>
      simp only [hpolicy] at h
      obtain ⟨unblocked, s₂, h₂, h⟩ := Txn.bind_ok h
      cases h
      have hrel : (releaseDependent depId now s).2.ids = s.ids ∧
          (releaseDependent depId now s).2.taskDeps = s.taskDeps :=
        releaseDependent_ids depId s
      rw [h₂] at hrel
      exact .inl hrel
    | cancel =>
      simp only [hpolicy] at h
      obtain ⟨⟨⟩, s₂, h₂, h⟩ := Txn.bind_ok h
      obtain ⟨sub, s₃, h₃, h⟩ := Txn.bind_ok h
      cases h
      exact .inr ⟨task, s₂, sub, List.mem_of_find?_eq_some hrow, hid, h₂, h₃⟩
    | fail =>
      simp only [hpolicy] at h
      obtain ⟨⟨⟩, s₂, h₂, h⟩ := Txn.bind_ok h
      obtain ⟨sub, s₃, h₃, h⟩ := Txn.bind_ok h
      cases h
      exact .inr ⟨task, s₂, sub, List.mem_of_find?_eq_some hrow, hid, h₂, h₃⟩

/-- A deleted row leaves fewer rows. -/
theorem length_without_lt {tasks : List TaskRow} {task : TaskRow} (h : task ∈ tasks) :
    (tasks.filter fun r => !(r.id == task.id)).length < tasks.length := by
  apply List.length_filter_lt_length_iff_exists.2
  exact ⟨task, h, by simp⟩

private theorem length_eq_of_ids {s s' : Store} (h : s'.ids = s.ids) : s'.tasks.length = s.tasks.length := by
  have := congrArg List.length h
  simpa [Store.ids] using this

/-- A round keeps a bound on the number of rows if its nested calls do. -/
theorem failDependent_length {cascade : Int → Sql (List Int × List Int)} {n : Nat}
    (hc : ∀ id, Txn.Ensures (fun s => s.tasks.length ≤ n) (cascade id) fun _ s => s.tasks.length ≤ n)
    (failedTaskId depId : Int) :
    Txn.Ensures (fun s => s.tasks.length ≤ n) (failDependent cascade failedTaskId depId now)
      fun _ s => s.tasks.length ≤ n := by
  intro s hs result s' h
  rcases failDependent_ok h with ⟨hids, _⟩ | ⟨task, s₁, sub, hmem, _, hfail, hsub⟩
  · rwa [length_eq_of_ids hids]
  · have hlen : s₁.tasks.length ≤ n := by
      rw [(dependencyFail_ok hfail).1]
      exact Nat.le_trans (List.length_filter_le _ _) hs
    exact hc depId s₁ hlen _ _ hsub

/-- A cascade never adds rows. -/
theorem failDependentsBy_length (fuel : Nat) (id : Int) (n : Nat) :
    Txn.Ensures (fun s => s.tasks.length ≤ n) (failDependentsBy order now fuel id) fun _ s => s.tasks.length ≤ n := by
  induction fuel generalizing id with
  | zero => exact Txn.Ensures.pure fun s hs => hs
  | succ fuel ih =>
    refine Txn.Ensures.bind (Txn.Ensures.get (Q := fun _ s => s.tasks.length ≤ n) fun s hs => hs) fun before => ?_
    refine Txn.Ensures.bind (Q := fun _ s => s.tasks.length ≤ n) ?_ fun dependents => ?_
    · intro s hs dependents s' h
      cases h
      exact hs
    · exact Txn.Ensures.bind (Txn.Ensures.mapList fun depId _ => failDependent_length ih id depId)
        fun _ => Txn.Ensures.pure fun s hs => hs

/-- Two ways to continue after a removal that agree on smaller tables give the same round. -/
private theorem failDependent_congr {cascade cascade' : Int → Sql (List Int × List Int)} {n : Nat}
    (hc : ∀ id (t : Store), t.tasks.length < n → cascade id t = cascade' id t) (failedTaskId depId : Int) (s : Store)
    (hs : s.tasks.length ≤ n) :
    failDependent cascade failedTaskId depId now s = failDependent cascade' failedTaskId depId now s := by
  cases hrow : s.taskById depId with
  | none => rw [failDependent_gone hrow, failDependent_gone hrow]
  | some task =>
    have hremoved : ∀ u s₁, dependencyFail failedTaskId task now s = (.ok u, s₁) →
        cascade depId s₁ = cascade' depId s₁ := by
      intro u s₁ hfail
      apply hc
      rw [(dependencyFail_ok hfail).1]
      exact Nat.lt_of_lt_of_le (length_without_lt (List.mem_of_find?_eq_some hrow)) hs
    by_cases hpolicy : task.onDepFailure = .ignore
    · rw [failDependent_releases hrow hpolicy, failDependent_releases hrow hpolicy]
    · rw [failDependent_removes hrow hpolicy, failDependent_removes hrow hpolicy, Txn.bind_apply, Txn.bind_apply]
      split
      · rename_i u s₁ heq
        rw [Txn.bind_apply, Txn.bind_apply, hremoved u s₁ heq]
      · rfl

/-- As many nested calls as there are rows are enough: more of them change nothing. -/
theorem failDependentsBy_fuel (fuel fuel' : Nat) (id : Int) (s : Store) (h : s.tasks.length < fuel)
    (h' : s.tasks.length < fuel') : failDependentsBy order now fuel id s = failDependentsBy order now fuel' id s := by
  induction fuel generalizing fuel' id s with
  | zero => omega
  | succ fuel ih =>
    cases fuel' with
    | zero => omega
    | succ fuel' =>
      have hcalls : ∀ depId (t : Store), t.tasks.length < s.tasks.length →
          failDependentsBy order now fuel depId t = failDependentsBy order now fuel' depId t :=
        fun depId t ht => ih fuel' depId t (by omega) (by omega)
      have hloop : ∀ (dependents : List Int) (t : Store), t.tasks.length ≤ s.tasks.length →
          Txn.mapList (fun depId => failDependent (failDependentsBy order now fuel) id depId now) dependents t =
            Txn.mapList (fun depId => failDependent (failDependentsBy order now fuel') id depId now) dependents t :=
        fun dependents t ht => Txn.mapList_congr (I := fun t => t.tasks.length ≤ s.tasks.length)
          (fun depId _ t ht => failDependent_congr hcalls id depId t ht)
          (fun depId _ => failDependent_length (fun i => failDependentsBy_length order fuel i _) id depId) ht
      rw [failDependentsBy, failDependentsBy, Txn.get_bind_apply, Txn.get_bind_apply, Txn.bind_apply, Txn.bind_apply]
      have hdel : deleteEdgesTo id s = (.ok ((s.taskDeps.filter fun e => e.2 == id).map Prod.fst),
        { s with taskDeps := s.taskDeps.filter fun e => !(e.2 == id) }) := rfl
      rw [hdel]
      dsimp only
      rw [Txn.bind_apply, Txn.bind_apply, hloop]
      exact Nat.le_refl _

/-- A cascade for `id` visits every dependent of `id` and of the tasks it removes. -/
theorem failDependentsBy_within (fuel : Nat) (id : Int) (owed : List Int) :
    Txn.Ensures (fun s => EdgesWithin (id :: owed) s ∧ s.tasks.length < fuel) (failDependentsBy order now fuel id)
      fun _ => EdgesWithin owed := by
  induction fuel generalizing id owed with
  | zero =>
    intro s hs
    omega
  | succ fuel ih =>
    refine Txn.Ensures.bind (Txn.Ensures.get (Q := fun _ s => EdgesWithin (id :: owed) s ∧ s.tasks.length < fuel + 1)
      fun s hs => hs) fun before => ?_
    refine Txn.Ensures.bind (Q := fun _ s => EdgesWithin owed s ∧ s.tasks.length ≤ fuel) ?_ fun dependents => ?_
    · rintro s ⟨hs, hlen⟩ dependents s' h
      cases h
      refine ⟨fun e he => ?_, Nat.le_of_lt_succ hlen⟩
      obtain ⟨he, hne⟩ := List.mem_filter.1 he
      refine ⟨(hs e he).1, ?_⟩
      rcases (hs e he).2 with h | h
      · exact .inl h
      · rcases List.mem_cons.1 h with h | h
        · simp [h] at hne
        · exact .inr h
    · refine Txn.Ensures.bind (Q := fun _ s => EdgesWithin owed s ∧ s.tasks.length ≤ fuel) ?_
        fun _ => Txn.Ensures.pure fun s hs => hs.1
      refine Txn.Ensures.mapList fun depId _ => ?_
      rintro s ⟨hs, hlen⟩ result s' h
      refine ⟨?_, failDependent_length (fun i => failDependentsBy_length order fuel i _) id depId s hlen _ _ h⟩
      rcases failDependent_ok h with ⟨hids, hdeps⟩ | ⟨task, s₁, sub, hmem, hid, hfail, hsub⟩
      · intro e he
        rw [hdeps] at he
        rw [hids]
        exact hs e he
      · obtain ⟨htasks, hdeps⟩ := dependencyFail_ok hfail
        refine ih depId owed s₁ ⟨fun e he => ?_, ?_⟩ _ _ hsub
        · rw [hdeps] at he
          obtain ⟨he, hne⟩ := List.mem_filter.1 he
          have hkeep : ∀ i ∈ s.ids, i ≠ task.id → i ∈ s₁.ids := by
            intro i hi hne
            obtain ⟨r, hr, rfl⟩ := List.mem_map.1 hi
            rw [Store.ids, htasks]
            exact List.mem_map.2 ⟨r, List.mem_filter.2 ⟨hr, by simpa using hne⟩, rfl⟩
          refine ⟨hkeep _ (hs e he).1 (by simpa using hne), ?_⟩
          by_cases htarget : e.2 = task.id
          · exact .inr (by rw [htarget, hid]; exact List.mem_cons_self ..)
          · rcases (hs e he).2 with h | h
            · exact .inl (hkeep _ h htarget)
            · exact .inr (List.mem_cons_of_mem _ h)
        · rw [htasks]
          exact Nat.lt_of_lt_of_le (length_without_lt hmem) hlen

/-- Without orphaned history tags the cascade succeeds. -/
theorem failDependentsBy_total (fuel : Nat) (id : Int) :
    Txn.Total Store.HistoryTagsOwned (failDependentsBy order now fuel id) fun _ => Store.HistoryTagsOwned := by
  induction fuel generalizing id with
  | zero => exact Txn.Total.pure fun s hs => hs
  | succ fuel ih =>
    refine Txn.Total.bind (Q := fun _ => Store.HistoryTagsOwned) (fun s hs => ⟨_, _, rfl, hs⟩) fun before => ?_
    refine Txn.Total.bind (Q := fun _ => Store.HistoryTagsOwned) (fun s hs => ⟨_, _, rfl, hs⟩) fun dependents => ?_
    refine Txn.Total.bind (Txn.Total.mapList (fun depId => ?_) _) fun _ => Txn.Total.pure fun s hs => hs
    refine Txn.Total.bind (Q := fun _ => Store.HistoryTagsOwned) (Txn.Total.map_get fun s hs => hs) fun row => ?_
    cases row with
    | none => exact Txn.Total.pure fun s hs => hs
    | some task =>
      have hremove : Txn.Total Store.HistoryTagsOwned (dependencyFail id task now) fun _ => Store.HistoryTagsOwned :=
        Txn.Total.bind insertHistory_total fun _ => Txn.Total.modify fun s hs => hs
      have hrelease : Txn.Total Store.HistoryTagsOwned (releaseDependent depId now) fun _ =>
          Store.HistoryTagsOwned := by
        intro s hs
        rw [releaseDependent]
        split
        · exact ⟨_, _, rfl, hs⟩
        · split
          · exact ⟨_, _, rfl, hs⟩
          · exact ⟨_, _, rfl, hs⟩
      cases hpolicy : task.onDepFailure with
      | cancel =>
        simp only [hpolicy]
        exact Txn.Total.bind hremove fun _ => Txn.Total.bind (ih depId) fun _ => Txn.Total.pure fun s hs => hs
      | fail =>
        simp only [hpolicy]
        exact Txn.Total.bind hremove fun _ => Txn.Total.bind (ih depId) fun _ => Txn.Total.pure fun s hs => hs
      | ignore =>
        simp only [hpolicy]
        exact Txn.Total.bind hrelease fun _ => Txn.Total.pure fun s hs => hs

/-- The cascade in the order of the table. -/
theorem failDependentsInner_within (fuel : Nat) (id : Int) (owed : List Int) :
    Txn.Ensures (fun s => EdgesWithin (id :: owed) s ∧ s.tasks.length < fuel) (failDependentsInner now fuel id)
      fun _ => EdgesWithin owed := by
  rw [← failDependentsBy_inserted]
  exact failDependentsBy_within .inserted fuel id owed

theorem failDependentsInner_total (fuel : Nat) (id : Int) :
    Txn.Total Store.HistoryTagsOwned (failDependentsInner now fuel id) fun _ => Store.HistoryTagsOwned := by
  rw [← failDependentsBy_inserted]
  exact failDependentsBy_total .inserted fuel id

theorem failDependentsInner_fuel (fuel fuel' : Nat) (id : Int) (s : Store) (h : s.tasks.length < fuel)
    (h' : s.tasks.length < fuel') : failDependentsInner now fuel id s = failDependentsInner now fuel' id s := by
  rw [← failDependentsBy_inserted, ← failDependentsBy_inserted]
  exact failDependentsBy_fuel .inserted fuel fuel' id s h h'

end Cascade

end Taskmill
