import Taskmill.Scheduler.SlowDispatch

/-!
# The finalizer loop

Before it dispatches tasks, `poll_and_dispatch` (`src/scheduler/run_loop.rs`) calls `try_dispatch_finalizer` until
it returns `false`.  A call takes the next id out of `pending_finalizers`.  It returns `false` also when it has put
the id back because the group of the parent is paused, and when the parent has disappeared: the loop then ends,
whatever else is in the set.

The set is a list in the order in which it is iterated.
-/

namespace Taskmill

open Transact

/-- What does not change during the loop. -/
structure FinalizerCycle where
  /-- the task types with an executor -/
  registered : String → Bool
  pausedGroups : List String
  now : Int

structure Finalizing where
  dispatching : Dispatching
  /-- `pending_finalizers` -/
  finalizers : List Int

/-- `fail` -/
def fail (id : Int) (error : String) (retryable : Bool) (maxRetries : Int) (metrics : IoBudget)
    (backoff : FailBackoff) (now : Int) : Sql Unit :=
  withPrune now (failTx id error retryable maxRetries metrics backoff now)

namespace FinalizerCycle

variable (c : FinalizerCycle)

/-- The group of the parent is paused. -/
def held (s : Store) (id : Int) : Bool := (s.taskById id).any fun row => row.groupKey.any c.pausedGroups.contains

/-- `try_dispatch_finalizer` -/
def tryDispatchFinalizer (σ : Finalizing) : Except StoreError Bool × Finalizing :=
  match σ.finalizers with
  | [] => (.ok false, σ)
  | id :: rest =>
    let δ := σ.dispatching
    if c.held δ.store id then (.ok false, { σ with finalizers := id :: rest })
    else
      let s := δ.store.setRunningForFinalize id c.now
      match s.taskById id with
      | none => (.ok false, { dispatching := { δ with store := s }, finalizers := rest })
      | some row =>
        let task := s.populateTags (rowToTaskRecord row)
        if c.registered task.taskType then
          (.ok true, { dispatching := Dispatching.spawn { δ with store := s } task, finalizers := rest })
        else
          match fail id "no executor for finalize" false 0 {} {} c.now s with
          | (.ok _, s) => (.ok true, { dispatching := { δ with store := s }, finalizers := rest })
          | (.error e, s) => (.error e, { dispatching := { δ with store := s }, finalizers := rest })

/-- The loop of `poll_and_dispatch`, for as many rounds as `fuel` allows. -/
def dispatchFinalizers : Nat → Finalizing → Option (Except StoreError Unit × Finalizing)
  | 0, _ => none
  | fuel + 1, σ =>
    match c.tryDispatchFinalizer σ with
    | (.ok true, σ) => dispatchFinalizers fuel σ
    | (.ok false, σ) => some (.ok (), σ)
    | (.error e, σ) => some (.error e, σ)

/-- The loop goes on after this parent. -/
def passes (s : Store) (id : Int) : Bool := (s.taskById id).isSome && !c.held s id

/-- After the first parent that is paused or gone come only parents that are paused. -/
def HeldLast (s : Store) (order : List Int) : Prop := ∀ id ∈ (order.dropWhile (c.passes s)).tail, c.held s id = true

instance (s : Store) (order : List Int) : Decidable (c.HeldLast s order) :=
  inferInstanceAs (Decidable (∀ id ∈ _, _))

/-- The loop terminates, and if no error has ended it, only parents of paused groups are left. -/
structure LeavesHeld (σ : Finalizing) : Prop where
  terminates : ∃ fuel, (c.dispatchFinalizers fuel σ).isSome = true
  left : ∀ fuel σ', c.dispatchFinalizers fuel σ = some (.ok (), σ') →
    ∀ id ∈ σ'.finalizers, c.held σ'.dispatching.store id = true

end FinalizerCycle

/-! ### A paused group and another parent -/

/-- Two parents that wait; the group of the first one is paused. -/
private def twoParents (order : List Int) : Finalizing where
  dispatching := ⟨execAll sampleSha256 openMemory
    [.submitDirect { TaskSubmission.new "a" with groupKey := some "g" } 0, .submitDirect (.new "b") 0,
      .popNextBatch 2 none 0, .update (.setWaiting 1 none), .update (.setWaiting 2 none)], [], ∅, ∅, ∅⟩
  finalizers := order

private def pausedG : FinalizerCycle := ⟨fun _ => true, ["g"], 0⟩

/-- The paused group holds back the other parent. -/
theorem paused_group_ends_loop : ¬pausedG.LeavesHeld (twoParents [1, 2]) := by
  intro h
  have hleft := h.left 1 (twoParents [1, 2]) (by rfl) 2 (by decide)
  exact absurd hleft (by decide +kernel)

/-! ### Other rows -/

/-- An `UPDATE` that keeps the ids. -/
theorem Store.taskById_updateTasks (s : Store) (p : TaskRow → Bool) {f : TaskRow → TaskRow}
    (hf : ∀ r, (f r).id = r.id) (id : Int) :
    (s.updateTasks p f).taskById id = (s.taskById id).map fun r => if p r then f r else r := by
  unfold Store.taskById Store.updateTasks
  rw [List.find?_map]
  have hid : ((fun r : TaskRow => r.id == id) ∘ fun r => if p r = true then f r else r) = fun r => r.id == id := by
    funext r
    simp only [Function.comp_apply]
    split
    · rw [hf]
    · rfl
  rw [hid]

theorem Store.taskById_setRunningForFinalize (s : Store) (id now : Int) {other : Int} (hne : other ≠ id) :
    (s.setRunningForFinalize id now).taskById other = s.taskById other := by
  have hupdate := s.taskById_updateTasks (fun r => r.id == id && r.status == .waiting)
    (f := fun r => { r with status := .running, startedAt := some now }) (fun _ => rfl) other
  refine hupdate.trans ?_
  cases h : s.taskById other with
  | none => rfl
  | some r =>
    have hid : r.id = other := by simpa using List.find?_some h
    simp [hid, hne]

/-- A failure that is not retried takes its row out. -/
theorem taskById_fail {s s' : Store} {id other now : Int} {error : String} {result : Except StoreError Unit}
    (h : fail id error false 0 {} {} now s = (result, s')) (hne : other ≠ id) :
    s'.taskById other = s.taskById other := by
  have htx : (failTx id error false 0 {} {} now s).2.taskById other = s.taskById other := by
    rcases hrun : failTx id error false 0 {} {} now s with ⟨e | u, s₁⟩
    · obtain ⟨s₂, _, rfl⟩ := transaction_error hrun
      rfl
    · have hok := transaction_ok hrun
      split at hok
      · cases hok
        rfl
      · rename_i row hrow
        have hid : row.id = id := by simpa using List.find?_some hrow
        rw [failInner, if_neg (by simp [willRetry_zero])] at hok
        obtain ⟨_, s₂, h₂, hok⟩ := Txn.bind_ok hok
        obtain ⟨tags, rfl⟩ := insertHistory_leaves h₂
        cases hok
        show (s.tasks.filter fun r => !(r.id == (rowToTaskRecord row).id)).find? (·.id == other) =
          s.tasks.find? (·.id == other)
        rw [List.find?_filter]
        congr 1
        funext r
        have hrow' : (rowToTaskRecord row).id = id := hid
        rw [hrow']
        by_cases hr : r.id = other
        · simp [hr, hne]
        · simp [hr]
  rcases hrun : failTx id error false 0 {} {} now s with ⟨e | u, s₁⟩
  · rw [hrun] at htx
    unfold fail withPrune at h
    rw [Txn.bind_of_error hrun] at h
    cases h
    exact htx
  · rw [hrun] at htx
    unfold fail withPrune at h
    rw [Txn.bind_of_ok hrun] at h
    cases h
    show (s₁.maybePrune now).tasks.find? _ = _
    rw [Store.tasks_maybePrune]
    exact htx

private theorem dropWhile_congr {α : Type} {p q : α → Bool} {l : List α} (h : ∀ x ∈ l, p x = q x) :
    l.dropWhile p = l.dropWhile q := by
  induction l with
  | nil => rfl
  | cons x l ih =>
    rw [List.forall_mem_cons] at h
    rw [List.dropWhile_cons, List.dropWhile_cons, h.1, ih h.2]

namespace FinalizerCycle

variable {c : FinalizerCycle} {σ σ' : Finalizing} {id : Int} {rest : List Int}

/-- A call leaves the parents behind the next one alone. -/
structure Passed (σ : Finalizing) (id : Int) (rest : List Int) (σ' : Finalizing) : Prop where
  finalizers : σ'.finalizers = rest
  others : ∀ other, other ≠ id → σ'.dispatching.store.taskById other = σ.dispatching.store.taskById other

/-- What a call does with the next parent. -/
theorem tryDispatchFinalizer_cases (h : σ.finalizers = id :: rest) :
    (c.held σ.dispatching.store id = true ∧ c.tryDispatchFinalizer σ = (.ok false, σ)) ∨
    (c.held σ.dispatching.store id = false ∧ σ.dispatching.store.taskById id = none ∧
      ∃ σ', c.tryDispatchFinalizer σ = (.ok false, σ') ∧ Passed σ id rest σ') ∨
    (c.passes σ.dispatching.store id = true ∧
      ∃ result σ', c.tryDispatchFinalizer σ = (result, σ') ∧ (result = .ok true ∨ ∃ e, result = .error e) ∧
        Passed σ id rest σ') := by
  obtain ⟨δ, finalizers⟩ := σ
  obtain rfl : finalizers = id :: rest := h
  unfold tryDispatchFinalizer
  dsimp only
  cases hheld : c.held δ.store id with
  | true => exact .inl ⟨rfl, rfl⟩
  | false =>
    right
    have hothers : ∀ other, other ≠ id →
        (δ.store.setRunningForFinalize id c.now).taskById other = δ.store.taskById other :=
      fun other hne => δ.store.taskById_setRunningForFinalize id c.now hne
    have hrow := δ.store.taskById_updateTasks (fun r => r.id == id && r.status == .waiting)
      (f := fun r => { r with status := .running, startedAt := some c.now }) (fun _ => rfl) id
    change (δ.store.setRunningForFinalize id c.now).taskById id = _ at hrow
    rw [if_neg Bool.false_ne_true]
    cases hid : δ.store.taskById id with
    | none =>
      rw [hid] at hrow
      rw [hrow]
      exact .inl ⟨rfl, rfl, _, rfl, rfl, hothers⟩
    | some row =>
      rw [hid] at hrow
      obtain ⟨row', hrow'⟩ : ∃ row', (δ.store.setRunningForFinalize id c.now).taskById id = some row' := ⟨_, hrow⟩
      rw [hrow']
      right
      refine ⟨by rw [passes, hid, hheld]; rfl, ?_⟩
      dsimp only
      split
      · exact ⟨_, _, rfl, .inl rfl, rfl, hothers⟩
      · split
        · rename_i hfail
          exact ⟨_, _, rfl, .inl rfl, rfl, fun other hne => (taskById_fail hfail hne).trans (hothers other hne)⟩
        · rename_i hfail
          exact ⟨_, _, rfl, .inr ⟨_, rfl⟩, rfl, fun other hne => (taskById_fail hfail hne).trans (hothers other hne)⟩

/-- The loop ends: each call that lets it go on takes out an id. -/
theorem dispatchFinalizers_terminates (c : FinalizerCycle) (σ : Finalizing) :
    (c.dispatchFinalizers (σ.finalizers.length + 1) σ).isSome = true := by
  obtain ⟨δ, finalizers⟩ := σ
  induction finalizers generalizing δ with
  | nil => rfl
  | cons id rest ih =>
    rcases tryDispatchFinalizer_cases (c := c) (σ := ⟨δ, id :: rest⟩) rfl with
      ⟨_, hrun⟩ | ⟨_, _, σ', hrun, _⟩ | ⟨_, result, σ', hrun, hresult, hpassed⟩
    · unfold dispatchFinalizers
      rw [hrun]
      rfl
    · unfold dispatchFinalizers
      rw [hrun]
      rfl
    · obtain ⟨δ', finalizers'⟩ := σ'
      obtain rfl : finalizers' = rest := hpassed.finalizers
      unfold dispatchFinalizers
      rw [hrun]
      rcases hresult with rfl | ⟨e, rfl⟩
      · exact ih δ'
      · rfl

theorem held_congr {s s' : Store} (h : s'.taskById id = s.taskById id) : c.held s' id = c.held s id := by
  unfold held
  rw [h]

theorem passes_congr {s s' : Store} (h : s'.taskById id = s.taskById id) : c.passes s' id = c.passes s id := by
  unfold passes
  rw [h, held_congr h]

end FinalizerCycle

/-- After a loop without an error only parents of paused groups are left exactly where behind the first parent that
is paused or gone stand only parents of paused groups. -/
theorem finalizers_left_iff (c : FinalizerCycle) (σ : Finalizing) (hnodup : σ.finalizers.Nodup) :
    (∃ fuel, (c.dispatchFinalizers fuel σ).isSome = true) ∧
      ∀ fuel σ', c.dispatchFinalizers fuel σ = some (.ok (), σ') →
        ((∀ id ∈ σ'.finalizers, c.held σ'.dispatching.store id = true) ↔
          c.HeldLast σ.dispatching.store σ.finalizers) := by
  refine ⟨⟨_, c.dispatchFinalizers_terminates σ⟩, fun fuel σ' hrun => ?_⟩
  induction fuel generalizing σ with
  | zero => cases hrun
  | succ fuel ih =>
    unfold FinalizerCycle.dispatchFinalizers at hrun
    cases hf : σ.finalizers with
    | nil =>
      unfold FinalizerCycle.tryDispatchFinalizer at hrun
      rw [hf] at hrun
      cases hrun
      rw [hf]
      exact iff_of_true (fun id hid => absurd hid List.not_mem_nil) fun id hid => absurd hid List.not_mem_nil
    | cons id rest =>
      rw [hf, List.nodup_cons] at hnodup
      have hne : ∀ other ∈ rest, other ≠ id := fun other hother heq => hnodup.1 (heq ▸ hother)
      rcases FinalizerCycle.tryDispatchFinalizer_cases (c := c) hf with
        ⟨hheld, hcall⟩ | ⟨hheld, hgone, σ₁, hcall, hpassed⟩ | ⟨hpasses, result, σ₁, hcall, hresult, hpassed⟩
      · -- the parent is put back
        have hstop : c.passes σ.dispatching.store id = false := by
          rw [FinalizerCycle.passes, hheld, Bool.not_true, Bool.and_false]
        rw [hcall] at hrun
        cases hrun
        unfold FinalizerCycle.HeldLast
        rw [hf, List.dropWhile_cons_of_neg (by rw [hstop]; exact Bool.false_ne_true), List.tail_cons,
          List.forall_mem_cons]
        exact and_iff_right hheld
      · -- the parent has disappeared
        rw [hcall] at hrun
        cases hrun
        have hstop : c.passes σ.dispatching.store id = false := by
          rw [FinalizerCycle.passes, hgone]
          rfl
        unfold FinalizerCycle.HeldLast
        rw [hpassed.finalizers, List.dropWhile_cons_of_neg (by rw [hstop]; exact Bool.false_ne_true), List.tail_cons]
        exact forall₂_congr fun other hother => by
          rw [FinalizerCycle.held_congr (hpassed.others other (hne other hother))]
      · rw [hcall] at hrun
        rcases hresult with rfl | ⟨e, rfl⟩
        · have hrest := ih σ₁ (by rw [hpassed.finalizers]; exact hnodup.2) hrun
          rw [hrest, hpassed.finalizers]
          have hdrop : rest.dropWhile (c.passes σ₁.dispatching.store) =
              rest.dropWhile (c.passes σ.dispatching.store) :=
            dropWhile_congr fun other hother => FinalizerCycle.passes_congr (hpassed.others other (hne other hother))
          unfold FinalizerCycle.HeldLast
          rw [List.dropWhile_cons_of_pos hpasses, hdrop]
          refine forall₂_congr fun other hother => ?_
          have hmem : other ∈ rest := (List.dropWhile_sublist _).subset (List.mem_of_mem_tail hother)
          rw [FinalizerCycle.held_congr (hpassed.others other (hne other hmem))]
        · cases hrun

/-- In the other order the second parent is dispatched. -/
theorem paused_group_last : pausedG.LeavesHeld (twoParents [2, 1]) where
  terminates := (finalizers_left_iff pausedG (twoParents [2, 1]) (by decide)).1
  left fuel σ' hrun :=
    ((finalizers_left_iff pausedG (twoParents [2, 1]) (by decide)).2 fuel σ' hrun).2 (by decide +kernel)

end Taskmill
