import Taskmill.Acyclicity
import Taskmill.Blocked.Operations

/-!
# `blocked` and the dependency edges: submissions and runs

The condition under which a step keeps the invariant, and the invariant in every state of a run whose steps all meet
it.
-/

namespace Taskmill

open Transact

/-! ### Submissions -/

/-- The submission would supersede a blocked row in place. -/
def TaskSubmission.SupersedesBlocked (sub : TaskSubmission) (sha256 : List UInt8 → String) (s : Store) : Prop :=
  sub.validate = .ok () ∧ sub.onDuplicate = .supersede ∧
    ∃ row, s.taskByKey (sub.effectiveKey sha256) = some row ∧ row.status = .blocked

/-- The submission would insert a row that one of its dependencies already waits for, directly or through others:
itself, or a task with a leftover edge to the id that is about to be given out again. -/
def TaskSubmission.ClosesCycle (sub : TaskSubmission) (sha256 : List UInt8 → String) (s : Store) : Prop :=
  s.taskByKey (sub.effectiveKey sha256) = none ∧
    ∃ dep ∈ sub.dependencies, Relation.ReflTransGen (Edge s.taskDeps) dep s.nextTaskId

/-- The submission would insert a row that waits for more tasks than the query of `detect_cycle` can start from. -/
def TaskSubmission.ExceedsSeeds (sub : TaskSubmission) (sha256 : List UInt8 → String) (now : Int)
    (s : Store) : Prop :=
  s.taskByKey (sub.effectiveKey sha256) = none ∧
    ∃ active, (s.addTask (sub.newRow (sub.effectiveKey sha256) now)).activeDeps sub.onDependencyFailure
      sub.dependencies = .ok active ∧ maxCompoundSelect ≤ active.length

/-- The errors of `detect_cycle`, which comes after the edges are in. -/
def StoreError.OfSeeds (e : StoreError) : Prop := e = .cyclicDependency ∨ e = compoundSelectError

private theorem variablesError_not_ofSeeds : ¬ variablesError.OfSeeds := by
  rintro (h | h)
  · cases h
  · exact absurd h (by decide +kernel)

private theorem edgesError_not_ofSeeds (active : List Int) : ¬ (edgesError active).OfSeeds := by
  rw [edgesError]
  split
  · exact variablesError_not_ofSeeds
  · rintro (h | h)
    · cases h
    · exact absurd h (by decide +kernel)

theorem ofSeeds_seedsError (seeds : List Int) : (seedsError seeds).OfSeeds := by
  rw [seedsError]
  split
  · exact .inr rfl
  · exact .inl rfl

section Submission

variable {ids : List Int} {s : Store} {sub : TaskSubmission} {now : Int}

/-- The new row gets its edges and is blocked. -/
private theorem BlockedExcept.block (h : BlockedExcept ids s) {taskId : Int} (ht : taskId ∈ s.ids) {active : List Int}
    (ha : active ≠ []) : BlockedExcept ids ((s.addEdges (edgesFrom taskId active)).block taskId) := by
  have hrow : ∀ r' ∈ ((s.addEdges (edgesFrom taskId active)).block taskId).tasks,
      ∃ r ∈ s.tasks, r'.id = r.id ∧ (r.id = taskId ∧ r'.status = .blocked ∨ r.id ≠ taskId ∧
          r'.status = r.status) := by
    intro r' hr'
    obtain ⟨r, hr, rfl⟩ := List.mem_map.1 hr'
    refine ⟨r, hr, ?_⟩
    by_cases hp : (r.id == taskId) = true
    · rw [if_pos hp]
      exact ⟨rfl, .inl ⟨by simpa using hp, rfl⟩⟩
    · rw [if_neg hp]
      exact ⟨rfl, .inr ⟨by simpa using hp, rfl⟩⟩
  have howner : ∀ id, (∃ r ∈ s.tasks, r.id = id) →
      ∃ r ∈ ((s.addEdges (edgesFrom taskId active)).block taskId).tasks, r.id = id := by
    rintro id ⟨r, hr, rfl⟩
    refine ⟨_, List.mem_map.2 ⟨r, hr, rfl⟩, ?_⟩
    split
    · rfl
    · rfl
  constructor
  · intro e he
    rcases List.mem_append.1 he with he | he
    · exact howner _ (h.owner e he)
    · rw [(mem_edgesFrom.1 he).1]
      obtain ⟨r, hr, hid⟩ := List.mem_map.1 ht
      exact howner _ ⟨r, hr, hid⟩
  · intro r' hr' e he hee
    obtain ⟨r, hr, hid, ⟨_, hst⟩ | ⟨hne, hst⟩⟩ := hrow r' hr'
    · exact hst
    · rw [hst]
      rw [hid] at hee
      rcases List.mem_append.1 he with he | he
      · exact h.blocked r hr e he hee
      · rw [(mem_edgesFrom.1 he).1] at hee
        exact absurd hee.symm hne
  · intro r' hr' hb
    obtain ⟨r, hr, hid, ⟨heq, _⟩ | ⟨_, hst⟩⟩ := hrow r' hr'
    · obtain ⟨dep, hdep⟩ := List.exists_mem_of_ne_nil active ha
      refine .inr ⟨(taskId, dep), List.mem_append_right _ (mem_edgesFrom.2 ⟨rfl, hdep⟩), ?_⟩
      rw [hid, heq]
    · rw [hst] at hb
      rw [hid]
      rcases h.edge r hr hb with hm | ⟨e, he, hee⟩
      · exact .inl hm
      · exact .inr ⟨e, List.mem_append_left _ he, hee⟩

/-- Every end of the dependency handling but the cyclic one keeps the invariant. -/
private theorem blocked_attachDependencies {taskId : Int} {deps : List Int} {policy : DependencyFailurePolicy}
    (hs : BlockedExcept [] s) (ht : taskId ∈ s.ids)
    (hc : ∀ e, (attachDependencies taskId deps policy s).1 = .error e → ¬ e.OfSeeds) :
    BlockedExcept [] (attachDependencies taskId deps policy s).2 := by
  rw [attachDependencies_apply] at hc ⊢
  cases hact : s.activeDeps policy deps with
  | error e => exact hs
  | ok active =>
    rw [hact] at hc
    dsimp only at hc ⊢
    by_cases hempty : active = []
    · rw [if_pos hempty]
      exact hs
    · rw [if_neg hempty] at hc ⊢
      by_cases hins : s.TakesEdges taskId active
      · rw [if_pos hins] at hc ⊢
        by_cases hcycle : (s.addEdges (edgesFrom taskId active)).RefusesSeeds taskId active
        · rw [if_pos hcycle] at hc
          exact absurd (ofSeeds_seedsError active) (hc _ rfl)
        · rw [if_neg hcycle]
          exact hs.block ht hempty
      · rw [if_neg hins]
        exact hs

private theorem BlockedExcept.pauseNew (h : BlockedExcept ids s) (taskId : Int) (group : Option String) :
    BlockedExcept ids (s.pauseNew taskId group now) := by
  rw [Store.pauseNew]
  split
  · refine h.update (fun _ => rfl) fun r _ hp => ?_
    simp only [Bool.and_eq_true, beq_iff_eq] at hp
    rw [hp.2]
    exact ⟨nofun, nofun⟩
  · exact h

private theorem blocked_finishInsert {taskId : Int} (hs : BlockedExcept [] s) (ht : taskId ∈ s.ids)
    (hc : ∀ e, (finishInsert sub taskId now s).1 = .error e → ¬ e.OfSeeds) :
    BlockedExcept [] (finishInsert sub taskId now s).2 := by
  obtain ⟨tags, hierarchy, hasTags, ⟨_, h⟩ | ⟨_, ⟨e, s₂, hatt, h⟩ | ⟨s₂, hatt, h⟩⟩⟩ :=
    finishInsert_cases sub taskId now s
  · rw [h]
    exact hs.congr rfl rfl
  · have hs₁ : BlockedExcept [] (s.tagged tags hierarchy hasTags) := hs.congr rfl rfl
    have hne : ¬ e.OfSeeds := hc e (by rw [h])
    have := blocked_attachDependencies hs₁ ht fun e' he' => by
      rw [hatt] at he'
      cases he'
      exact hne
    rw [h]
    rwa [hatt] at this
  · have hs₁ : BlockedExcept [] (s.tagged tags hierarchy hasTags) := hs.congr rfl rfl
    have := blocked_attachDependencies hs₁ ht fun e' he' => by
      rw [hatt] at he'
      cases he'
    rw [hatt] at this
    rw [h]
    exact this.pauseNew taskId sub.groupKey

private theorem blocked_skipExisting {key : String} {priority : Priority} {skipRequeue : Bool}
    (hs : BlockedExcept [] s) : BlockedExcept [] (skipExisting key priority skipRequeue s).2 := by
  refine skipExisting_state hs (hs.update ?_ ?_) (hs.update ?_ ?_)
  · exact fun _ => rfl
  · exact fun _ _ _ => Iff.rfl
  · exact fun _ => rfl
  · exact fun _ _ _ => Iff.rfl

private theorem blocked_supersedeInPlace {id : Int} (hs : BlockedExcept [] s) (hb : s.NotBlocked id) :
    BlockedExcept [] (supersedeInPlace sub id now s).2 := by
  have hu : BlockedExcept [] (s.updateTasks (·.id == id) (sub.supersedeRow s.nextInst now)) := by
    refine hs.update (fun _ => rfl) fun r hr hp => ⟨nofun, fun hst => ?_⟩
    exact absurd hst (hb r hr (by simpa using hp))
  obtain ⟨tags, h⟩ := supersedeInPlace_state sub id now s
  rw [h]
  exact hu.congr rfl rfl

private theorem blocked_supersedeReplace {key : String} {row : TaskRow} (hs : BlockedExcept [] s)
    (hschema : s.Schema) (hrow : s.taskByKey key = some row) (hb : s.NotBlocked row.id) :
    BlockedExcept [] (supersedeReplace sub key row.id now s).2 := by
  have hdel : BlockedExcept [] (s.delete row.id) :=
    BlockedExcept.delete (hs.congr rfl rfl) fun r hr hp => hb r hr (by simpa using hp)
  have hadd : BlockedExcept [] ((s.delete row.id).addTask (sub.baseRow key now)) := hdel.add nofun
  obtain ⟨tags, h⟩ := supersedeReplace_state sub now hschema hrow
  rw [h]
  exact hadd.congr rfl rfl

/-- Superseding a row that is not blocked keeps the invariant, also where it fails half way. -/
private theorem blocked_supersedeExisting {key : String} (hs : BlockedExcept [] s) (hschema : s.Schema)
    (hb : ∀ row, s.taskByKey key = some row → s.NotBlocked row.id) :
    BlockedExcept [] (supersedeExisting sub key now s).2 := by
  have hlog (entry : TaskHistoryRow) (tags : List (Int × String × String)) : BlockedExcept [] (s.log entry tags) :=
    hs.congr rfl rfl
  refine supersedeExisting_state hs (fun _ _ => hlog) (fun existing hrow _ entry tags => ?_)
    fun existing hrow _ entry tags => ?_
  · exact blocked_supersedeInPlace (hlog entry tags) (hb existing hrow)
  · refine blocked_supersedeReplace (hlog entry tags) ?_ hrow (hb existing hrow)
    exact hschema.stmt (b := false) (.history s _ tags)

/-- A submission that supersedes no blocked row and that `detect_cycle` does not refuse keeps the invariant. -/
private theorem blocked_submitOne {sha256 : List UInt8 → String} {skipRequeue : Bool} (hs : BlockedExcept [] s)
    (hschema : s.Schema) (hsup : ¬ sub.SupersedesBlocked sha256 s)
    (hc : sub.validate = .ok () → s.taskByKey (sub.effectiveKey sha256) = none →
      ∀ e, (submitOne sha256 sub skipRequeue now s).1 = .error e → ¬ e.OfSeeds) :
    BlockedExcept [] (submitOne sha256 sub skipRequeue now s).2 := by
  cases hv : sub.validate with
  | error e =>
    rw [submitOne_invalid hv]
    exact hs
  | ok u =>
    cases hk : s.taskByKey (sub.effectiveKey sha256) with
    | none =>
      have hc := hc hv hk
      rw [submitOne_fresh hv hk] at hc ⊢
      refine blocked_finishInsert (hs.add nofun) ?_ hc
      exact List.mem_map.2 ⟨_, List.mem_append_right _ (List.mem_singleton_self _), rfl⟩
    | some row =>
      rw [submitOne_duplicate hv hk]
      cases hdup : sub.onDuplicate with
      | skip => exact blocked_skipExisting hs
      | supersede =>
        refine blocked_supersedeExisting hs hschema fun row' hrow' r hr hid hb => ?_
        rw [hschema.eq_of_id hr (List.mem_of_find?_eq_some hrow') hid] at hb
        exact hsup ⟨hv, hdup, row', hrow', hb⟩
      | reject => exact hs

/-- The dependencies of a new row are refused after the edges are in only if there are too many of them, or one of
them waits for the row already. -/
private theorem attachDependencies_ofSeeds {taskId : Int} {deps : List Int} {policy : DependencyFailurePolicy}
    {e : StoreError} {s' : Store} (h : attachDependencies taskId deps policy s = (.error e, s')) (he : e.OfSeeds) :
    (∃ active, s.activeDeps policy deps = .ok active ∧ maxCompoundSelect ≤ active.length) ∨
      ∃ dep ∈ deps, Relation.ReflTransGen (Edge s.taskDeps) dep taskId := by
  rw [attachDependencies_apply] at h
  cases hact : s.activeDeps policy deps with
  | error e' =>
    rw [hact] at h
    cases h
    rcases activeDeps_error hact with rfl | ⟨dep, rfl⟩ | ⟨dep, rfl⟩
    · exact absurd he variablesError_not_ofSeeds
    · rcases he with he | he <;> cases he
    · rcases he with he | he <;> cases he
  | ok active =>
    rw [hact] at h
    dsimp only at h
    split at h
    · cases h
    · split at h
      · split at h
        · rename_i hrefuses
          rcases refusesSeeds_edgesFrom.1 hrefuses with hmany | ⟨dep, hdep, hpath⟩
          · exact .inl ⟨active, rfl, hmany⟩
          · exact .inr ⟨dep, (activeDeps_subset hact dep hdep).1, hpath⟩
        · cases h
      · cases h
        exact absurd he (edgesError_not_ofSeeds active)

/-- `detect_cycle` does not refuse a new row within the limit that none of its dependencies waits for already. -/
private theorem not_ofSeeds_of_fresh {sha256 : List UInt8 → String} {skipRequeue : Bool}
    (hcycle : ¬ sub.ClosesCycle sha256 s) (hseeds : ¬ sub.ExceedsSeeds sha256 now s) (hv : sub.validate = .ok ())
    (hk : s.taskByKey (sub.effectiveKey sha256) = none) {e : StoreError}
    (h : (submitOne sha256 sub skipRequeue now s).1 = .error e) : ¬ e.OfSeeds := by
  rw [submitOne_fresh hv hk] at h
  obtain ⟨tags, hierarchy, hasTags, ⟨_, hend⟩ | ⟨_, ⟨e', s₂, hatt, hend⟩ | ⟨s₂, _, hend⟩⟩⟩ :=
    finishInsert_cases sub s.nextTaskId now (s.addTask (sub.newRow (sub.effectiveKey sha256) now))
  · rw [hend] at h
    cases h
    rintro (he | he) <;> cases he
  · rw [hend] at h
    cases h
    intro he
    rcases attachDependencies_ofSeeds hatt he with ⟨active, hact, hmany⟩ | ⟨dep, hdep, hpath⟩
    · refine hseeds ⟨hk, active, ?_, hmany⟩
      rw [← hact]
      apply activeDeps_congr
      · rfl
      · rfl
    · exact hcycle ⟨hk, dep, hdep, hpath⟩
  · rw [hend] at h
    cases h

end Submission

/-! ### The condition on a step -/

/-- The statements that set the status of a row by its id alone find no blocked row there. -/
def RowUpdate.KeepsBlocked (s : Store) : RowUpdate → Prop
  | .pause id .. | .requeueForRetry id .. => s.NotBlocked id
  | _ => True

/-- The steps that keep `blocked` and the edges together. -/
def Action.KeepsBlocked (sha256 : List UInt8 → String) (s : Store) : Action → Prop
  | .update u => u.KeepsBlocked s
  | .submitDirect sub _ => ¬ sub.SupersedesBlocked sha256 s
  | .submitChunk skipRequeue last now chunk =>
    Along (fun s item => (submitItem sha256 skipRequeue last now item s).2)
      (fun s item => last item.1 (item.2.effectiveKey sha256) = true → ¬ item.2.SupersedesBlocked sha256 s) s chunk
  | .processSubmitBatch skipRequeue batch =>
    Along (fun s' m => (submitOne sha256 m.1 skipRequeue m.2 s').2)
      (fun s m => ¬ m.1.SupersedesBlocked sha256 s ∧ ¬ m.1.ClosesCycle sha256 s ∧ ¬ m.1.ExceedsSeeds sha256 m.2 s)
      s batch
  | .complete id .. | .fail id .. | .delete id => s.NotBlocked id
  | .completeWithRecord task .. | .failWithRecord task .. => s.NotBlocked task.id
  | .completeBatch items _ => ∀ item ∈ items, s.NotBlocked item.1.id
  | .failBatch items _ => ∀ item ∈ items, s.NotBlocked item.task.id
  | _ => True

theorem RowUpdate.blocked {s : Store} {u : RowUpdate} (hs : BlockedExcept [] s) (hu : u.KeepsBlocked s) :
    BlockedExcept [] (u.exec s) := by
  -- a statement that looks at the status changes rows of other statuses, the rest leave the status alone
  have hne : ∀ {p : TaskRow → Bool} {f : TaskRow → TaskRow}, (∀ r, (f r).id = r.id) →
      (∀ r, (f r).status ≠ .blocked) → (∀ r ∈ s.tasks, p r = true → r.status ≠ .blocked) →
      BlockedExcept [] (s.updateTasks p f) := by
    intro p f hid hf hp
    refine hs.update hid fun r hr hpr => ?_
    exact ⟨fun h => absurd h (hf r), fun h => absurd h (hp r hr hpr)⟩
  cases u with
  | requeue id => exact hne (fun _ => rfl) (fun _ => nofun) fun r _ hp hb => by simp [hb] at hp
  | setRunAfter id runAfter => exact hs.update (fun _ => rfl) fun _ _ _ => Iff.rfl
  | incrementRetry id error => exact hs.update (fun _ => rfl) fun _ _ _ => Iff.rfl
  | requeueForRetry id error delay now =>
    exact hne (fun _ => rfl) (fun _ => nofun) fun r hr hp => hu r hr (by simpa using hp)
  | pause id reason now => exact hne (fun _ => rfl) (fun _ => nofun) fun r hr hp => hu r hr (by simpa using hp)
  | resume id now => exact hne (fun _ => rfl) (fun _ => nofun) fun r _ hp hb => by simp [hb] at hp
  | resumeSole sel reason now => exact hne (fun _ => rfl) (fun _ => nofun) fun r _ hp hb => by simp [hb] at hp
  | clearBit sel reason => exact hs.update (fun _ => rfl) fun _ _ _ => Iff.rfl
  | addGroupBit group => exact hs.update (fun _ => rfl) fun _ _ _ => Iff.rfl
  | pausePendingInGroup group now => exact hne (fun _ => rfl) (fun _ => nofun) fun r _ hp hb => by simp [hb] at hp
  | pausePendingByTypePrefix like now => exact hne (fun _ => rfl) (fun _ => nofun) fun r _ hp hb => by simp [hb] at hp
  | setWaiting id memo => exact hne (fun _ => rfl) (fun _ => nofun) fun r _ hp hb => by simp [hb] at hp
  | setRunningForFinalize id now => exact hne (fun _ => rfl) (fun _ => nofun) fun r _ hp hb => by simp [hb] at hp
  | setRecurringPaused id paused => exact hs.update (fun _ => rfl) fun _ _ _ => Iff.rfl

/-! ### Runs -/

private theorem blocked_claimRows {s : Store} {p : TaskRow → Bool} {now : Int} (hs : BlockedExcept [] s)
    (hp : ∀ r ∈ s.tasks, p r = true → r.status = .pending) :
    BlockedExcept [] (s.updateTasks p (TaskRow.claim now)) := by
  refine hs.update (fun _ => rfl) fun r hr hpr => ⟨nofun, fun hb => ?_⟩
  rw [hp r hr hpr] at hb
  cases hb

private theorem blocked_popFirst {s : Store} {limit : Nat} {aging : Option AgingParams} {now : Int}
    (hs : BlockedExcept [] s) (hschema : s.Schema) : BlockedExcept [] (popFirst limit aging now s).2 := by
  have hids : ∀ r ∈ s.tasks, (s.nextIds limit aging now).contains r.id = true → r.status = .pending := by
    intro r hr hc
    obtain ⟨r', hr', hid⟩ := List.mem_map.1 (List.contains_iff_mem.1 hc)
    have hmem := (List.mem_insertionSort _).1 (List.mem_of_mem_take hr')
    obtain ⟨hr'', helig⟩ := List.mem_filter.1 hmem
    obtain rfl := hschema.eq_of_id hr'' hr hid
    simp only [TaskRow.eligible, TaskRow.due, Bool.and_eq_true, beq_iff_eq] at helig
    exact helig.1.1
  exact (blocked_claimRows hs hids).congr rfl rfl

private theorem blocked_submitEach {sha256 : List UInt8 → String} {skipRequeue : Bool}
    (batch : List (TaskSubmission × Int)) {s : Store} (hs : BlockedExcept [] s) (hschema : s.Schema)
    (ha : Along (fun s m => (submitOne sha256 m.1 skipRequeue m.2 s).2)
      (fun s m => ¬ m.1.SupersedesBlocked sha256 s ∧ ¬ m.1.ClosesCycle sha256 s ∧ ¬ m.1.ExceedsSeeds sha256 m.2 s)
      s batch) :
    BlockedExcept [] (submitEach sha256 skipRequeue batch s).2 := by
  induction batch generalizing s with
  | nil => exact hs
  | cons m batch ih =>
    refine ih ?_ (hschema.steps (steps_submitOne s)) ha.2
    exact blocked_submitOne hs hschema ha.1.1 fun hv hk _ h => not_ofSeeds_of_fresh ha.1.2.1 ha.1.2.2 hv hk h

private theorem blocked_submitChunk {sha256 : List UInt8 → String} {skipRequeue : Bool} {last : Nat → String → Bool}
    {now : Int} (chunk : List (Nat × TaskSubmission)) {s : Store} (hs : BlockedExcept [] s) (hschema : s.Schema)
    (ha : Along (fun s item => (submitItem sha256 skipRequeue last now item s).2)
      (fun s item => last item.1 (item.2.effectiveKey sha256) = true → ¬ item.2.SupersedesBlocked sha256 s) s chunk)
    {results : List SubmitOutcome} {s' : Store}
    (h : Txn.mapList (submitItem sha256 skipRequeue last now) chunk s = (.ok results, s')) : BlockedExcept [] s' := by
  induction chunk generalizing s results with
  | nil =>
    cases h
    exact hs
  | cons item chunk ih =>
    obtain ⟨result, s₁, h₁, h⟩ := Txn.bind_ok h
    obtain ⟨rest, s₂, h₂, h⟩ := Txn.bind_ok h
    cases h
    have hsteps : Steps true s (submitItem sha256 skipRequeue last now item s).2 := steps_submitItem item s
    have hnext := ha.2
    dsimp only at hnext
    rw [h₁] at hsteps hnext
    refine ih ?_ (hschema.steps hsteps) hnext h₂
    rw [submitItem] at h₁
    split at h₁
    · rename_i hlast
      have hone : BlockedExcept [] (submitOne sha256 item.2 skipRequeue now s).2 :=
        blocked_submitOne hs hschema (ha.1 hlast) fun _ _ e he => by
          rw [h₁] at he
          cases he
      rwa [h₁] at hone
    · cases h₁
      exact hs

/-- A step that meets the condition keeps the invariant. -/
theorem blocked_step (sha256 : List UInt8 → String) (s : Store) (a : Action) (hs : BlockedExcept [] s)
    (hschema : s.Schema) (ha : a.KeepsBlocked sha256 s) : BlockedExcept [] (a.exec sha256 s) := by
  cases a with
  | update u => exact u.blocked hs ha
  | submitDirect sub now =>
    refine blocked_transaction (fun outcome s' h => ?_) hs
    have hone : BlockedExcept [] (submitOne sha256 sub (!s.hasRunning) now s).2 :=
      blocked_submitOne hs hschema ha fun _ _ e he => by
        rw [h] at he
        cases he
    rwa [h] at hone
  | processSubmitBatch skipRequeue batch => exact blocked_submitEach batch hs hschema ha
  | submitChunk skipRequeue last now chunk =>
    exact blocked_transaction (fun results s' h => blocked_submitChunk chunk hs hschema ha h) hs
  | claimTask id now =>
    have hp : ∀ r ∈ s.tasks, (r.id == id && r.status == .pending) = true → r.status = .pending := by
      intro r _ hp
      simp only [Bool.and_eq_true, beq_iff_eq] at hp
      exact hp.2
    exact (blocked_claimRows hs hp).congr rfl rfl
  | popById id now =>
    refine blocked_claimRows hs fun r _ hp => ?_
    simp only [Bool.and_eq_true, beq_iff_eq] at hp
    exact hp.2
  | popNextBatch limit aging now =>
    rw [Action.exec, popNextBatch.eq_def]
    split
    · exact hs
    · rw [Txn.bind_pure_state, popNext, Txn.bind_pure_state]
      exact blocked_popFirst hs hschema
    · exact blocked_popFirst hs hschema
  | complete id metrics now =>
    refine blocked_transaction (fun u s' h => ?_) hs
    split at h
    · cases h
      exact hs
    · rename_i row hrow
      obtain ⟨result, s₁, h₁, h⟩ := Txn.bind_ok h
      cases h
      have hid : row.id = id := by simpa using List.find?_some hrow
      exact blocked_completeInner s ⟨hs, by rw [← hid] at ha; exact ha⟩ _ _ h₁
  | completeWithRecord task metrics now =>
    exact blocked_transaction (fun result s' h => blocked_completeInner s ⟨hs, ha⟩ _ _ h) hs
  | completeBatch items now => exact blocked_completeBatchTx hs ha
  | resolveDependents id now =>
    exact blocked_transaction (fun unblocked s' h => blocked_resolveDependentsInner s hs _ _ h) hs
  | fail id error retryable maxRetries metrics backoff now =>
    refine blocked_transaction (fun u s' h => ?_) hs
    split at h
    · cases h
      exact hs
    · rename_i row hrow
      have hid : row.id = id := by simpa using List.find?_some hrow
      exact blocked_failInner s ⟨hs, by rw [← hid] at ha; exact ha⟩ _ _ h
  | failWithRecord task error retryable maxRetries metrics backoff now =>
    exact blocked_transaction (fun u s' h => blocked_failInner s ⟨hs, ha⟩ _ _ h) hs
  | failBatch items now => exact blocked_failBatchTx hs ha
  | failDependents id now =>
    exact blocked_transaction (fun result s' h => blocked_failDependentsInner _ id [] s hs _ _ h) hs
  | cancelToHistory id now =>
    refine blocked_transaction (fun found s' h => ?_) hs
    split at h
    · cases h
      exact hs
    · obtain ⟨u, s₁, h₁, h⟩ := Txn.bind_ok h
      cases h
      exact blocked_cancelInner s hs _ _ h₁
  | cancelToHistoryWithRecord task now =>
    exact blocked_transaction (fun u s' h => blocked_cancelInner s hs _ _ h) hs
  | cancelChildren parent read now => exact blocked_cancelChildrenTx hs
  | expireTasks now => exact blocked_expireTasksTx hs hschema
  | expireSingle id now => exact blocked_expireSingle hs hschema
  | pauseGroupState group resumeAt now =>
    rw [Action.exec, Store.pauseGroupState]
    split
    · exact hs
    · exact hs.congr rfl rfl
  | resumeGroupState group => exact hs.congr rfl rfl
  | delete id =>
    exact BlockedExcept.delete (hs.congr rfl rfl) fun r hr hp => ha r hr (by simpa using hp)
  | deleteHistory historyId => exact hs.congr rfl rfl
  | pruneHistoryByAge days now => exact hs.congr rfl rfl
  | pruneHistoryByCount keep => exact hs.congr rfl rfl
  | maybePrune now =>
    rw [Action.exec, Store.maybePrune]
    split
    · exact hs
    · dsimp only
      split
      · exact hs.congr rfl rfl
      · split
        · exact hs.congr rfl rfl
        · exact hs.congr rfl rfl
  | recoverRunning now => exact blocked_recoverRunning hs

/-- In every run whose steps supersede no blocked row in place, address no blocked row by its id alone and commit no
submission that `detect_cycle` refuses together with others, a row is blocked exactly while it has an edge. -/
theorem blocked_iff_has_edge (sha256 : List UInt8 → String) (s : Store)
    (h : ReachableVia sha256 (fun s a => a.KeepsBlocked sha256 s) s) :
    ∀ r ∈ s.tasks, r.status = .blocked ↔ ∃ e ∈ s.taskDeps, e.1 = r.id := by
  have hinv : BlockedExcept [] s ∧ s.Schema := by
    refine Runs.invariant (I := fun s => BlockedExcept [] s ∧ s.Schema) h (fun s hs => ⟨?_, hs.schema⟩)
        fun s a hs ha =>
      ⟨blocked_step sha256 s a hs.1 hs.2 ha, hs.2.steps (a.steps sha256 s)⟩
    constructor
    · simp [hs.taskDeps]
    · simp [hs.tasks]
    · simp [hs.tasks]
  intro r hr
  constructor
  · intro hb
    rcases hinv.1.edge r hr hb with hm | hm
    · cases hm
    · exact hm
  · rintro ⟨e, he, hee⟩
    exact hinv.1.blocked r hr e he hee

theorem chain_blocked :
    (execAll sampleSha256 openMemory chainRun).tasks.map (·.status) = [.pending, .blocked] ∧
      ∀ r ∈ (execAll sampleSha256 openMemory chainRun).tasks,
        r.status = .blocked ↔ ∃ e ∈ (execAll sampleSha256 openMemory chainRun).taskDeps, e.1 = r.id := by
  refine ⟨by decide, blocked_iff_has_edge sampleSha256 _ ?_⟩
  refine (Runs.start openMemory_fresh).list chainRun ⟨?_, ?_, trivial⟩
  · rintro ⟨_, hdup, _⟩
    cases hdup
  · rintro ⟨_, hdup, _⟩
    cases hdup

/-- The second task of the chain is submitted again and supersedes itself while it is blocked. -/
def supersedeRun : List Action :=
  chainRun ++ [.submitDirect { TaskSubmission.new "b" with onDuplicate := .supersede } 0]

/-- It is pending then, and still has its edge. -/
theorem superseded_pending_with_edge :
    ¬ ∀ s, Reachable sampleSha256 s → ∀ r ∈ s.tasks, r.status = .blocked ↔ ∃ e ∈ s.taskDeps, e.1 = r.id := by
  intro h
  have hreach : Reachable sampleSha256 (execAll sampleSha256 openMemory supersedeRun) :=
    (Runs.start openMemory_fresh).list supersedeRun ⟨trivial, trivial, trivial, trivial⟩
  have hrows : ∃ r ∈ (execAll sampleSha256 openMemory supersedeRun).tasks, r.status = .pending ∧
      ∃ e ∈ (execAll sampleSha256 openMemory supersedeRun).taskDeps, e.1 = r.id := by decide
  obtain ⟨r, hr, hst, hedge⟩ := hrows
  have hb := (h _ hreach r hr).2 hedge
  rw [hst] at hb
  cases hb

end Taskmill
