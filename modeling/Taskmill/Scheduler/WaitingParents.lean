import Taskmill.Scheduler.Parents
import Taskmill.Transact.Calls

/-!
# Waiting parents

A waiting parent whose last child is gone must be in `pending_finalizers`, or a call that decides about it must be
under way.  Completions, final failures and `set_waiting` see to that.  Other steps take the last child away and
tell nobody: the cancellation or the expiry of the child, a dependency that failed, a supersede, the failure of a
child that is a parent itself, a missing executor; and a restart forgets the set.
-/

namespace Taskmill

open Transact

/-- The parent about which the call decides. -/
def ParentCall.attends : ParentCall → Option Int
  | .cancelling parent | .propagating parent _ _ | .resolving parent | .ready parent | .failing parent _ =>
    some parent
  | .recording parent _ => some parent.id
  | .popped parent | .grouped parent _ | .admitted parent => some parent
  | .moved .. | .fetched .. => none

/-- The parent is in the set, or a call decides about it. -/
def Parents.Attends (σ : Parents) (id : Int) : Prop :=
  id ∈ σ.pendingFinalizers ∨ ∃ call ∈ σ.calls, call.attends = some id

def Store.HasChild (s : Store) (id : Int) : Prop := ∃ c ∈ s.tasks, c.parentId = some id

/-- Every waiting parent without children is attended to. -/
def Parents.NoneStranded (σ : Parents) : Prop :=
  ∀ p ∈ σ.store.tasks, p.status = .waiting → ¬ σ.store.HasChild p.id → σ.Attends p.id

/-! ### The steps that strand no parent -/

/-- A waiting parent that has children and is not attended to keeps one of them. -/
def Action.LeavesChildren (sha256 : List UInt8 → String) (attends : Int → Prop) (s : Store) (a : Action) : Prop :=
  ∀ p ∈ s.tasks, p.status = .waiting → ¬ attends p.id → s.HasChild p.id →
    ∃ c ∈ s.tasks, c.parentId = some p.id ∧ a.Spares sha256 false c s

/-- The record has the parent of the row. -/
def Store.KnowsParent (s : Store) (task : TaskRecord) : Prop :=
  ∀ r ∈ s.tasks, r.id = task.id → task.parentId = r.parentId

/-- Where a step takes children away without looking at their parents, a waiting parent keeps one or is attended
to.  The outcomes have the parents of their rows, the failure of a parent can be written, and a restart finds every
waiting parent with a child. -/
def ParentStep.Clean (sha256 : List UInt8 → String) (σ : Parents) : ParentStep → Prop
  | .store a => (ParentStep.store a).Foreign ∧ a.LeavesChildren sha256 σ.Attends σ.store
  | .complete items _ => ∀ item ∈ items, σ.store.KnowsParent item.1
  | .fail task .. => σ.store.KnowsParent task
  | .finishCancel i now =>
    ∀ parent, σ.calls[i]? = some (.cancelling parent) →
      ¬ σ.store.LogFails false parent ∧
        (Action.cancelToHistory parent now).LeavesChildren sha256 (fun id => id = parent ∨ σ.Attends id) σ.store
  | .record i now =>
    ∀ parent reason, σ.calls[i]? = some (.recording parent reason) →
      ¬ σ.store.LogFails false parent.id ∧
        (Action.failWithRecord parent reason false 0 {} {} now).LeavesChildren sha256
          (fun id => id = parent.id ∨ σ.Attends id) σ.store
  | .reject i now =>
    ∀ e episode, σ.calls[i]? = some (.fetched e episode) →
      (Action.fail e.task.id "no executor for finalize" false 0 {} {} now).LeavesChildren sha256 σ.Attends σ.store
  | .restart _ => ∀ p ∈ σ.store.tasks, p.status = .waiting → σ.store.HasChild p.id
  | _ => True

/-! ### Lemmas -/

section Attends

variable {σ : Parents} {i : Nat} {old call : ParentCall} {id : Int}

private theorem Parents.Attends.set (h : σ.Attends id) (hi : σ.calls[i]? = some old)
    (hcall : old.attends = some id → call.attends = some id) : (σ.set i call).Attends id := by
  rcases h with h | ⟨c, hc, hid⟩
  · exact .inl h
  · by_cases heq : c = old
    · subst heq
      exact .inr ⟨call, mem_set_self call hi, hcall hid⟩
    · exact .inr ⟨c, mem_set_of_ne call hi hc heq, hid⟩

private theorem Parents.Attends.drop (h : σ.Attends id) (hi : σ.calls[i]? = some old) (hne : old.attends ≠ some id) :
    (σ.drop i).Attends id := by
  rcases h with h | ⟨c, hc, hid⟩
  · exact .inl h
  · refine .inr ⟨c, mem_eraseIdx_of_ne hi hc ?_, hid⟩
    rintro rfl
    exact hne hid

private theorem Parents.Attends.enqueue (h : σ.Attends id) (parent : Int) : (σ.enqueue parent).Attends id := by
  rcases h with h | h
  · refine .inl (List.mem_append.2 ?_)
    by_cases hid : id = parent
    · exact .inr (List.mem_singleton.2 hid)
    · exact .inl (List.mem_filter.2 ⟨h, bne_iff_ne.2 hid⟩)
  · exact .inr h

private theorem Parents.attends_enqueue (σ : Parents) (parent : Int) : (σ.enqueue parent).Attends parent :=
  .inl (List.mem_append_right _ (List.mem_singleton_self _))

end Attends

theorem Store.HasChild.of_holds {s : Store} {c : TaskRow} {id : Int} (h : s.Holds false c)
    (hc : c.parentId = some id) :
    s.HasChild id := by
  obtain ⟨r, hr, his⟩ := h
  exact ⟨r, hr, his.parentId.trans hc⟩

/-- What `try_resolve_parent` says about a waiting parent without children. -/
theorem Store.tryResolveParent_childless {s : Store} {p : TaskRow} (hschema : s.Schema) (hp : p ∈ s.tasks)
    (hst : p.status = .waiting) (hnone : ¬ s.HasChild p.id) :
    s.tryResolveParent p.id = some .readyToFinalize ∨ ∃ reason, s.tryResolveParent p.id = some (.failed reason) := by
  have hany : (s.tasks.any (·.parentId == some p.id)) = false := by
    rw [List.any_eq_false]
    intro c hc hpar
    exact hnone ⟨c, hc, by simpa using hpar⟩
  rw [Store.tryResolveParent, hschema.taskById_eq hp]
  dsimp only
  rw [if_neg (by simp [hst]), if_neg (by simp [hany])]
  split
  · exact .inr ⟨_, rfl⟩
  · exact .inl rfl

/-- A final failure that can be written takes the row away. -/
theorem failWithRecordTx_gone {task : TaskRecord} {error : String} {metrics : IoBudget}
    {backoff : FailBackoff} {now : Int} {s : Store} (hlog : ¬ s.LogFails false task.id) :
    ∀ r ∈ (failWithRecordTx task error false 0 metrics backoff now s).2.tasks, r.id ≠ task.id := by
  have hok : ∃ s₁, failInner task error false 0 metrics backoff now s = (.ok (), s₁) ∧
      s₁.tasks = s.tasks.filter fun r => !(r.id == task.id) := by
    rw [failInner, if_neg (by simp [willRetry_zero])]
    exact ⟨_, Txn.bind_of_ok (insertHistory_logs hlog _ _ _ _ _), rfl⟩
  obtain ⟨s₁, hok, htasks⟩ := hok
  have htx : failWithRecordTx task error false 0 metrics backoff now s = (.ok (), s₁) := Txn.atomically_of_ok hok
  intro r hr hid
  rw [htx, htasks] at hr
  simpa [hid] using (List.mem_filter.1 hr).2

/-- A cancellation that can be written takes the row away, if there is one. -/
theorem cancelToHistoryTx_gone {id now : Int} {s : Store} (hlog : ¬ s.LogFails false id) :
    ∀ r ∈ (cancelToHistoryTx id now s).2.tasks, r.id ≠ id := by
  intro r hr hid
  cases hrow : s.taskById id with
  | none =>
    have htx : cancelToHistoryTx id now s = (.ok false, s) := by
      unfold cancelToHistoryTx transaction
      refine Txn.atomically_of_ok ?_
      rw [hrow]
    rw [htx] at hr
    have hne := List.find?_eq_none.1 hrow r hr
    simp [hid] at hne
  | some row =>
    obtain rfl : row.id = id := by simpa using List.find?_some hrow
    have hok : ∃ s₁, (do cancelInner (rowToTaskRecord row) now; pure true : Sql Bool) s = (.ok true, s₁) ∧
        s₁.tasks = s.tasks.filter fun r => !(r.id == row.id) :=
      ⟨_, Txn.bind_of_ok (Txn.bind_of_ok (insertHistory_logs hlog _ _ _ _ _)), rfl⟩
    obtain ⟨s₁, hok, htasks⟩ := hok
    have htx : cancelToHistoryTx row.id now s = (.ok true, s₁) := by
      unfold cancelToHistoryTx transaction
      refine Txn.atomically_of_ok ?_
      rw [hrow]
      exact hok
    rw [htx, htasks] at hr
    simpa [hid] using (List.mem_filter.1 hr).2

/-! ### Runs -/

private structure Parents.Ok (σ : Parents) : Prop where
  schema : σ.store.Schema
  attended : σ.NoneStranded

section Steps

variable {σ σ' : Parents} {sha256 : List UInt8 → String}

/-- A step that changes no row, and goes on attending to the parents that need it. -/
private theorem Parents.Ok.of_calls (h : σ.Ok) (hstore : σ'.store = σ.store)
    (hatt : ∀ p ∈ σ.store.tasks, p.status = .waiting → ¬ σ.store.HasChild p.id → σ.Attends p.id → σ'.Attends p.id) :
    σ'.Ok := by
  refine ⟨hstore ▸ h.schema, fun p hp hst hnone => ?_⟩
  rw [hstore] at hp hnone
  exact hatt p hp hst hnone (h.attended p hp hst hnone)

/-- A step of the store that leaves every waiting parent with a child, if it is not attended to. -/
private theorem Parents.Ok.of_action (sha256 : List UInt8 → String) (h : σ.Ok) {a : Action}
    (ha : a.setsWaiting = false) (hstore : σ'.store = a.exec sha256 σ.store) (attends : Int → Prop)
    (hleaves : a.LeavesChildren sha256 attends σ.store) (hsub : ∀ id, σ.Attends id → attends id)
    (hatt : ∀ p ∈ σ'.store.tasks, p.status = .waiting → attends p.id → σ'.Attends p.id) : σ'.Ok := by
  refine ⟨?_, fun p hp hst hnone => ?_⟩
  · rw [hstore]
    exact h.schema.steps (a.steps sha256 σ.store)
  have hp' := hp
  rw [hstore] at hp'
  obtain ⟨p₀, hp₀, hst₀, hid, _⟩ := a.waitedIn_exec sha256 h.schema ha p hp' hst
  by_cases hin : attends p.id
  · exact hatt p hp hst hin
  rw [← hid] at hin
  exfalso
  by_cases hchild : σ.store.HasChild p₀.id
  · -- a child is spared
    obtain ⟨c, hc, hpar, hsp⟩ := hleaves p₀ hp₀ hst₀ hin hchild
    have hholds := a.holds_exec sha256 h.schema hc hsp
    rw [← hstore] at hholds
    exact hnone (.of_holds hholds (hid ▸ hpar))
  · exact hin (hsub _ (h.attended p₀ hp₀ hst₀ hchild))

private theorem ok_wait (h : σ.Ok) {id : Int} {memo : Option (List UInt8)} :
    ((ParentStep.wait id memo).exec sha256 σ).Ok := by
  let u : RowUpdate := .setWaiting id memo
  refine ⟨h.schema.steps ((Action.update u).steps sha256 σ.store), fun p hp hst hnone => ?_⟩
  obtain ⟨r, hr, rfl⟩ := List.mem_map.1 hp
  split at hst
  · rename_i hsel
    rw [if_pos hsel]
    rw [Bool.and_eq_true, beq_iff_eq] at hsel
    refine .inr ⟨.resolving id, List.mem_append_right _ (List.mem_singleton_self _), ?_⟩
    exact congrArg some hsel.1.symm
  · rename_i hsel
    rw [if_neg hsel] at hnone ⊢
    have hnone₀ : ¬ σ.store.HasChild r.id := by
      rintro ⟨c, hc, hpar⟩
      exact hnone (.of_holds ((Action.update u).holds_exec sha256 h.schema hc trivial) hpar)
    rcases h.attended r hr hst hnone₀ with hin | ⟨call, hcall, hid⟩
    · exact .inl hin
    · exact .inr ⟨call, List.mem_append_left _ hcall, hid⟩

private theorem ok_complete (h : σ.Ok) {items : List (TaskRecord × IoBudget)} {now : Int}
    (hc : ∀ item ∈ items, σ.store.KnowsParent item.1) : ((ParentStep.complete items now).exec sha256 σ).Ok := by
  rw [ParentStep.exec]
  split
  · rename_i results s hx
    have hexec : s = (Action.completeBatch items now).exec sha256 σ.store := by rw [Action.exec, hx]
    refine h.of_action sha256 (a := .completeBatch items now) rfl hexec
      (fun id => σ.Attends id ∨ ParentCall.resolving id ∈ completedParents items) ?_ (fun id => .inl) ?_
    · intro p hp hst hnot hchild
      obtain ⟨c, hcm, hpar⟩ := hchild
      refine ⟨c, hcm, hpar, fun hin => hnot (.inr ?_)⟩
      -- the child is in the batch, and its record has the parent
      obtain ⟨item, hitem, hid⟩ := List.mem_map.1 hin
      refine List.mem_map.2 ⟨p.id, List.mem_filterMap.2 ⟨item, hitem, ?_⟩, rfl⟩
      rw [hc item hitem c hcm hid.symm]
      exact hpar
    · rintro p _ _ (hatt | hin)
      · rcases hatt with hin | ⟨call, hcall, hid⟩
        · exact .inl hin
        · exact .inr ⟨call, List.mem_append_left _ hcall, hid⟩
      · exact .inr ⟨_, List.mem_append_right _ hin, rfl⟩
  · rename_i e s hx
    have htasks := completeBatchTx_error hx
    have hsteps := (Action.completeBatch items now).steps sha256 σ.store
    rw [Action.exec, hx] at hsteps
    refine ⟨h.schema.steps hsteps, fun p hp hst hnone => ?_⟩
    dsimp only at hp
    rw [htasks] at hp
    refine h.attended p hp hst fun hchild => hnone ?_
    obtain ⟨c, hcm, hpar⟩ := hchild
    refine ⟨c, ?_, hpar⟩
    rw [htasks]
    exact hcm

private theorem ok_fail (h : σ.Ok) {task : TaskRecord} {error : String} {retryable : Bool} {maxRetries : Int}
    {metrics : IoBudget} {backoff : FailBackoff} {now : Int} (hc : σ.store.KnowsParent task) :
    ((ParentStep.fail task error retryable maxRetries metrics backoff now).exec sha256 σ).Ok := by
  refine h.of_action sha256 (a := .failWithRecord task error retryable maxRetries metrics backoff now) rfl rfl
    (fun id => σ.Attends id ∨ (task.willRetry retryable maxRetries = false ∧ task.parentId = some id)) ?_
      (fun id => .inl) ?_
  · rintro p hp hst hnot ⟨c, hcm, hpar⟩
    refine ⟨c, hcm, hpar, fun hid => ?_⟩
    -- the last child fails for good, and its record has the parent
    by_contra hfinal
    exact hnot (.inr ⟨Bool.eq_false_of_not_eq_true hfinal, (hc c hcm hid).trans hpar⟩)
  · intro p _ _ hatt
    rw [ParentStep.exec]
    rcases hatt with hatt | ⟨hfinal, hpar⟩
    · refine hatt.imp_right fun ⟨call, hcall, hid⟩ => ⟨call, ?_, hid⟩
      dsimp only
      split
      · exact hcall
      · exact List.mem_append_left _ hcall
    · refine .inr ⟨.propagating p.id task.id error, ?_, rfl⟩
      simp [hfinal, hpar]

/-- The row of the parent goes, so the call need not attend to it any more. -/
private theorem ok_outcome (h : σ.Ok) {i : Nat} {call : ParentCall} {parent : Int} (hi : σ.calls[i]? = some call)
    (hcall : call.attends = some parent) {a : Action} (ha : a.setsWaiting = false)
    (hgone : ∀ r ∈ (a.exec sha256 σ.store).tasks, r.id ≠ parent)
    (hleaves : a.LeavesChildren sha256 (fun id => id = parent ∨ σ.Attends id) σ.store) :
    Parents.Ok { σ.drop i with store := a.exec sha256 σ.store } := by
  refine h.of_action sha256 ha rfl _ hleaves (fun id => .inr) ?_
  rintro p hp _ (hid | hatt)
  · exact absurd hid (hgone p hp)
  · refine hatt.drop hi fun hsame => hgone p hp ?_
    exact Option.some.inj (hsame.symm.trans hcall)

private theorem ok_move (h : σ.Ok) {i : Nat} {now : Int} : ((ParentStep.move i now).exec sha256 σ).Ok := by
  rw [ParentStep.exec]
  split
  · rename_i parent hi
    refine h.of_action sha256 (a := .update (.setRunningForFinalize parent now)) rfl rfl σ.Attends ?_ (fun _ => id) ?_
    · rintro p _ _ _ ⟨c, hcm, hpar⟩
      exact ⟨c, hcm, hpar, trivial⟩
    · intro p hp hst hatt
      refine hatt.set hi fun hid => ?_
      -- the row of the parent does not wait any more
      obtain ⟨r, hr, rfl⟩ := List.mem_map.1 hp
      split at hst
      · cases hst
      · rename_i hsel
        rw [if_neg hsel] at hid
        refine absurd ?_ hsel
        rw [Bool.and_eq_true, beq_iff_eq, beq_iff_eq]
        exact ⟨(Option.some.inj hid).symm, hst⟩
  · exact h

private theorem parents_restart (h : σ.Ok) {now : Int} (hc : (ParentStep.restart now).Clean sha256 σ) :
    ((ParentStep.restart now).exec sha256 σ).Ok := by
  refine ⟨h.schema.steps ((Action.recoverRunning now).steps sha256 σ.store), fun p hp hst hnone => ?_⟩
  obtain ⟨p₀, hp₀, hst₀, hid, _⟩ := (Action.recoverRunning now).waitedIn_exec sha256 h.schema rfl p hp hst
  obtain ⟨c, hcm, hpar⟩ := hc p₀ hp₀ hst₀
  have hholds : (σ.store.recoverRunning now).Holds false c :=
    (Action.recoverRunning now).holds_exec sha256 h.schema hcm trivial
  exact absurd (Store.HasChild.of_holds hholds (hid ▸ hpar)) hnone

/-- `handle_parent_resolution` drops the parent only if it does not wait or has a child. -/
private theorem ok_resolve (h : σ.Ok) {i : Nat} : ((ParentStep.resolve i).exec sha256 σ).Ok := by
  rw [ParentStep.exec]
  split
  · rename_i parent hi
    split
    · exact h.of_calls rfl fun p _ _ _ hatt => hatt.set hi fun hid => hid
    · exact h.of_calls rfl fun p _ _ _ hatt => hatt.set hi fun hid => hid
    · rename_i hres
      refine h.of_calls rfl fun p hp hst hnone hatt => hatt.drop hi fun hid => ?_
      obtain rfl := Option.some.inj hid
      rcases Store.tryResolveParent_childless h.schema hp hst hnone with hready | ⟨reason, hfailed⟩
      · cases hres.symm.trans hready
      · cases hres.symm.trans hfailed
    · rename_i hres
      refine h.of_calls rfl fun p hp hst hnone hatt => hatt.drop hi fun hid => ?_
      obtain rfl := Option.some.inj hid
      rcases Store.tryResolveParent_childless h.schema hp hst hnone with hready | ⟨reason, hfailed⟩
      · cases hres.symm.trans hready
      · cases hres.symm.trans hfailed
  · exact h

private theorem recordById_id {s : Store} {id : Int} {task : TaskRecord} (h : s.recordById id = some task) :
    task.id = id := by
  obtain ⟨r, hr, rfl⟩ := Option.map_eq_some_iff.1 h
  have hid : r.id = id := by simpa using List.find?_some hr
  obtain ⟨tags, htags⟩ := s.populateTags_eq (rowToTaskRecord r)
  rw [← hid, htags]
  rfl

/-- A parent that is not found is not there. -/
private theorem not_found (h : σ.Ok) {p : TaskRow} (hp : p ∈ σ.store.tasks) : σ.store.recordById p.id ≠ none := by
  rw [Store.recordById, h.schema.taskById_eq hp]
  nofun

end Steps

private theorem parents_exec (sha256 : List UInt8 → String) {σ : Parents} (h : σ.Ok) (st : ParentStep)
    (hc : st.Clean sha256 σ) : (st.exec sha256 σ).Ok := by
  cases st with
  | store a =>
    exact h.of_action sha256 (Action.setsWaiting_of_ofParents hc.1) rfl σ.Attends hc.2 (fun _ => id) fun _ _ _ => id
  | setPausedGroups groups => exact h.of_calls rfl fun _ _ _ _ hatt => hatt
  | wait id memo => exact ok_wait h
  | complete items now => exact ok_complete h hc
  | fail task error retryable maxRetries metrics backoff now => exact ok_fail h hc
  | cancel id =>
    refine h.of_calls rfl fun p _ _ _ hatt => hatt.imp_right fun ⟨call, hcall, hid⟩ => ⟨call, ?_, hid⟩
    exact List.mem_append_left _ hcall
  | finishCancel i now =>
    rw [ParentStep.exec]
    split
    · rename_i parent hi
      obtain ⟨hlog, hleaves⟩ := hc parent hi
      exact ok_outcome h hi rfl (a := .cancelToHistory parent now) rfl (cancelToHistoryTx_gone hlog) hleaves
    · exact h
  | propagate i =>
    rw [ParentStep.exec]
    split
    · rename_i parent child error hi
      split
      · rename_i hnone
        refine h.of_calls rfl fun p hp _ _ hatt => hatt.drop hi fun hid => ?_
        obtain rfl := Option.some.inj hid
        exact not_found h hp hnone
      · rename_i task hsome
        split
        · refine h.of_calls rfl fun p _ _ _ hatt => hatt.set hi fun hid => ?_
          exact (congrArg some (recordById_id hsome)).trans hid
        · exact h.of_calls rfl fun p _ _ _ hatt => hatt.set hi fun hid => hid
    · exact h
  | resolve i => exact ok_resolve h
  | enqueue i =>
    rw [ParentStep.exec]
    split
    · rename_i parent hi
      refine h.of_calls rfl fun p _ _ _ hatt => ?_
      by_cases hid : p.id = parent
      · rw [hid]
        exact (σ.drop i).attends_enqueue parent
      · exact (hatt.drop hi fun hsame => hid (Option.some.inj hsame).symm).enqueue parent
    · exact h
  | readFailing i =>
    rw [ParentStep.exec]
    split
    · rename_i parent reason hi
      split
      · rename_i hnone
        refine h.of_calls rfl fun p hp _ _ hatt => hatt.drop hi fun hid => ?_
        obtain rfl := Option.some.inj hid
        exact not_found h hp hnone
      · rename_i task hsome
        refine h.of_calls rfl fun p _ _ _ hatt => hatt.set hi fun hid => ?_
        exact (congrArg some (recordById_id hsome)).trans hid
    · exact h
  | record i now =>
    rw [ParentStep.exec]
    split
    · rename_i parent reason hi
      obtain ⟨hlog, hleaves⟩ := hc parent reason hi
      exact ok_outcome h hi rfl (a := .failWithRecord parent reason false 0 {} {} now) rfl
        (failWithRecordTx_gone hlog) hleaves
    · exact h
  | pop id =>
    rw [ParentStep.exec]
    split
    · refine h.of_calls rfl fun p _ _ _ hatt => ?_
      by_cases hid : p.id = id
      · exact .inr ⟨.popped id, List.mem_append_right _ (List.mem_singleton_self _), congrArg some hid.symm⟩
      · rcases hatt with hin | ⟨call, hcall, hcid⟩
        · exact .inl (List.mem_filter.2 ⟨hin, bne_iff_ne.2 hid⟩)
        · exact .inr ⟨call, List.mem_append_left _ hcall, hcid⟩
    · exact h
  | check i =>
    rw [ParentStep.exec]
    split
    · rename_i parent hi
      split
      · exact h.of_calls rfl fun p _ _ _ hatt => hatt.set hi fun hid => hid
      · exact h.of_calls rfl fun p _ _ _ hatt => hatt.set hi fun hid => hid
    · exact h
  | checkGroup i =>
    rw [ParentStep.exec]
    split
    · rename_i parent group hi
      split
      · refine h.of_calls rfl fun p _ _ _ hatt => ?_
        by_cases hid : p.id = parent
        · rw [hid]
          exact (σ.drop i).attends_enqueue parent
        · exact (hatt.drop hi fun hsame => hid (Option.some.inj hsame).symm).enqueue parent
      · exact h.of_calls rfl fun p _ _ _ hatt => hatt.set hi fun hid => hid
    · exact h
  | move i now => exact ok_move h
  | fetch i =>
    rw [ParentStep.exec]
    split
    · rename_i parent episode hi
      split
      · exact h.of_calls rfl fun p _ _ _ hatt => hatt.drop hi nofun
      · exact h.of_calls rfl fun p _ _ _ hatt => hatt.set hi nofun
    · exact h
  | spawn i =>
    rw [ParentStep.exec]
    split
    · rename_i e episode hi
      exact h.of_calls rfl fun p _ _ _ hatt => hatt.drop hi nofun
    · exact h
  | reject i now =>
    rw [ParentStep.exec]
    split
    · rename_i e episode hi
      refine h.of_action sha256 (a := .fail e.task.id "no executor for finalize" false 0 {} {} now) rfl rfl σ.Attends
        (hc e episode hi) (fun _ => id) fun p _ _ hatt => ?_
      exact hatt.drop hi nofun
    · exact h
  | restart now => exact parents_restart h hc

/-- In every state of a run of clean steps, a waiting parent without children is attended to. -/
theorem no_parent_stranded (sha256 : List UInt8 → String) (σ : Parents)
    (h : Runs Parents.Fresh (fun σ (a : ParentStep) => a.exec sha256 σ) (fun σ a => a.Clean sha256 σ) σ) :
    σ.NoneStranded := by
  have hok : σ.Ok := by
    refine Runs.invariant (I := Parents.Ok) h (fun σ hfresh => ⟨hfresh.store.schema, fun p hp => ?_⟩)
        fun σ st hσ hc =>
      parents_exec sha256 hσ st hc
    rw [hfresh.store.tasks] at hp
    cases hp
  exact hok.attended

/-- The child is dispatched and completes. -/
private def attendedRun : List ParentStep :=
  waitingRun ++ ([.store (.popNextBatch 1 none 0), .complete [(dispatchedChild, {})] 0, .resolve 0,
    .enqueue 0] : List ParentStep)

theorem attendedRun_attended :
    (parentsState attendedRun).store.tasks.map (fun r => (r.id, r.status)) = [(1, .waiting)] ∧
      (parentsState attendedRun).pendingFinalizers = [1] ∧ (parentsState attendedRun).NoneStranded := by
  refine ⟨by decide +kernel, by decide +kernel, no_parent_stranded sampleSha256 _ ?_⟩
  refine Runs.list (.start parentsState_fresh) attendedRun
    ⟨⟨rfl, ?_⟩, ⟨rfl, ?_⟩, ⟨rfl, ?_⟩, trivial, trivial, ⟨rfl, ?_⟩, ?_, trivial, trivial, trivial⟩
  · exact fun p hp => absurd hp List.not_mem_nil
  · rintro p _ _ _ ⟨c, hc, hpar⟩
    exact ⟨c, hc, hpar, trivial⟩
  · have hnone : ∀ p ∈ (parentsState (attendedRun.take 2)).store.tasks, p.status ≠ .waiting := by decide +kernel
    exact fun p hp hst => absurd hst (hnone p hp)
  · rintro p _ _ _ ⟨c, hc, hpar⟩
    exact ⟨c, hc, hpar, trivial⟩
  · have hparent : ∀ r ∈ (parentsState (attendedRun.take 6)).store.tasks, r.id = dispatchedChild.id →
        dispatchedChild.parentId = r.parentId := by decide +kernel
    intro item hitem
    obtain rfl := List.mem_singleton.1 hitem
    exact hparent

/-- The child is cancelled, and nobody looks at the parent. -/
private def strandedParentRun : List ParentStep := waitingRun ++ [.cancel 2, .finishCancel 0 0]

theorem stranded_parent :
    ¬ ∀ σ, Runs Parents.Fresh (fun σ (a : ParentStep) => a.exec sampleSha256 σ) (fun _ a => a.Foreign) σ →
      σ.NoneStranded := by
  intro h
  have hrun : Runs Parents.Fresh (fun σ (a : ParentStep) => a.exec sampleSha256 σ) (fun _ a => a.Foreign)
      (parentsState strandedParentRun) := by
    refine Runs.list (.start parentsState_fresh) strandedParentRun ?_
    repeat' constructor
  obtain ⟨p, hp, hst⟩ : ∃ p ∈ (parentsState strandedParentRun).store.tasks, p.status = .waiting := by decide +kernel
  have hchildless : ∀ c ∈ (parentsState strandedParentRun).store.tasks, c.parentId = none := by decide +kernel
  have hset : (parentsState strandedParentRun).pendingFinalizers = [] := by decide +kernel
  have hcalls : (parentsState strandedParentRun).calls = [] := by decide +kernel
  have hatt := h _ hrun p hp hst fun ⟨c, hc, hpar⟩ => by
    rw [hchildless c hc] at hpar
    cases hpar
  rw [Parents.Attends, hset, hcalls] at hatt
  rcases hatt with hin | ⟨call, hcall, _⟩
  · cases hin
  · cases hcall

end Taskmill
