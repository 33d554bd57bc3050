import Mathlib
import Taskmill.Rows

/-!
# The status diagram

Which step takes a task from which status to which, over all operations of the store.  A life begins `pending`,
`paused` or `blocked`.  It gets to `running` by a claim, or as a parent that waited, and to `waiting` from `running`
only; it is `blocked` at its beginning or never.
-/

namespace Taskmill

/-- A life may begin with this status. -/
def TaskStatus.Initial (st : TaskStatus) : Prop := st = .pending ∨ st = .paused ∨ st = .blocked

/-- `peek_next` and `claim_task`, `pop_by_id`, `pop_next` -/
def Action.isPop : Action → Bool
  | .claimTask .. | .popById .. | .popNextBatch .. => true
  | _ => false

/-- The step takes tasks with the first status to the second one. -/
def Action.Takes (a : Action) (st st' : TaskStatus) : Prop :=
  match a with
  | .claimTask .. | .popById .. | .popNextBatch .. => st = .pending ∧ st' = .running
  | .update (.setRunningForFinalize ..) => st = .waiting ∧ st' = .running
  | .update (.setWaiting ..) => st = .running ∧ st' = .waiting
  | .update (.requeue _) => st = .running ∧ st' = .pending
  | .update (.resume ..) | .update (.resumeSole ..) => st = .paused ∧ st' = .pending
  | .update (.pausePendingInGroup ..) | .update (.pausePendingByTypePrefix ..) => st = .pending ∧ st' = .paused
  | .completeBatch .. | .resolveDependents .. | .failDependents .. => st = .blocked ∧ (st' = .pending ∨ st' = .paused)
  | .recoverRunning _ => (st = .running ∨ st = .blocked) ∧ st' = .pending
  -- the statements of these name the id of the row only
  | .update (.pause ..) => st' = .paused
  | .update (.requeueForRetry ..) | .fail .. | .failWithRecord .. => st' = .pending
  | _ => False

theorem Action.Takes.not_blocked {a : Action} {st : TaskStatus} : ¬ a.Takes st .blocked := by
  intro h
  cases a with
  | update u => cases u <;> simp [Action.Takes] at h
  | _ => simp [Action.Takes] at h

/-- What is running has been claimed, or has waited. -/
theorem Action.Takes.to_running {a : Action} {st : TaskStatus} (h : a.Takes st .running) :
    a.isPop = true ∧ st = .pending ∨ st = .waiting := by
  cases a with
  | update u => cases u <;> simp_all [Action.Takes]
  | _ => simp_all [Action.Takes, Action.isPop]

theorem Action.Takes.to_waiting {a : Action} {st : TaskStatus} (h : a.Takes st .waiting) : st = .running := by
  cases a with
  | update u => cases u <;> simp_all [Action.Takes]
  | _ => simp_all [Action.Takes]

/-! ### One step -/

/-- The row begins a life, or it goes on with the life of a row of `s`. -/
def Action.Follows (a : Action) (s : Store) (r' : TaskRow) : Prop :=
  s.nextInst ≤ r'.inst ∧ r'.status.Initial ∨
    ∃ r ∈ s.tasks, r.inst = r'.inst ∧ r.id = r'.id ∧ (r'.status = r.status ∨ a.Takes r.status r'.status)

section Step

variable {a : Action} {s σ : Store} {r r' : TaskRow}

private theorem onward_same (h : a.Follows s r) (hinst : r'.inst = r.inst) (hid : r'.id = r.id)
    (hst : r'.status = r.status) :
    a.Follows s r' := by
  rcases h with ⟨hnew, hinitial⟩ | ⟨r₀, hr₀, hinst₀, hid₀, hst₀⟩
  · rw [← hinst] at hnew
    rw [← hst] at hinitial
    exact .inl ⟨hnew, hinitial⟩
  · rw [← hst] at hst₀
    exact .inr ⟨r₀, hr₀, hinst₀.trans hinst.symm, hid₀.trans hid.symm, hst₀⟩

private theorem onward_takes (hr : r ∈ s.tasks) (hinst : r'.inst = r.inst) (hid : r'.id = r.id)
    (hst : a.Takes r.status r'.status) : a.Follows s r' := .inr ⟨r, hr, hinst.symm, hid.symm, .inr hst⟩

private theorem onward_new (hinst : s.nextInst ≤ r.inst) (hst : r.status.Initial) : a.Follows s r := .inl ⟨hinst, hst⟩

private theorem onward_update (u : RowUpdate) (hr : r ∈ s.tasks) (hsel : u.selects r = true) :
    (Action.update u).Follows s (u.change r) := by
  have hself : (Action.update u).Follows s r := .inr ⟨r, hr, rfl, rfl, .inl rfl⟩
  cases u with
  | requeue id =>
    simp only [RowUpdate.selects, Bool.and_eq_true, beq_iff_eq] at hsel
    exact onward_takes hr rfl rfl ⟨hsel.2, rfl⟩
  | setRunAfter id runAfter => exact onward_same hself rfl rfl rfl
  | incrementRetry id error => exact onward_same hself rfl rfl rfl
  | requeueForRetry id error delay now => exact onward_takes hr rfl rfl rfl
  | pause id reason now => exact onward_takes hr rfl rfl rfl
  | resume id now =>
    simp only [RowUpdate.selects, Bool.and_eq_true, beq_iff_eq] at hsel
    exact onward_takes hr rfl rfl ⟨hsel.2, rfl⟩
  | resumeSole sel reason now =>
    simp only [RowUpdate.selects, Bool.and_eq_true, beq_iff_eq] at hsel
    exact onward_takes hr rfl rfl ⟨hsel.1.2, rfl⟩
  | clearBit sel reason => exact onward_same hself rfl rfl rfl
  | addGroupBit group => exact onward_same hself rfl rfl rfl
  | pausePendingInGroup group now =>
    simp only [RowUpdate.selects, Bool.and_eq_true, beq_iff_eq] at hsel
    exact onward_takes hr rfl rfl ⟨hsel.2, rfl⟩
  | pausePendingByTypePrefix like now =>
    simp only [RowUpdate.selects, Bool.and_eq_true, Bool.or_eq_true, beq_iff_eq] at hsel
    rcases hsel.2 with hst | hst
    · exact onward_takes hr rfl rfl ⟨hst, rfl⟩
    · exact onward_same hself rfl rfl hst.symm
  | setWaiting id memo =>
    simp only [RowUpdate.selects, Bool.and_eq_true, beq_iff_eq] at hsel
    exact onward_takes hr rfl rfl ⟨hsel.2, rfl⟩
  | setRunningForFinalize id now =>
    simp only [RowUpdate.selects, Bool.and_eq_true, beq_iff_eq] at hsel
    exact onward_takes hr rfl rfl ⟨hsel.2, rfl⟩
  | setRecurringPaused id paused => exact onward_same hself rfl rfl rfl

/-- A submission begins lives; the rows it changes keep their status. -/
private theorem onward_submission {sha256 : List UInt8 → String} {sub : TaskSubmission} {now : Int}
    (h : s.Within (a.Follows s) σ) : sub.KeepsRows sha256 (a.Follows s) now σ where
  pending _ _ := onward_new h.next (.inl rfl)
  paused _ _ := onward_new h.next (.inr (.inl rfl))
  blocked := onward_new h.next (.inr (.inr rfl))
  upgraded r hr _ _ _ := onward_same (h.rows r hr) rfl rfl rfl
  requeued r hr _ _ := onward_same (h.rows r hr) rfl rfl rfl
  superseded _ _ _ _ _ := onward_new h.next (.inl rfl)
  replaced _ _ _ _ _ := onward_new h.next (.inl rfl)

/-- A completion resets a requeued row to a new life and inserts the next instance. -/
private theorem onward_completion (tasks : List TaskRecord) (now : Int) :
    CompletionKeepsRows (a.Follows s) tasks now s where
  reset _ _ _ _ _ hinst := onward_new hinst (.inl rfl)
  next _ _ _ _ _ inst hinst := by
    split
    · exact onward_new hinst (.inr (.inl rfl))
    · exact onward_new hinst (.inl rfl)

/-- What is released was blocked before the step. -/
private theorem onward_freeing (now : Int)
    (ha : ∀ st', st' = .pending ∨ st' = .paused → a.Takes .blocked st') : FreeingKeepsRows (a.Follows s) now s := by
  intro r hr hst
  have hfree : (s.freeRow now r).id = r.id ∧
      ((s.freeRow now r).status = .pending ∨ (s.freeRow now r).status = .paused) := by
    rw [Store.freeRow]
    split
    · exact ⟨rfl, .inr rfl⟩
    · exact ⟨rfl, .inl rfl⟩
  have hinst := s.freeRow_inst now r
  rcases hr with ⟨hnew, -⟩ | ⟨r₀, hr₀, hinst₀, hid₀, hst₀⟩
  · refine onward_new (hnew.trans_eq hinst.symm) ?_
    exact hfree.2.imp_right .inl
  · have hblocked : r₀.status = .blocked := by
      rw [hst] at hst₀
      rcases hst₀ with hst₀ | hst₀
      · exact hst₀.symm
      · exact absurd hst₀ Action.Takes.not_blocked
    refine onward_takes hr₀ (hinst.trans hinst₀.symm) (hfree.1.trans hid₀.symm) ?_
    rw [hblocked]
    exact ha _ hfree.2

/-- Every row after a step begins a life or goes on along the diagram. -/
private theorem rows_follow (sha256 : List UInt8 → String) (hschema : s.Schema) (a : Action) :
    (a.exec sha256 s).Rows (a.Follows s) := by
  have hself : ∀ b : Action, s.Rows (b.Follows s) := fun b r hr => .inr ⟨r, hr, rfl, rfl, .inl rfl⟩
  have hwithin : ∀ b : Action, s.Within (b.Follows s) s := fun b => ⟨hself b, hschema, rfl, Nat.le_refl _⟩
  refine a.rows_exec sha256 hschema (hself a) ?_
  cases a with
  | update u => exact fun r hr hsel => onward_update u hr hsel
  | submitDirect sub now => exact onward_submission (hwithin _)
  | processSubmitBatch skipRequeue batch =>
    exact Transact.Along.of_forall fun σ m hσ => ⟨onward_submission hσ, fun _ => onward_new hσ.next (.inl rfl)⟩
  | submitChunk skipRequeue last now chunk =>
    exact Transact.Along.of_forall fun σ item hσ _ => onward_submission hσ
  | claimTask id now => exact fun r hr _ hst => onward_takes hr rfl rfl ⟨hst, rfl⟩
  | popById id now => exact fun r hr _ hst => onward_takes hr rfl rfl ⟨hst, rfl⟩
  | popNextBatch limit aging now =>
    intro r hr hready
    simp only [TaskRow.eligible, TaskRow.due, Bool.and_eq_true, beq_iff_eq] at hready
    exact onward_takes hr rfl rfl ⟨hready.1.1, rfl⟩
  | complete id metrics now => exact fun row _ => onward_completion [rowToTaskRecord row] now
  | completeWithRecord task metrics now => exact onward_completion [task] now
  | completeBatch items now =>
    exact ⟨onward_completion (items.map (·.1)) now, onward_freeing now fun st' hst' => ⟨rfl, hst'⟩⟩
  | resolveDependents id now => exact onward_freeing now fun st' hst' => ⟨rfl, hst'⟩
  | failDependents id now => exact onward_freeing now fun st' hst' => ⟨rfl, hst'⟩
  | fail id error retryable maxRetries metrics backoff now =>
    intro r hrow _
    exact onward_takes (List.mem_of_find?_eq_some hrow) rfl rfl rfl
  | failWithRecord task error retryable maxRetries metrics backoff now =>
    exact fun _ r hr _ => onward_takes hr rfl rfl rfl
  | recoverRunning now =>
    refine ⟨fun r hr hst => ?_, fun r hr _ _ => ?_, fun r hr hst _ _ => ?_⟩
    · exact onward_takes hr rfl rfl ⟨.inl hst, rfl⟩
    · exact onward_same (hself _ r hr) rfl rfl rfl
    · exact onward_takes hr rfl rfl ⟨.inr hst, rfl⟩
  | failBatch items now => trivial
  | cancelToHistory id now => trivial
  | cancelToHistoryWithRecord task now => trivial
  | cancelChildren parent read now => trivial
  | expireTasks now => trivial
  | expireSingle id now => trivial
  | pauseGroupState group resumeAt now => trivial
  | resumeGroupState group => trivial
  | delete id => trivial
  | deleteHistory historyId => trivial
  | pruneHistoryByAge days now => trivial
  | pruneHistoryByCount keep => trivial
  | maybePrune now => trivial

end Step

/-! ### Runs -/

/-- The id and the status of a life, if there is a row of it. -/
def Store.lifeAt (s : Store) (inst : Nat) : Option (Int × TaskStatus) :=
  (s.tasks.find? (·.inst == inst)).map fun r => (r.id, r.status)

/-- What a step may do to a life. -/
def Action.Carries (a : Action) : Option (Int × TaskStatus) → Option (Int × TaskStatus) → Prop
  | _, none => True
  | none, some (_, st') => st'.Initial
  | some (id, st), some (id', st') => id' = id ∧ (st' = st ∨ a.Takes st st')

/-- The life is one walk through the diagram, under one id. -/
structure Walks (actions : List Action) (trace : Nat → Option (Int × TaskStatus)) : Prop where
  step : ∀ n (a : Action), actions[n]? = some a → a.Carries (trace n) (trace (n + 1))
  /-- what has ended does not come back -/
  ended : ∀ m n, m ≤ n → trace m ≠ none → trace n = none → ∀ k, n ≤ k → trace k = none
  /-- what runs has been claimed while it was pending -/
  claimed : ∀ n id, trace n = some (id, .running) →
    ∃ m a, m < n ∧ actions[m]? = some a ∧ a.isPop = true ∧ trace m = some (id, .pending) ∧
      trace (m + 1) = some (id, .running)
  /-- what waits has run -/
  ran : ∀ n id, trace n = some (id, .waiting) → ∃ m < n, trace m = some (id, .running)
  /-- what is blocked has been so from its beginning -/
  blocked : ∀ n id, trace n = some (id, .blocked) → ∀ m ≤ n, trace m = none ∨ trace m = some (id, .blocked)

section Runs

variable {sha256 : List UInt8 → String} {s s₀ : Store} {inst : Nat} {id : Int} {st : TaskStatus}

theorem Store.lifeAt_eq_some (hs : s.Schema) :
    s.lifeAt inst = some (id, st) ↔ ∃ r ∈ s.tasks, r.inst = inst ∧ r.id = id ∧ r.status = st := by
  rw [Store.lifeAt, Option.map_eq_some_iff]
  constructor
  · rintro ⟨r, hfind, heq⟩
    cases heq
    have hinst : r.inst = inst := by simpa using List.find?_some hfind
    exact ⟨r, List.mem_of_find?_eq_some hfind, hinst, rfl, rfl⟩
  · rintro ⟨r, hr, rfl, rfl, rfl⟩
    exact ⟨r, hs.find_inst hr, rfl⟩

theorem Store.lt_of_lifeAt (hs : s.Schema) (h : s.lifeAt inst ≠ none) : inst < s.nextInst := by
  obtain ⟨⟨id, st⟩, hlife⟩ := Option.ne_none_iff_exists'.1 h
  obtain ⟨r, hr, rfl, -, -⟩ := (Store.lifeAt_eq_some hs).1 hlife
  exact hs.inst_lt r hr

private theorem steps_life (hs : s.Schema) (a : Action) :
    a.Carries (s.lifeAt inst) ((a.exec sha256 s).lifeAt inst) := by
  have hs' : (a.exec sha256 s).Schema := hs.steps (a.steps sha256 s)
  cases hnext : (a.exec sha256 s).lifeAt inst with
  | none => cases s.lifeAt inst <;> trivial
  | some life' =>
    obtain ⟨id', st'⟩ := life'
    obtain ⟨r', hr', hinst', rfl, rfl⟩ := (Store.lifeAt_eq_some hs').1 hnext
    rcases rows_follow sha256 hs a r' hr' with ⟨hnew, hinitial⟩ | ⟨r, hr, hinst, hid, hst⟩
    · cases hlife : s.lifeAt inst with
      | none => exact hinitial
      | some life =>
        have hthere : s.lifeAt inst ≠ none := by rw [hlife]; nofun
        have hlt := Store.lt_of_lifeAt hs hthere
        omega
    · have hlife : s.lifeAt inst = some (r.id, r.status) :=
        (Store.lifeAt_eq_some hs).2 ⟨r, hr, hinst.trans hinst', rfl, rfl⟩
      rw [hlife]
      exact ⟨hid.symm, hst⟩

/-- A life that has ended stays so. -/
private theorem lifeAt_exec (hs : s.Schema) (hlt : inst < s.nextInst) (h : s.lifeAt inst = none) (a : Action) :
    (a.exec sha256 s).lifeAt inst = none := by
  cases hnext : (a.exec sha256 s).lifeAt inst with
  | none => rfl
  | some life' =>
    obtain ⟨id', st'⟩ := life'
    have hs' : (a.exec sha256 s).Schema := hs.steps (a.steps sha256 s)
    obtain ⟨r', hr', hinst', -, -⟩ := (Store.lifeAt_eq_some hs').1 hnext
    rcases rows_follow sha256 hs a r' hr' with ⟨hnew, -⟩ | ⟨r, hr, hinst, -, -⟩
    · omega
    · have hlife : s.lifeAt inst = some (r.id, r.status) :=
        (Store.lifeAt_eq_some hs).2 ⟨r, hr, hinst.trans hinst', rfl, rfl⟩
      rw [h] at hlife
      cases hlife

private theorem nextInst_execAll (s : Store) (actions : List Action) :
    s.nextInst ≤ (execAll sha256 s actions).nextInst := by
  induction actions generalizing s with
  | nil => exact Nat.le_refl _
  | cons a actions ih => exact (a.steps sha256 s).nextInst_le.trans (ih (a.exec sha256 s))

private theorem lifeAt_execAll (hs : s.Schema) (hlt : inst < s.nextInst) (h : s.lifeAt inst = none)
    (actions : List Action) :
    (execAll sha256 s actions).lifeAt inst = none := by
  induction actions generalizing s with
  | nil => exact h
  | cons a actions ih =>
    have hsteps := a.steps sha256 s
    exact ih (hs.steps hsteps) (hlt.trans_le hsteps.nextInst_le) (lifeAt_exec hs hlt h a)

section Walk

variable {actions : List Action} {trace : Nat → Option (Int × TaskStatus)}

/-- A trace of which every step is allowed. -/
private structure Traced (actions : List Action) (trace : Nat → Option (Int × TaskStatus)) : Prop where
  start : trace 0 = none
  step : ∀ n (a : Action), actions[n]? = some a → a.Carries (trace n) (trace (n + 1))
  stop : ∀ n, actions[n]? = none → trace (n + 1) = trace n
  ended : ∀ m n, m ≤ n → trace m ≠ none → trace n = none → ∀ k, n ≤ k → trace k = none

/-- Where a life comes from: it was there, it begins, or a step has taken it there. -/
private theorem Traced.cases (h : Traced actions trace) {n : Nat} (hnext : trace (n + 1) = some (id, st)) :
    trace n = some (id, st) ∨ st.Initial ∧ trace n = none ∨
      ∃ a st₀, actions[n]? = some a ∧ trace n = some (id, st₀) ∧ a.Takes st₀ st := by
  cases ha : actions[n]? with
  | none =>
    rw [h.stop n ha] at hnext
    exact .inl hnext
  | some a =>
    have hone := h.step n a ha
    rw [hnext] at hone
    cases htrace : trace n with
    | none =>
      rw [htrace] at hone
      exact .inr (.inl ⟨hone, rfl⟩)
    | some life =>
      obtain ⟨id₀, st₀⟩ := life
      rw [htrace] at hone
      obtain ⟨rfl, rfl | htakes⟩ := hone
      · exact .inl rfl
      · exact .inr (.inr ⟨a, st₀, rfl, rfl, htakes⟩)

private theorem Traced.ran (h : Traced actions trace) {n : Nat} (hn : trace n = some (id, .waiting)) :
    ∃ m < n, trace m = some (id, .running) := by
  induction n with
  | zero =>
    rw [h.start] at hn
    cases hn
  | succ n ih =>
    rcases h.cases hn with hsame | ⟨hinitial, -⟩ | ⟨a, st, -, htrace, htakes⟩
    · obtain ⟨m, hm, hrunning⟩ := ih hsame
      exact ⟨m, by omega, hrunning⟩
    · simp [TaskStatus.Initial] at hinitial
    · rw [htakes.to_waiting] at htrace
      exact ⟨n, by omega, htrace⟩

private theorem Traced.claimed (h : Traced actions trace) {n : Nat} (hn : trace n = some (id, .running)) :
    ∃ m a, m < n ∧ actions[m]? = some a ∧ a.isPop = true ∧ trace m = some (id, .pending) ∧
      trace (m + 1) = some (id, .running) := by
  induction n using Nat.strong_induction_on with
  | _ n ih =>
    cases n with
    | zero =>
      rw [h.start] at hn
      cases hn
    | succ n =>
      rcases h.cases hn with hsame | ⟨hinitial, -⟩ | ⟨a, st, ha, htrace, htakes⟩
      · obtain ⟨m, b, hm, hrest⟩ := ih n (by omega) hsame
        exact ⟨m, b, by omega, hrest⟩
      · simp [TaskStatus.Initial] at hinitial
      · rcases htakes.to_running with ⟨hpop, rfl⟩ | rfl
        · exact ⟨n, a, by omega, ha, hpop, htrace, hn⟩
        · -- a parent that waited has run before
          obtain ⟨k, hk, hrunning⟩ := h.ran htrace
          obtain ⟨m, b, hm, hrest⟩ := ih k (by omega) hrunning
          exact ⟨m, b, by omega, hrest⟩

private theorem Traced.blocked (h : Traced actions trace) {n : Nat} (hn : trace n = some (id, .blocked)) {m : Nat}
    (hm : m ≤ n) : trace m = none ∨ trace m = some (id, .blocked) := by
  induction n with
  | zero =>
    rw [h.start] at hn
    cases hn
  | succ n ih =>
    rcases Nat.lt_or_eq_of_le hm with hm | rfl
    · rcases h.cases hn with hsame | ⟨-, hnone⟩ | ⟨a, st, -, -, htakes⟩
      · exact ih hsame (by omega)
      · -- a life that begins now has not been there before
        by_contra hthere
        rw [not_or] at hthere
        have hgone := h.ended m n (by omega) hthere.1 hnone (n + 1) (by omega)
        rw [hn] at hgone
        cases hgone
      · exact absurd htakes Action.Takes.not_blocked
    · exact .inr hn

private theorem Traced.walks (h : Traced actions trace) : Walks actions trace :=
  ⟨h.step, h.ended, fun _ _ hn => h.claimed hn, fun _ _ hn => h.ran hn, fun _ _ hn _ hm => h.blocked hn hm⟩

end Walk

/-- In every run every life is one walk through the status diagram. -/
theorem lives_walk (sha256 : List UInt8 → String) {s₀ : Store} (h : s₀.Fresh) (actions : List Action) (inst : Nat) :
    Walks actions fun n => (execAll sha256 s₀ (actions.take n)).lifeAt inst := by
  have hschema : ∀ n, (execAll sha256 s₀ (actions.take n)).Schema := fun n => schema_execAll sha256 _ h.schema
  have happend : ∀ as bs, execAll sha256 s₀ (as ++ bs) = execAll sha256 (execAll sha256 s₀ as) bs := fun as bs =>
    List.foldl_append
  refine Traced.walks ⟨?_, fun n a ha => ?_, fun n ha => ?_, fun m n hmn hthere hgone k hk => ?_⟩
  · have htasks : (execAll sha256 s₀ (actions.take 0)).tasks = [] := h.tasks
    rw [Store.lifeAt, htasks]
    rfl
  · have hnext : execAll sha256 s₀ (actions.take (n + 1)) = a.exec sha256 (execAll sha256 s₀ (actions.take n)) := by
      rw [List.take_add_one, ha, happend]
      rfl
    rw [hnext]
    exact steps_life (hschema n) a
  · rw [List.take_add_one, ha, Option.toList_none, List.append_nil]
  · obtain ⟨d, rfl⟩ := Nat.exists_eq_add_of_le hk
    obtain ⟨e, rfl⟩ := Nat.exists_eq_add_of_le hmn
    rw [List.take_add, happend]
    refine lifeAt_execAll (hschema (m + e)) ?_ hgone _
    have hlt := Store.lt_of_lifeAt (hschema m) hthere
    rw [List.take_add, happend]
    exact hlt.trans_le (nextInst_execAll _ _)

end Runs

/-- A parent runs, waits for its child and runs again; the child is retried. -/
private def parentRun : List Action :=
  [.submitDirect (TaskSubmission.new "a") 0, .claimTask 1 0,
    .submitDirect { TaskSubmission.new "b" with parentId := some 1 } 0, .update (.setWaiting 1 none), .claimTask 2 0,
    .fail 2 "" true 3 {} {} 0, .claimTask 2 0, .complete 2 {} 0, .update (.setRunningForFinalize 1 0),
      .complete 1 {} 0]

theorem parentRun_walks :
    (List.range 11).map (fun n => (execAll sampleSha256 openMemory (parentRun.take n)).lifeAt 0) =
        [none, some (1, .pending), some (1, .running), some (1, .running), some (1, .waiting), some (1, .waiting),
          some (1, .waiting), some (1, .waiting), some (1, .waiting), some (1, .running), none] ∧
      Walks parentRun (fun n => (execAll sampleSha256 openMemory (parentRun.take n)).lifeAt 0) :=
  ⟨by decide +kernel, lives_walk sampleSha256 openMemory_fresh parentRun 0⟩

end Taskmill
