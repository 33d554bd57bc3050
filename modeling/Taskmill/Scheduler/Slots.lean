import Taskmill.Scheduler.Entries
import Taskmill.Survival

/-!
# Slots

An execution occupies a slot in the active map and in the counter of its module, and its row is `running`.  Its
future gives all of this back on every branch by hand: on a success the entry and the count go first and the row
when the batch is recorded, on a failure it is the other way round, and the row of a cancelled task is up to whoever
has cancelled it.

Nothing is given back when the executor or `delay_for` panics, and a row stays `running` when the statement that
should change it fails: the outcome is dropped, and in a batch with it the outcomes of other tasks.
-/

namespace Taskmill

open Transact

/-! ### What a recorded outcome leaves behind -/

/-- No row with one of these ids runs. -/
def Store.Idle (s : Store) (ids : List Int) : Prop := s.Rows fun r => r.id ∈ ids → r.status ≠ .running

section Idle

variable {s s' : Store} {ids : List Int} {now : Int}

theorem Store.Idle.running (h : s.Idle ids) {id : Int} (hid : id ∈ ids) : s.running id = false := by
  rw [Store.running, List.any_eq_false]
  intro r hr
  rw [Bool.and_eq_true, beq_iff_eq, beq_iff_eq]
  rintro ⟨rfl, hst⟩
  exact h r hr hid hst

theorem Store.Idle.nil : s.Idle [] := fun _ _ hr => absurd hr List.not_mem_nil

/-- A row that is changed to another status than `running` does not run. -/
theorem Store.Idle.update (h : s.Idle ids) {p : TaskRow → Bool} {f : TaskRow → TaskRow}
    (hst : ∀ r, (f r).status ≠ .running) {id : Int}
    (hp : ∀ r ∈ s.tasks, r.id = id → p r = true ∨ r.status ≠ .running) :
    (s.updateTasks p f).Idle (id :: ids) := by
  intro r' hr' hmem
  obtain ⟨r, hr, rfl⟩ := List.mem_map.1 hr'
  split
  · exact hst r
  · rename_i hno
    rw [if_neg hno] at hmem
    rcases List.mem_cons.1 hmem with heq | hmem
    · exact (hp r hr heq).resolve_left hno
    · exact h r hr hmem

private theorem idle_delete (h : s.Idle ids) {p : TaskRow → Bool} {id : Int}
    (hp : ∀ r ∈ s.tasks, r.id = id → p r = true) : (s.deleteTasks p).Idle (id :: ids) := by
  intro r hr hmem
  obtain ⟨hr, hno⟩ := List.mem_filter.1 hr
  rcases List.mem_cons.1 hmem with heq | hmem
  · rw [hp r hr heq] at hno
    cases hno
  · exact h r hr hmem

private theorem resetRequeued_idle (h : s.Idle ids) (id : Int) : (s.resetRequeued id).Idle (id :: ids) := by
  have hreset : (s.updateTasks (·.id == id) (TaskRow.resetRequeued s.nextInst)).Idle (id :: ids) :=
    h.update (fun _ => TaskStatus.noConfusion) fun r _ hid => .inl (beq_iff_eq.2 hid)
  exact Store.Rows.congr hreset rfl

private theorem finishRow_idle (hids : s.ids.Nodup) (h : s.Idle ids) (skipTags : Bool) (id : Int) :
    (s.finishRow skipTags id).Idle (id :: ids) := by
  rw [Store.finishRow]
  split
  · -- the row that is deleted is the only one with this id
    rename_i hdel
    obtain ⟨r₀, hr₀, hp⟩ := List.any_eq_true.1 hdel
    have hgone : (s.deleteTasks fun r => r.id == id && !r.requeue).Idle (id :: ids) := by
      refine idle_delete h fun r hr hid => ?_
      have heq : r₀ = r := by
        refine List.inj_on_of_nodup_map hids hr₀ hr ?_
        rw [Bool.and_eq_true, beq_iff_eq] at hp
        exact hp.1.trans hid.symm
      exact heq ▸ hp
    split
    · exact hgone
    · exact Store.Rows.congr hgone rfl
  · exact resetRequeued_idle h id

private theorem completeInner_idle {task : TaskRecord} {metrics : IoBudget} {skipTags : Bool}
    {result : Option (Int × Int)} (hids : s.ids.Nodup) (hs : s.Idle ids)
    (h : completeInner task metrics skipTags now s = (.ok result, s')) :
    s'.Idle (task.id :: ids) := by
  have hlog : (s.logCompleted skipTags now (task, metrics)).Idle ids := Store.Rows.congr hs rfl
  have hids₁ : (s.logCompleted skipTags now (task, metrics)).ids.Nodup := hids
  have hrow : (s.completeRow skipTags now (task, metrics)).Idle (task.id :: ids) :=
    finishRow_idle hids₁ hlog skipTags task.id
  rcases completeInner_cases h with rfl | ⟨interval, _, _, rfl⟩
  · exact hrow
  · have hadd : ((s.completeRow skipTags now (task, metrics)).addTask (task.nextInstance interval now)).Idle
        (task.id :: ids) :=
      Store.Rows.add hrow fun _ => TaskStatus.noConfusion
    rw [Store.pauseInstance]
    split
    · exact Store.Rows.update (Store.Rows.congr hadd rfl) fun _ _ _ _ => TaskStatus.noConfusion
    · exact Store.Rows.congr hadd rfl

private theorem release_idle (hs : s.Idle ids) (freed : List Int) : (s.release freed now).Idle ids := by
  intro r' hr' hmem
  obtain ⟨r, hr, rfl⟩ := List.mem_map.1 hr'
  by_cases hf : s.frees freed r = true
  · rw [if_pos hf, Store.freeRow]
    split
    · exact TaskStatus.noConfusion
    · exact TaskStatus.noConfusion
  · rw [if_neg hf] at hmem ⊢
    exact hs r hr hmem

private theorem completeAndResolve_idle {skipTags : Bool} {item : TaskRecord × IoBudget}
    {result : Int × Option (Int × Int) × List Int} (hschema : s.Schema) (hs : s.Idle ids)
    (h : completeAndResolve skipTags now item s = (.ok result, s')) : s'.Schema ∧ s'.Idle (item.1.id :: ids) := by
  have hsteps : Steps false s (completeAndResolve skipTags now item s).2 := steps_completeAndResolve item s
  rw [h] at hsteps
  refine ⟨hschema.steps hsteps, ?_⟩
  obtain ⟨recurring, s₁, h₁, h⟩ := Txn.bind_ok h
  have hsteps₁ : Steps false s (completeInner item.1 item.2 skipTags now s).2 := steps_completeInner s
  rw [h₁] at hsteps₁
  have hs₁ := completeInner_idle hschema.ids hs h₁
  obtain ⟨unblocked, s₂, h₂, h⟩ := Txn.bind_ok h
  cases h
  rw [resolveDependentsInner_apply (hschema.steps hsteps₁).ids] at h₂
  cases h₂
  exact release_idle hs₁ _

private theorem Store.Idle.mono {ids' : List Int} (h : s.Idle ids) (hsub : ∀ id ∈ ids', id ∈ ids) : s.Idle ids' :=
  fun r hr hid => h r hr (hsub _ hid)

private theorem completeEach_idle {skipTags : Bool} (items : List (TaskRecord × IoBudget)) {s : Store}
    {ids : List Int} {results : List (Int × Option (Int × Int) × List Int)} (hschema : s.Schema) (hs : s.Idle ids)
    (h : Txn.mapList (completeAndResolve skipTags now) items s = (.ok results, s')) :
    s'.Idle (items.map (·.1.id) ++ ids) := by
  induction items generalizing s ids results with
  | nil =>
    cases h
    exact hs
  | cons item items ih =>
    obtain ⟨result, s₁, h₁, h⟩ := Txn.bind_ok h
    obtain ⟨hschema₁, hs₁⟩ := completeAndResolve_idle hschema hs h₁
    obtain ⟨rest, s₂, h₂, h⟩ := Txn.bind_ok h
    cases h
    refine (ih hschema₁ hs₁ h₂).mono fun id hid => ?_
    simp only [List.map_cons, List.cons_append, List.mem_cons, List.mem_append] at hid ⊢
    tauto

private theorem foldl_resetRequeued_idle (todo : List Int) {s : Store} {ids : List Int} (hs : s.Idle ids) :
    (todo.foldl Store.resetRequeued s).Idle (todo ++ ids) := by
  induction todo generalizing s ids with
  | nil => exact hs
  | cons id todo ih =>
    refine (ih (resetRequeued_idle hs id)).mono fun x hx => ?_
    simp only [List.cons_append, List.mem_cons, List.mem_append] at hx ⊢
    tauto

private theorem completeBatchFast_idle {items : List (TaskRecord × IoBudget)} {skipTags : Bool} {unblocked : List Int}
    (hschema : s.Schema) (h : completeBatchFast skipTags now items s = (.ok unblocked, s')) :
    s'.Idle (items.map (·.1.id)) := by
  obtain ⟨_, s₁, h₁, h⟩ := Txn.bind_ok h
  obtain ⟨rows, htags, rfl⟩ := mapList_history (fun _ _ _ _ => insertHistory_leaves) h₁
  have hschema₁ : (s.logAll rows htags).Schema := hschema.stmt (b := false) (.history s _ _)
  generalize s.logAll rows htags = s₁ at hschema₁ h
  obtain ⟨deleted, s₂, h₂, h⟩ := Txn.bind_ok h
  obtain ⟨hdeleted, rfl⟩ := Prod.mk.inj h₂
  obtain rfl := Except.ok.inj hdeleted
  let ids := items.map (·.1.id)
  let p : TaskRow → Bool := fun r => ids.contains r.id && !r.requeue
  let deleted := (s₁.tasks.filter p).map (·.id)
  have hschema₂ := hschema₁.stmt (b := false) (.delete s₁ p)
  obtain ⟨_, s₃, h₃, h⟩ := Txn.bind_ok h
  obtain rfl := (Prod.mk.inj h₃).2
  have hs₂ : (s₁.deleteTasks p).Idle deleted := by
    intro r hr hmem
    obtain ⟨r₀, hr₀, hid⟩ := List.mem_map.1 hmem
    obtain ⟨hr₀, hp₀⟩ := List.mem_filter.1 hr₀
    obtain ⟨hr, hp⟩ := List.mem_filter.1 hr
    rw [hschema₁.eq_of_id hr₀ hr hid] at hp₀
    rw [hp₀] at hp
    cases hp
  -- a row of the batch that is still there is reset
  have hs₃ : ((ids.filter fun id => !deleted.contains id).foldl Store.resetRequeued (s₁.deleteTasks p)).Idle ids := by
    refine (foldl_resetRequeued_idle _ hs₂).mono fun id hid => ?_
    rw [List.mem_append, List.mem_filter]
    by_cases hdel : id ∈ deleted
    · exact .inr hdel
    · exact .inl ⟨hid, by simpa using hdel⟩
  have hschema₃ := hschema₂.steps (steps_foldl_resetRequeued (b := false)
    (ids.filter fun id => !deleted.contains id) _)
  obtain ⟨_, s₄, h₄, h⟩ := Txn.bind_ok h
  have hs₄ : s₄.Idle ids ∧ s₄.Schema := by
    obtain rfl := (Prod.mk.inj h₄).2
    split
    · exact ⟨hs₃, hschema₃⟩
    · exact ⟨Store.Rows.congr hs₃ rfl, hschema₃.stmt (b := false) (.tags _ _)⟩
  obtain ⟨dependents, s₅, h₅, h⟩ := Txn.bind_ok h
  obtain ⟨hd, rfl⟩ := Prod.mk.inj h₅
  obtain rfl := Except.ok.inj hd
  have htail := (releaseTail_apply hs₄.2.ids ids now).symm.trans h
  cases htail
  exact release_idle hs₄.1 _

/-- A batch of completions that is recorded leaves none of its rows running. -/
theorem completeBatchTx_idle {items : List (TaskRecord × IoBudget)}
    {results : List (Int × Option (Int × Int) × List Int)} (hschema : s.Schema)
    (h : completeBatchTx items now s = (.ok results, s')) : s'.Idle (items.map (·.1.id)) := by
  rw [completeBatchTx.eq_def] at h
  split at h
  · cases h
    exact .nil
  · rename_i task metrics
    obtain ⟨result, s₁, h₁, h⟩ := Txn.bind_ok h
    cases h
    exact (completeAndResolve_idle hschema .nil (transaction_ok h₁)).2
  · split at h
    · have hall := completeEach_idle items hschema .nil (transaction_ok h)
      rwa [List.append_nil] at hall
    · obtain ⟨unblocked, s₁, h₁, h⟩ := Txn.bind_ok h
      cases h
      exact completeBatchFast_idle hschema (transaction_ok h₁)

/-- A final failure that is recorded leaves no row. -/
theorem failWithRecordTx_idle {task : TaskRecord} {error : String} {retryable : Bool} {maxRetries : Int}
    {metrics : IoBudget} {backoff : FailBackoff} {u : Unit} (hretry : task.willRetry retryable maxRetries = false)
    (h : failWithRecordTx task error retryable maxRetries metrics backoff now s = (.ok u, s')) :
    s'.Idle [task.id] := by
  have hok := transaction_ok h
  rw [failInner, if_neg (by simp [hretry])] at hok
  obtain ⟨_, s₁, h₁, hok⟩ := Txn.bind_ok hok
  cases hok
  intro r hr hmem
  obtain ⟨_, hne⟩ := List.mem_filter.1 hr
  simp [List.mem_singleton.1 hmem] at hne

theorem failBatchTx_idle {items : List FailureItem} {u : Unit} (h : failBatchTx items now s = (.ok u, s')) :
    s'.Idle (items.map (·.task.id)) := by
  rw [failBatchTx.eq_def] at h
  split at h
  · exact .nil
  · rename_i item
    exact failWithRecordTx_idle (willRetry_zero _ _) h
  · obtain ⟨_, s₁, h₁, hok⟩ := Txn.bind_ok (transaction_ok h)
    obtain ⟨_, s₂, h₂, hok⟩ := Txn.bind_ok hok
    obtain rfl := (Prod.mk.inj h₂).2
    obtain rfl := (Prod.mk.inj hok).2
    have hgone : (s₁.deleteTasks fun r => (items.map (·.task.id)).contains r.id).Idle (items.map (·.task.id)) := by
      intro r hr hmem
      obtain ⟨_, hne⟩ := List.mem_filter.1 hr
      dsimp only at hne
      rw [List.contains_iff_mem.2 hmem] at hne
      cases hne
    dsimp only
    split
    · exact hgone
    · exact Store.Rows.congr hgone rfl

theorem cancelToHistoryWithRecordTx_idle {task : TaskRecord} {u : Unit}
    (h : cancelToHistoryWithRecordTx task now s = (.ok u, s')) : s'.Idle [task.id] := by
  obtain ⟨_, s₁, h₁, hok⟩ := Txn.bind_ok (transaction_ok h)
  cases hok
  intro r hr hmem
  obtain ⟨_, hne⟩ := List.mem_filter.1 hr
  simp [List.mem_singleton.1 hmem] at hne

end Idle

/-! ### No leaks -/

/-- The futures whose outcomes are in a channel or in a batch, with the ids of their tasks. -/
def Futures.messages (σ : Futures) : List (Nat × Int) :=
  (σ.completions ++ σ.completing.flatten).map (fun m => (m.1, m.2.1.id)) ++
    (σ.failures ++ σ.failing.flatten).map fun m => (m.1, m.2.task.id)

/-- The futures of a module that still count. -/
def Futures.counts (σ : Futures) (module : String) : Nat :=
  σ.futures.countP fun f => !f.decremented && moduleName f.task.taskType == some module

/-- A future that has come to its end has no entry and does not count any more; once its outcome has been recorded,
by a batch or by whoever has cancelled it, its row does not run. -/
structure Futures.NoLeak (σ : Futures) : Prop where
  entry : ∀ (n : Nat) (f : Future), σ.futures[n]? = some f → f.over = true → ∀ e ∈ σ.active, e.future ≠ n
  decremented : ∀ f ∈ σ.futures, f.over = true → f.decremented = true
  counter : ∀ (module : String) (n : Int), σ.moduleRunning.lookup module = some n → n = σ.counts module
  row : ∀ (n : Nat) (f : Future), σ.futures[n]? = some f → f.over = true → n ∉ σ.messages.map (·.1) →
    (∀ d ∈ σ.drained, d.entry.future ≠ n) → ∀ id, σ.store.running id = true → σ.owner id ≠ some n

/-- Nothing panics, and what should change the row of an execution does not fail. -/
def FutureStep.Clean (c : SpawnConfig) (σ : Futures) : FutureStep → Prop
  | .returns i outcome _ random => ∀ f, σ.futures[i]? = some f → f.stage = .executing →
    match outcome with
    | .ok _ => True
    | .err error => c.retriesInline f error random ≠ none
    | .panic => False
  | .setWaiting _ fault => fault = false
  | .handleFailure i fault random now =>
    fault = false ∧ ∀ f error metrics, σ.futures[i]? = some f → f.stage = .failing error metrics →
      if c.willRetry f.task error then c.retryDelay f.task error random ≠ none
      else f.task.parentId.isSome = true → ∀ backoff, ∃ s,
        failWithRecordTx f.task error.message error.retryable (c.effectiveMax f.task) metrics backoff now σ.store =
          (.ok (), s)
  | .completeBatch k fault now =>
    fault = false ∧ ∀ batch, σ.completing[k]? = some batch →
      ∃ results s, completeBatchTx (batch.map (·.2)) now σ.store = (.ok results, s)
  | .failBatch k fault now =>
    fault = false ∧ ∀ batch, σ.failing[k]? = some batch → ∃ s, failBatchTx (batch.map (·.2)) now σ.store = (.ok (), s)
  -- what a superseded task had in the map is not the entry of the execution that its row runs for
  | .cancelToken i => ∀ d ∈ σ.drained, d.entry.future = i → d.purpose = .supersede →
    σ.store.running d.entry.record.id = true → σ.owner d.entry.record.id ≠ some i
  | .settle i fault now =>
    fault = false ∧ ∀ d, σ.drained.find? (fun d => d.entry.future == i && d.cancelled) = some d →
      d.purpose = .cancel → ∃ s, cancelToHistoryWithRecordTx d.entry.record now σ.store = (.ok (), s)
  | _ => True

/-! ### The database -/

/-- At most one statement or transaction has been run. -/
def Futures.Wrote (sha256 : List UInt8 → String) (σ τ : Futures) : Prop :=
  (τ.store = σ.store ∧ τ.owner = σ.owner) ∨
    ∃ a : Action, τ.store = a.exec sha256 σ.store ∧ τ.owner = (σ.write (a.exec sha256 σ.store)).owner

section Wrote

variable {c : SpawnConfig} {sha256 : List UInt8 → String} {σ τ : Futures} {i : Nat}

theorem Futures.Wrote.schema (h : σ.Wrote sha256 τ) (hs : σ.store.Schema) : τ.store.Schema := by
  rcases h with ⟨hstore, _⟩ | ⟨a, hstore, _⟩
  · rw [hstore]
    exact hs
  · rw [hstore]
    exact hs.steps (a.steps sha256 σ.store)

/-- A row that runs for a future has done so before. -/
theorem Futures.Wrote.running (h : σ.Wrote sha256 τ) {id : Int} {n : Nat} (hr : τ.store.running id = true)
    (ho : τ.owner id = some n) : σ.store.running id = true ∧ σ.owner id = some n := by
  rcases h with ⟨hstore, howner⟩ | ⟨a, hstore, howner⟩
  · rw [← hstore, ← howner]
    exact ⟨hr, ho⟩
  · rw [hstore] at hr
    rw [howner] at ho
    simp only [Futures.write] at ho
    by_cases hold : σ.store.running id = true
    · rw [if_neg (by simp [hold])] at ho
      exact ⟨hold, ho⟩
    · rw [if_pos (by simp [hr, hold])] at ho
      cases ho

/-- `Wrote` is about the store and the owners only. -/
private theorem Futures.Wrote.congr {τ' : Futures} (h : σ.Wrote sha256 τ) (hs : τ'.store = τ.store)
    (ho : τ'.owner = τ.owner) :
    σ.Wrote sha256 τ' := by
  rw [Futures.Wrote, hs, ho]
  exact h

private theorem wrote_attempt (fault : Bool) (a : Action) :
    σ.Wrote sha256 (σ.attempt fault (a.exec sha256 σ.store)) := by
  cases fault with
  | true => exact .inl ⟨rfl, rfl⟩
  | false => exact .inr ⟨a, rfl, rfl⟩

private theorem wrote_step {next : Future → Futures} (h : ∀ f, σ.futures[i]? = some f → σ.Wrote sha256 (next f)) :
    σ.Wrote sha256 (σ.step i next) := by
  rw [Futures.step]
  split
  · exact .inl ⟨rfl, rfl⟩
  · rename_i f hf
    exact h f hf

theorem FutureStep.wrote_exec (c : SpawnConfig) (sha256 : List UInt8 → String) (σ : Futures) (st : FutureStep)
    (hst : st.isSpawn = false) : σ.Wrote sha256 (st.exec c sha256 σ) := by
  cases st with
  | spawn task phase => cases hst
  | store a => exact .inr ⟨a, rfl, rfl⟩
  | setHandle i =>
    refine wrote_step fun f _ => ?_
    split
    · exact .inl ⟨rfl, rfl⟩
    · exact .inl ⟨rfl, rfl⟩
  | progress i =>
    refine wrote_step fun f _ => ?_
    split
    · exact .inl ⟨rfl, rfl⟩
    · exact .inl ⟨rfl, rfl⟩
  | returns i outcome metrics random =>
    refine wrote_step fun f _ => ?_
    unfold execReturns
    split
    · split
      · exact .inl ⟨rfl, rfl⟩
      · exact .inl ⟨rfl, rfl⟩
    · split
      · exact .inl ⟨rfl, rfl⟩
      · split
        · exact .inl ⟨rfl, rfl⟩
        · exact .inl ⟨rfl, rfl⟩
        · exact .inl ⟨rfl, rfl⟩
    · exact .inl ⟨rfl, rfl⟩
    · exact .inl ⟨rfl, rfl⟩
  | countChildren i fault =>
    refine wrote_step fun f _ => ?_
    split
    · split
      · exact .inl ⟨rfl, rfl⟩
      · exact .inl ⟨rfl, rfl⟩
    · exact .inl ⟨rfl, rfl⟩
  | setWaiting i fault =>
    refine wrote_step fun f _ => ?_
    split
    · exact (wrote_attempt fault (.update (.setWaiting _ _))).congr rfl rfl
    · exact .inl ⟨rfl, rfl⟩
  | retryInline i fault =>
    refine wrote_step fun f _ => ?_
    unfold execRetry
    split
    · exact (wrote_attempt fault (.update (.incrementRetry _ _))).congr rfl rfl
    · exact .inl ⟨rfl, rfl⟩
  | handleFailure i fault random now =>
    refine wrote_step fun f _ => ?_
    unfold execFailure
    split
    · split
      · split
        · exact .inl ⟨rfl, rfl⟩
        · exact (wrote_attempt fault (.update (.requeueForRetry ..))).congr rfl rfl
      · split
        · exact (wrote_attempt fault (.failWithRecord ..)).congr rfl rfl
        · exact .inl ⟨rfl, rfl⟩
    · exact .inl ⟨rfl, rfl⟩
  | cleanUp i =>
    refine wrote_step fun f _ => ?_
    split
    · exact .inl ⟨rfl, rfl⟩
    · exact .inl ⟨rfl, rfl⟩
  | drainCompletions => exact .inl ⟨rfl, rfl⟩
  | completeBatch k fault now =>
    rw [exec]
    split
    · exact .inl ⟨rfl, rfl⟩
    · exact (wrote_attempt fault (.completeBatch ..)).congr rfl rfl
  | drainFailures => exact .inl ⟨rfl, rfl⟩
  | failBatch k fault now =>
    rw [exec]
    split
    · exact .inl ⟨rfl, rfl⟩
    · exact (wrote_attempt fault (.failBatch ..)).congr rfl rfl
  | drain p purpose => exact .inl ⟨rfl, rfl⟩
  | cancelToken i => exact .inl ⟨rfl, rfl⟩
  | settle i fault now =>
    rw [exec]
    split
    · exact .inl ⟨rfl, rfl⟩
    · rename_i d _
      have hcarry : σ.Wrote sha256 (σ.carryOut sha256 d fault now) := by
        rw [Futures.carryOut]
        split
        · exact .inl ⟨rfl, rfl⟩
        · exact wrote_attempt fault _
      exact hcarry.congr rfl rfl

end Wrote

/-! ### The slots -/

/-- The counters of the modules are right. -/
def Futures.Balanced (σ : Futures) : Prop :=
  ∀ (module : String) (n : Int), σ.moduleRunning.lookup module = some n → n = σ.counts module

/-- A future that comes to its end gives back its slot. -/
structure Futures.FreesSlots (σ τ : Futures) : Prop where
  closed : ∀ (n : Nat) (f f' : Future), σ.futures[n]? = some f → τ.futures[n]? = some f' → f.over = false →
    f'.over = true → f'.decremented = true ∧ ∀ e ∈ τ.active, e.record.id ≠ f.task.id
  balanced : σ.Balanced → τ.Balanced

section FreesSlots

variable {c : SpawnConfig} {sha256 : List UInt8 → String} {σ τ : Futures} {i : Nat} {f f' : Future}

theorem Futures.FreesSlots.of_same (hf : τ.futures = σ.futures) (hm : τ.moduleRunning = σ.moduleRunning) :
    σ.FreesSlots τ := by
  refine ⟨fun n g g' hg hg' hopen hover => ?_, fun h => ?_⟩
  · rw [hf, hg] at hg'
    cases hg'
    rw [hopen] at hover
    cases hover
  · rw [Futures.Balanced, hm]
    intro module n hn
    rw [Futures.counts, hf]
    exact h module n hn

private theorem counts_set (hf : σ.futures[i]? = some f) (hset : τ.futures = σ.futures.set i f')
    (hd : f'.decremented = f.decremented) (ht : f'.task.taskType = f.task.taskType) (module : String) :
    τ.counts module = σ.counts module := by
  obtain ⟨hi, hget⟩ := List.getElem?_eq_some_iff.1 hf
  have hsame : (!f'.decremented && moduleName f'.task.taskType == some module) =
      (!f.decremented && moduleName f.task.taskType == some module) := by rw [hd, ht]
  have hpos : (if (!f.decremented && moduleName f.task.taskType == some module) = true then 1 else 0) ≤
      σ.counts module := by
    have hle := List.boole_getElem_le_countP
      (p := fun f : Future => !f.decremented && moduleName f.task.taskType == some module) hi
    rw [hget] at hle
    exact hle
  rw [Futures.counts, hset, List.countP_set hi, hget, hsame]
  rw [Futures.counts] at hpos ⊢
  omega

/-- Future `i` goes on and is not over. -/
private theorem freesSlots_set (hf : σ.futures[i]? = some f) (hset : τ.futures = σ.futures.set i f')
    (hd : f'.decremented = f.decremented) (ht : f'.task.taskType = f.task.taskType) (hopen : f'.over = f.over)
    (hm : τ.moduleRunning = σ.moduleRunning) : σ.FreesSlots τ := by
  refine ⟨fun n g g' hg hg' hgopen hgover => ?_, fun h module n hn => ?_⟩
  · rw [hset, List.getElem?_set] at hg'
    split at hg'
    · rename_i hin
      subst hin
      split at hg'
      · cases hg'
        rw [hf] at hg
        cases hg
        rw [hopen, hgopen] at hgover
        cases hgover
      · cases hg'
    · rw [hg] at hg'
      cases hg'
      rw [hgopen] at hgover
      cases hgover
  · rw [hm] at hn
    rw [counts_set hf hset hd ht]
    exact h module n hn

theorem lookup_bumpModule (m : StringMap Int) (taskType : String) (d : Int) (module : String) :
    (bumpModule m taskType d).lookup module =
      (m.lookup module).map (· + if moduleName taskType = some module then d else 0) := by
  rw [bumpModule]
  split
  · rename_i hname
    rw [hname]
    simp
  · rename_i name hname
    rw [hname]
    split
    · rename_i hnone
      by_cases hm : name = module
      · rw [← hm, hnone]
        rfl
      · simp [hm]
    · rename_i n hn
      by_cases hm : name = module
      · subst hm
        rw [AList.lookup_insert, hn]
        simp
      · rw [AList.lookup_insert_ne (Ne.symm hm)]
        simp [hm]

/-- A future that leaves stops to count. -/
private theorem counts_leave (hf : σ.futures[i]? = some f) (hd : f.decremented = false) (module : String) :
    (((σ.leave i f).counts module : Nat) : Int) =
      σ.counts module + if moduleName f.task.taskType = some module then -1 else 0 := by
  obtain ⟨hi, hget⟩ := List.getElem?_eq_some_iff.1 hf
  have hle := List.boole_getElem_le_countP
    (p := fun f : Future => !f.decremented && moduleName f.task.taskType == some module) hi
  rw [hget] at hle
  rw [Futures.counts, Futures.leave, List.countP_set hi, hget]
  simp only [Futures.counts, hd, Bool.not_false, Bool.true_and, Bool.not_true, Bool.false_and, beq_iff_eq] at hle ⊢
  by_cases hm : moduleName f.task.taskType = some module
  · simp only [hm, if_true, Bool.false_eq_true, if_false] at hle ⊢
    omega
  · simp [hm]

private theorem balanced_leave (hf : σ.futures[i]? = some f) (h : σ.Balanced) : (σ.leave i f).Balanced := by
  intro module n hn
  cases hd : f.decremented with
  | true =>
    have hset : (σ.leave i f).futures = σ.futures.set i { f with decremented := true, stage := .ended } := rfl
    have hcounts : (σ.leave i f).counts module = σ.counts module := counts_set hf hset hd.symm rfl module
    rw [Futures.leave, hd] at hn
    rw [hcounts]
    exact h module n hn
  | false =>
    rw [Futures.leave, hd, if_neg (by decide), lookup_bumpModule, Option.map_eq_some_iff] at hn
    obtain ⟨k, hk, rfl⟩ := hn
    rw [counts_leave hf hd, h module k hk]

theorem Futures.FreesSlots.leave (hf : σ.futures[i]? = some f) : σ.FreesSlots (σ.leave i f) := by
  refine ⟨fun n g g' hg hg' hgopen hgover => ?_, balanced_leave hf⟩
  rw [Futures.leave, List.getElem?_set] at hg'
  split at hg'
  · rename_i hin
    subst hin
    split at hg'
    · cases hg'
      rw [hf] at hg
      cases hg
      refine ⟨rfl, fun e he heq => ?_⟩
      obtain ⟨_, hne⟩ := List.mem_filter.1 he
      simp [heq] at hne
    · cases hg'
  · rw [hg] at hg'
    cases hg'
    rw [hgopen] at hgover
    cases hgover

/-- `FreesSlots` is about the futures, the map and the counters only. -/
theorem Futures.FreesSlots.congr {τ' : Futures} (h : σ.FreesSlots τ) (hf : τ'.futures = τ.futures)
    (ha : τ'.active = τ.active) (hm : τ'.moduleRunning = τ.moduleRunning) : σ.FreesSlots τ' := by
  refine ⟨?_, fun hb => ?_⟩
  · rw [hf, ha]
    exact h.closed
  · rw [Futures.Balanced, hm]
    intro module n hn
    rw [Futures.counts, hf]
    exact h.balanced hb module n hn

theorem Futures.FreesSlots.leave_attempt (hf : σ.futures[i]? = some f) (fault : Bool) (s : Store) :
    σ.FreesSlots ((σ.attempt fault s).leave i f) := by
  cases fault with
  | true => exact .leave hf
  | false => exact (FreesSlots.leave hf).congr rfl rfl rfl

theorem Futures.FreesSlots.attempt (fault : Bool) (s : Store) : σ.FreesSlots (σ.attempt fault s) := by
  cases fault with
  | true => exact .of_same rfl rfl
  | false => exact .of_same rfl rfl

/-- The future goes on from one stage to another that is not its end. -/
theorem Futures.FreesSlots.enter (hf : σ.futures[i]? = some f) {before stage : Stage} (hstage : f.stage = before)
    (hover : ({ f with stage := before } : Future).over = false)
    (hover' : ({ f with stage := stage } : Future).over = false) :
    σ.FreesSlots (σ.enter i f stage) := by
  have hsame : ({ f with stage := stage } : Future).over = f.over := by
    rw [hover', Future.over_of_stage hstage, hover]
  exact freesSlots_set hf rfl rfl rfl hsame rfl

theorem Futures.step_freesSlots {next : Future → Futures} (h : ∀ f, σ.futures[i]? = some f → σ.FreesSlots (next f)) :
    σ.FreesSlots (σ.step i next) := by
  rw [step]
  split
  · exact .of_same rfl rfl
  · rename_i f hf
    exact h f hf

private theorem execReturns_freesSlots (hf : σ.futures[i]? = some f) {outcome : Outcome}
    {metrics : IoBudget} {random : Nat} (hclean : (FutureStep.returns i outcome metrics random).Clean c σ) :
    σ.FreesSlots (FutureStep.execReturns c σ i outcome metrics random f) := by
  unfold FutureStep.execReturns
  split
  · rename_i memo hstage
    split
    · exact .enter hf hstage rfl rfl
    · exact (Futures.FreesSlots.leave hf).congr rfl rfl rfl
  · rename_i error hstage
    split
    · exact .leave hf
    · split
      · rename_i hpanic
        exact absurd hpanic (hclean f hf hstage)
      · exact .enter hf hstage rfl rfl
      · exact .enter hf hstage rfl rfl
  · rename_i hstage
    exact absurd (hclean f hf hstage) id
  · exact .of_same rfl rfl

private theorem execFailure_freesSlots (hf : σ.futures[i]? = some f) {fault : Bool} {random : Nat} {now : Int}
    (hclean : (FutureStep.handleFailure i fault random now).Clean c σ) :
    σ.FreesSlots (FutureStep.execFailure c sha256 σ i fault random now f) := by
  unfold FutureStep.execFailure
  split
  · rename_i error metrics hstage
    have hc := hclean.2 f error metrics hf hstage
    split
    · rename_i hretry
      rw [if_pos hretry] at hc
      split
      · rename_i hpanic
        exact absurd hpanic hc
      · exact .leave_attempt hf fault _
    · split
      · exact .leave_attempt hf fault _
      · have hsent : σ.FreesSlots (σ.enter i f .sent) := .enter hf hstage rfl rfl
        exact hsent.congr rfl rfl rfl
  · exact .of_same rfl rfl

theorem FutureStep.freesSlots_exec (sha256 : List UInt8 → String) (st : FutureStep) (hst : st.isSpawn = false)
    (hclean : st.Clean c σ) : σ.FreesSlots (st.exec c sha256 σ) := by
  cases st with
  | spawn task phase => cases hst
  | store a => exact .of_same rfl rfl
  | setHandle i =>
    refine Futures.step_freesSlots fun f hf => ?_
    split
    · exact .of_same rfl rfl
    · exact freesSlots_set hf rfl rfl rfl rfl rfl
  | progress i =>
    refine Futures.step_freesSlots fun f hf => ?_
    split
    · exact .of_same rfl rfl
    · exact .of_same rfl rfl
  | returns i outcome metrics random => exact Futures.step_freesSlots fun f hf => execReturns_freesSlots hf hclean
  | countChildren i fault =>
    refine Futures.step_freesSlots fun f hf => ?_
    split
    · rename_i memo metrics hstage
      split
      · exact .enter hf hstage rfl rfl
      · exact (Futures.FreesSlots.leave hf).congr rfl rfl rfl
    · exact .of_same rfl rfl
  | setWaiting i fault =>
    refine Futures.step_freesSlots fun f hf => ?_
    split
    · exact .leave_attempt hf fault _
    · exact .of_same rfl rfl
  | retryInline i fault =>
    refine Futures.step_freesSlots fun f hf => ?_
    unfold execRetry
    split
    · rename_i error hstage
      have hover : f.over = false := Future.over_of_stage hstage
      refine freesSlots_set hf rfl rfl rfl ?_ ?_
      · rw [hover]
        rfl
      · cases fault with
        | true => rfl
        | false => rfl
    · exact .of_same rfl rfl
  | handleFailure i fault random now => exact Futures.step_freesSlots fun f hf => execFailure_freesSlots hf hclean
  | cleanUp i =>
    refine Futures.step_freesSlots fun f hf => ?_
    split
    · exact .leave hf
    · exact .of_same rfl rfl
  | drainCompletions => exact .of_same rfl rfl
  | completeBatch k fault now =>
    rw [exec]
    split
    · exact .of_same rfl rfl
    · exact (Futures.FreesSlots.attempt fault _).congr rfl rfl rfl
  | drainFailures => exact .of_same rfl rfl
  | failBatch k fault now =>
    rw [exec]
    split
    · exact .of_same rfl rfl
    · exact (Futures.FreesSlots.attempt fault _).congr rfl rfl rfl
  | drain p purpose => exact .of_same rfl rfl
  | cancelToken i => exact .of_same rfl rfl
  | settle i fault now =>
    rw [exec]
    split
    · exact .of_same rfl rfl
    · rename_i d _
      have hcarry : σ.FreesSlots (σ.carryOut sha256 d fault now) := by
        rw [Futures.carryOut]
        split
        · exact .of_same rfl rfl
        · exact .attempt fault _
      exact hcarry.congr rfl rfl rfl

end FreesSlots

end Taskmill
