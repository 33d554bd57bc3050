import Taskmill.Endings

/-!
# The bound on the history

`maybe_prune` runs on its own after the commit of a completion or a failure: it counts the call, and on every
`prune_interval`-th count it prunes the history.  `Pruning` is the store with the calls that have not counted yet
and the calls that have drawn a count on which they prune, so that the runs contain every interleaving of the calls
with the operations.

Each call stands for one history row only if the steps of the run are those of `Action.Counted`: a batch counts
once, and a cancellation, an expiry, a supersede and a dependency failure do not count.  In the runs of such steps,
with a limit that is not negative and a positive interval, the history has at most `n + prune_interval` rows
whenever no call is under way (`history_bounded`).
-/

namespace Taskmill

open Transact

/-! ### `maybe_prune`, statement by statement -/

/-- `auto_prune` -/
def Store.autoPrune (s : Store) (now : Int) : Store :=
  match s.retentionPolicy with
  | some (.maxCount n) => s.pruneHistoryByCount n
  | some (.maxAgeDays days) => s.pruneHistoryByAge days now
  | none => s

/-- The calls of `maybe_prune`: those that have not counted yet, and those that are about to prune. -/
structure Pruning where
  store : Store
  owed : Nat
  due : Nat
  panicked : Bool

/-- The operation has committed and calls `maybe_prune`. -/
def Action.callsPrune (s : Store) : Action → Bool
  | .complete id metrics now => (s.taskById id).isSome && (completeTx id metrics now s).1.toBool
  | .completeWithRecord task metrics now => (completeWithRecordTx task metrics now s).1.toBool
  | .completeBatch items now => !items.isEmpty && (completeBatchTx items now s).1.toBool
  | .fail id error retryable maxRetries metrics backoff now =>
    (s.taskById id).isSome && (failTx id error retryable maxRetries metrics backoff now s).1.toBool
  | .failWithRecord task error retryable maxRetries metrics backoff now =>
    (failWithRecordTx task error retryable maxRetries metrics backoff now s).1.toBool
  | .failBatch items now => !items.isEmpty && (failBatchTx items now s).1.toBool
  | _ => false

namespace Pruning

/-- The count of one call; `count % self.prune_interval` panics if the interval is zero. -/
def count (σ : Pruning) : Pruning :=
  match σ.store.retentionPolicy with
  | none => { σ with owed := σ.owed - 1 }
  | some _ =>
    let store := { σ.store with completionCount := σ.store.completionCount + 1 }
    if σ.store.pruneInterval = 0 then { σ with store := store, owed := σ.owed - 1, panicked := true }
    else if σ.store.completionCount % σ.store.pruneInterval ≠ 0 then { σ with store := store, owed := σ.owed - 1 }
    else { σ with store := store, owed := σ.owed - 1, due := σ.due + 1 }

inductive Event where
  | act (a : Action)
  | count
  | prune (now : Int)

def step (sha256 : List UInt8 → String) (σ : Pruning) : Event → Pruning
  | .act a =>
    { σ with store := a.exec sha256 σ.store, owed := σ.owed + if a.callsPrune σ.store then 1 else 0 }
  | .count => if σ.owed = 0 then σ else σ.count
  | .prune now => if σ.due = 0 then σ else { σ with store := σ.store.autoPrune now, due := σ.due - 1 }

/-- A new store with `RetentionPolicy::MaxCount(n)` and this `prune_interval`. -/
structure Start (n : Int) (interval : Nat) (σ : Pruning) : Prop where
  fresh : σ.store.Fresh
  retention : σ.store.retention = (some (.maxCount n), interval, 0)
  owed : σ.owed = 0
  due : σ.due = 0
  panicked : σ.panicked = false

/-- No call is under way. -/
def Quiescent (σ : Pruning) : Prop := σ.owed = 0 ∧ σ.due = 0

/-- A call that nothing comes between is `maybe_prune`. -/
theorem count_prune (sha256 : List UInt8 → String) (σ : Pruning) (now : Int) (howed : σ.owed ≠ 0) (hdue : σ.due = 0) :
    (σ.step sha256 .count).step sha256 (.prune now) =
      { σ with
        store := σ.store.maybePrune now
        owed := σ.owed - 1
        panicked := σ.panicked || σ.store.maybePrunePanics } := by
  obtain ⟨s, owed, due, panicked⟩ := σ
  obtain rfl : due = 0 := hdue
  have hcount : (⟨s, owed, 0, panicked⟩ : Pruning).step sha256 .count = (⟨s, owed, 0, panicked⟩ : Pruning).count :=
    if_neg howed
  rw [hcount, Pruning.count, Store.maybePrune, Store.maybePrunePanics]
  cases hpolicy : s.retentionPolicy with
  | none => simp [step]
  | some policy =>
    by_cases hi : s.pruneInterval = 0
    · simp [step, hi, hpolicy]
    · by_cases hc : s.completionCount % s.pruneInterval = 0
      · cases policy with
        | maxCount n => simp [step, hi, hc, Store.autoPrune, hpolicy]
        | maxAgeDays days => simp [step, hi, hc, Store.autoPrune, hpolicy]
      · simp [step, hi, hc, hpolicy]

end Pruning

/-- Every history row that the step writes is counted by a call of `maybe_prune`. -/
def Action.Counted (sha256 : List UInt8 → String) (s : Store) : Action → Prop
  | .submitDirect sub _ => sub.onDuplicate = .supersede → s.taskByKey (sub.effectiveKey sha256) = none
  | .processSubmitBatch skipRequeue batch =>
    Along (fun σ m => (submitOne sha256 m.1 skipRequeue m.2 σ).2)
      (fun σ m => m.1.onDuplicate = .supersede → σ.taskByKey (m.1.effectiveKey sha256) = none) s batch
  | .submitChunk skipRequeue last now chunk =>
    Along (fun σ item => (submitItem sha256 skipRequeue last now item σ).2)
      (fun σ item => item.2.onDuplicate = .supersede → σ.taskByKey (item.2.effectiveKey sha256) = none) s chunk
  -- a batch counts once
  | .completeBatch items _ => items.length ≤ 1
  | .failBatch items _ => items.length ≤ 1
  -- these do not count
  | .failDependents id _ => ∀ e ∈ s.taskDeps, e.2 = id → ∀ r ∈ s.tasks, r.id = e.1 → r.onDepFailure = .ignore
  | .cancelToHistory id _ => s.taskById id = none
  | .cancelToHistoryWithRecord .. => False
  | .cancelChildren _ read _ => read = []
  | .expireTasks now => s.expiredRows now = []
  | .expireSingle id now => ∀ r ∈ s.tasks, r.id = id → ¬ (r.past now && r.pendingOrPaused)
  -- the calls of `maybe_prune` are steps of their own
  | .maybePrune _ => False
  | _ => True

def Pruning.Event.Counted (sha256 : List UInt8 → String) (σ : Pruning) : Pruning.Event → Prop
  | .act a => a.Counted sha256 σ.store
  | _ => True

/-! ### What an operation adds to the history -/

/-- The rows of the history have ids of their own. -/
def Store.HistoryIds (s : Store) : Prop := (s.taskHistory.map (·.id)).Nodup

/-- At most `k` rows are added to the history, and `maybe_prune` is left alone. -/
structure Store.Records (k : Nat) (s s' : Store) : Prop where
  length : s'.taskHistory.length ≤ s.taskHistory.length + k
  ids : s.HistoryIds → s'.HistoryIds
  retention : s'.retention = s.retention

section Records

variable {s s' s'' : Store} {j k : Nat}

theorem Store.Records.same (hhist : s'.taskHistory = s.taskHistory) (hret : s'.retention = s.retention) :
    s.Records 0 s' := by
  refine ⟨?_, fun h => ?_, hret⟩
  · rw [hhist, Nat.add_zero]
  · rw [Store.HistoryIds, hhist]
    exact h

theorem Store.Records.refl (s : Store) : s.Records 0 s := .same rfl rfl

theorem Store.SameLives.records (h : s.SameLives s') : s.Records 0 s' := .same h.history h.retention

theorem Store.Records.trans (h : s.Records j s') (h' : s'.Records k s'') : s.Records (j + k) s'' := by
  refine ⟨?_, fun hids => h'.ids (h.ids hids), h'.retention.trans h.retention⟩
  have hfirst := h.length
  have hsecond := h'.length
  omega

theorem Store.Records.mono (h : s.Records j s') (hjk : j ≤ k) : s.Records k s' :=
  ⟨h.length.trans (Nat.add_le_add_left hjk _), h.ids, h.retention⟩

/-- Nothing is added to the history after what `h` says. -/
theorem Store.Records.then_same (h : s.Records k s') (h' : s'.Records 0 s'') : s.Records k s'' := h.trans h'

theorem Store.Records.filter {p : TaskHistoryRow → Bool} (hhist : s'.taskHistory = s.taskHistory.filter p)
    (hret : s'.retention = s.retention) : s.Records 0 s' := by
  refine ⟨?_, fun h => ?_, hret⟩
  · rw [hhist]
    exact List.length_filter_le _ _
  · rw [Store.HistoryIds, hhist]
    exact h.sublist ((List.filter_sublist).map _)

/-- One row, under an id that no row has. -/
theorem Store.Records.log {entry : TaskHistoryRow} (hid : entry.id = s.nextHistoryId)
    (hhist : s'.taskHistory = s.taskHistory ++ [entry]) (hret : s'.retention = s.retention) : s.Records 1 s' := by
  refine ⟨?_, fun h => ?_, hret⟩
  · rw [hhist, List.length_append, List.length_singleton]
  · rw [Store.HistoryIds, hhist, List.map_append, List.map_singleton, hid]
    refine List.Nodup.append h (List.nodup_singleton _) fun id hold hnew => ?_
    rw [List.mem_singleton.1 hnew] at hold
    exact nextRowid_not_mem _ hold

theorem insertHistory_records {task : TaskRecord} {status : HistoryStatus} {metrics : IoBudget}
    {durationMs : Option Int} {lastError : Option String} {skipTags : Bool} {now : Int}
    {result : Except StoreError Unit}
    (h : insertHistory task status metrics durationMs lastError skipTags now s = (result, s')) :
    s.Records 1 s' := by
  obtain ⟨tags, rfl⟩ := insertHistory_leaves h
  have hid : (historyRow s.nextHistoryId task status metrics durationMs lastError now).id = s.nextHistoryId := rfl
  exact .log hid rfl rfl

/-- A transaction that fails records nothing. -/
theorem records_transaction {α : Type} {x : Sql α} (hx : ∀ a s', x s = (.ok a, s') → s.Records k s') :
    s.Records (if (transaction x s).1.toBool then k else 0) (transaction x s).2 := by
  rcases h : transaction x s with ⟨e | a, s'⟩
  · obtain ⟨s₁, _, rfl⟩ := transaction_error h
    exact .same rfl rfl
  · exact hx a s' (transaction_ok h)

theorem records_transaction_same {α : Type} {x : Sql α} (hx : ∀ a s', x s = (.ok a, s') → s.Records 0 s') :
    s.Records 0 (transaction x s).2 := by
  have h := records_transaction hx
  rwa [ite_self] at h

end Records

/-! ### The operations -/

section Operations

variable {sha256 : List UInt8 → String} {s s' : Store} {task : TaskRecord} {metrics : IoBudget} {now : Int}

private theorem completeRow_retention (skipTags : Bool) (item : TaskRecord × IoBudget) :
    (s.completeRow skipTags now item).retention = s.retention := by
  rw [Store.completeRow, Store.finishRow]
  split
  · split
    · rfl
    · rfl
  · rfl

private theorem completeInner_records {skipTags : Bool} {result : Option (Int × Int)}
    (h : completeInner task metrics skipTags now s = (.ok result, s')) : s.Records 1 s' := by
  refine .log rfl (completeInner_history h) ?_
  rcases completeInner_cases h with rfl | ⟨interval, _, _, rfl⟩
  · exact completeRow_retention _ _
  · exact (pauseInstance_sameLives _ _ _ _).retention.trans (completeRow_retention _ _)

private theorem completeAndResolve_records {skipTags : Bool} {item : TaskRecord × IoBudget}
    {result : Int × Option (Int × Int) × List Int} (hs : s.Schema)
    (h : completeAndResolve skipTags now item s = (.ok result, s')) : s.Records 1 s' := by
  obtain ⟨recurring, s₁, h₁, h⟩ := Txn.bind_ok h
  have hsteps : Steps false s (completeInner item.1 item.2 skipTags now s).2 := steps_completeInner s
  rw [h₁] at hsteps
  obtain ⟨unblocked, s₂, h₂, h⟩ := Txn.bind_ok h
  rw [resolveDependentsInner_apply (hs.steps hsteps).ids] at h₂
  cases h₂
  cases h
  exact (completeInner_records h₁).then_same (release_sameLives s₁ _ now).records

private theorem failInner_records {error : String} {retryable : Bool} {maxRetries : Int}
    {backoff : FailBackoff} {u : Unit}
    (h : failInner task error retryable maxRetries metrics backoff now s = (.ok u, s')) : s.Records 1 s' := by
  rw [failInner] at h
  split at h
  · cases h
    have hretry : s.Records 0 (s.requeueForRetry task.id error (backoff.delay task.retryCount) now) := .same rfl rfl
    exact hretry.mono (Nat.zero_le 1)
  · obtain ⟨_, s₁, h₁, h⟩ := Txn.bind_ok h
    cases h
    exact (insertHistory_records h₁).then_same (.same rfl rfl)

/-- A submission records nothing but the task that it supersedes. -/
private theorem submitOne_records {sub : TaskSubmission} (skipRequeue : Bool)
    (hdup : sub.onDuplicate = .supersede → s.taskByKey (sub.effectiveKey sha256) = none) :
    s.Records 0 (submitOne sha256 sub skipRequeue now s).2 := by
  cases hv : sub.validate with
  | error e =>
    rw [submitOne_invalid hv]
    exact .refl s
  | ok u =>
    cases hk : s.taskByKey (sub.effectiveKey sha256) with
    | none =>
      rw [submitOne_fresh hv hk]
      have hadd : s.Records 0 (s.addTask (sub.newRow (sub.effectiveKey sha256) now)) := .same rfl rfl
      exact hadd.then_same (finishInsert_sameLives _ _).records
    | some row =>
      rw [submitOne_duplicate hv hk]
      cases hpolicy : sub.onDuplicate with
      | reject => exact .refl s
      | skip => exact (skipExisting_sameLives _ _ skipRequeue s).records
      | supersede =>
        rw [hdup hpolicy] at hk
        cases hk

private theorem submitEach_records {skipRequeue : Bool} (batch : List (TaskSubmission × Int)) {s : Store}
    (ha : Along (fun σ m => (submitOne sha256 m.1 skipRequeue m.2 σ).2)
      (fun σ m => m.1.onDuplicate = .supersede → σ.taskByKey (m.1.effectiveKey sha256) = none) s batch) :
    s.Records 0 (submitEach sha256 skipRequeue batch s).2 := by
  induction batch generalizing s with
  | nil => exact .refl s
  | cons m batch ih => exact (submitOne_records skipRequeue ha.1).then_same (ih ha.2)

private theorem submitItem_records {skipRequeue : Bool} {last : Nat → String → Bool} {item : Nat × TaskSubmission}
    (hdup : item.2.onDuplicate = .supersede → s.taskByKey (item.2.effectiveKey sha256) = none) :
    s.Records 0 (submitItem sha256 skipRequeue last now item s).2 := by
  rw [submitItem]
  split
  · exact submitOne_records skipRequeue hdup
  · exact .refl s

private theorem submitChunk_records {skipRequeue : Bool} {last : Nat → String → Bool}
    (chunk : List (Nat × TaskSubmission)) {s : Store} {results : List SubmitOutcome}
    (ha : Along (fun σ item => (submitItem sha256 skipRequeue last now item σ).2)
      (fun σ item => item.2.onDuplicate = .supersede → σ.taskByKey (item.2.effectiveKey sha256) = none) s chunk)
    (h : Txn.mapList (submitItem sha256 skipRequeue last now) chunk s = (.ok results, s')) : s.Records 0 s' := by
  induction chunk generalizing s results with
  | nil =>
    cases h
    exact .refl _
  | cons item chunk ih =>
    obtain ⟨result, s₁, h₁, h⟩ := Txn.bind_ok h
    obtain ⟨rest, s₂, h₂, h⟩ := Txn.bind_ok h
    cases h
    have hitem : s.Records 0 (submitItem sha256 skipRequeue last now item s).2 := submitItem_records ha.1
    have hnext : (submitItem sha256 skipRequeue last now item s).2 = s₁ := by rw [h₁]
    have hrest := ha.2
    dsimp only at hrest
    rw [hnext] at hitem hrest
    exact hitem.then_same (ih hrest h₂)

/-- What the loop over dependents with the policy `ignore` keeps. -/
private structure Store.Releases (s₀ : Store) (dependents : List Int) (s : Store) : Prop where
  records : s₀.Records 0 s
  ignored : ∀ id ∈ dependents, ∀ r ∈ s.tasks, r.id = id → r.onDepFailure = .ignore

/-- A release leaves the policies alone. -/
private theorem releaseDependent_policies {id : Int} {ids : List Int} {dependents : List Int}
    (hpolicy : ∀ id ∈ dependents, ∀ r ∈ s.tasks, r.id = id → r.onDepFailure = .ignore)
    (h : releaseDependent id now s = (.ok ids, s')) :
    ∀ id ∈ dependents, ∀ r ∈ s'.tasks, r.id = id → r.onDepFailure = .ignore := by
  have hupdate : ∀ (t : Store) (p : TaskRow → Bool) (f : TaskRow → TaskRow),
      (∀ r, (f r).id = r.id ∧ (f r).onDepFailure = r.onDepFailure) →
      (∀ id ∈ dependents, ∀ r ∈ t.tasks, r.id = id → r.onDepFailure = .ignore) →
      ∀ id ∈ dependents, ∀ r ∈ (t.updateTasks p f).tasks, r.id = id → r.onDepFailure = .ignore := by
    intro t p f hf ht id hid r hr hrid
    rw [Store.updateTasks_tasks] at hr
    obtain ⟨r₀, hr₀, rfl⟩ := List.mem_map.1 hr
    have hsame : (if p r₀ then f r₀ else r₀).id = r₀.id ∧
        (if p r₀ then f r₀ else r₀).onDepFailure = r₀.onDepFailure := by
      split
      · exact hf r₀
      · exact ⟨rfl, rfl⟩
    rw [hsame.2]
    exact ht id hid r₀ hr₀ (hsame.1.symm.trans hrid)
  rw [releaseDependent] at h
  split at h
  · cases h
    exact hpolicy
  · split at h
    · cases h
      exact hupdate _ _ _ (fun _ => ⟨rfl, rfl⟩) (hupdate _ _ _ (fun _ => ⟨rfl, rfl⟩) hpolicy)
    · cases h
      exact hpolicy

/-- If all dependents ignore the failure, none of them is moved to the history. -/
private theorem failDependentsInner_records {fuel : Nat} {id : Int} {result : List Int × List Int}
    (hignore : ∀ e ∈ s.taskDeps, e.2 = id → ∀ r ∈ s.tasks, r.id = e.1 → r.onDepFailure = .ignore)
    (h : failDependentsInner now fuel id s = (.ok result, s')) : s.Records 0 s' := by
  cases fuel with
  | zero =>
    cases h
    exact .refl _
  | succ fuel =>
    obtain ⟨dependents, s₁, h₁, h⟩ := Txn.bind_ok h
    obtain ⟨results, s₂, h₂, h⟩ := Txn.bind_ok h
    cases h
    have hsame : s.SameLives s₁ := (deleteEdgesTo_sameLives h₁).1
    have hone (depId : Int) (hdep : depId ∈ dependents) : Txn.Ensures (s.Releases dependents)
        (failDependent (failDependentsInner now fuel) id depId now) fun _ => s.Releases dependents := by
      intro t ht result t' hround
      obtain ⟨row, t₁, hread, hround⟩ := Txn.bind_ok hround
      cases hread
      cases hrow : t.taskById depId with
      | none =>
        simp only [hrow] at hround
        cases hround
        exact ht
      | some r =>
        have hr : r ∈ t.tasks := List.mem_of_find?_eq_some hrow
        have hrid : r.id = depId := by simpa using List.find?_some hrow
        simp only [hrow, ht.ignored depId hdep r hr hrid] at hround
        obtain ⟨unblocked, t₂, hrelease, hround⟩ := Txn.bind_ok hround
        cases hround
        exact ⟨ht.records.then_same (releaseDependent_sameLives hrelease).records,
          releaseDependent_policies ht.ignored hrelease⟩
    have hstart : s.Releases dependents s₁ := by
      refine ⟨hsame.records, fun depId hdep r hr hrid => ?_⟩
      cases h₁
      obtain ⟨e, he, rfl⟩ := List.mem_map.1 hdep
      obtain ⟨hedge, hto⟩ := List.mem_filter.1 he
      exact hignore e hedge (by simpa using hto) r hr hrid
    exact (Txn.Ensures.mapList hone s₁ hstart results _ h₂).records

/-- A batch of one task. -/
private theorem completeBatchTx_records (hs : s.Schema) (items : List (TaskRecord × IoBudget))
    (hone : items.length ≤ 1) :
    s.Records (if !items.isEmpty && (completeBatchTx items now s).1.toBool then 1 else 0)
    (completeBatchTx items now s).2 := by
  rcases items with _ | ⟨⟨task, metrics⟩, _ | ⟨second, rest⟩⟩
  · exact .refl s
  · have hstate : (completeBatchTx [(task, metrics)] now s).2 = (completeAndResolveTx task metrics now s).2 :=
      Txn.bind_pure_state _ _ s
    have hresult : (completeBatchTx [(task, metrics)] now s).1.toBool =
        (completeAndResolveTx task metrics now s).1.toBool := by
      rcases h : completeAndResolveTx task metrics now s with ⟨e | a, s'⟩
      · rw [completeBatchTx, Txn.bind_of_error h]
        rfl
      · rw [completeBatchTx, Txn.bind_of_ok h]
        rfl
    rw [hstate, hresult]
    exact records_transaction fun result s' h => completeAndResolve_records hs h
  · rw [List.length_cons, List.length_cons] at hone
    omega

private theorem failBatchTx_records (items : List FailureItem) (hone : items.length ≤ 1) :
    s.Records (if !items.isEmpty && (failBatchTx items now s).1.toBool then 1 else 0)
    (failBatchTx items now s).2 := by
  rcases items with _ | ⟨item, _ | ⟨second, rest⟩⟩
  · exact .refl s
  · exact records_transaction fun u s' h => failInner_records h
  · rw [List.length_cons, List.length_cons] at hone
    omega

/-- A step adds one row if its operation calls `maybe_prune`, and none otherwise. -/
theorem Action.records_exec (hs : s.Schema) {a : Action} (ha : a.Counted sha256 s) :
    s.Records (if a.callsPrune s then 1 else 0) (a.exec sha256 s) := by
  cases a with
  | submitDirect sub now =>
    refine records_transaction_same fun outcome s' h => ?_
    have hone : s.Records 0 (submitOne sha256 sub (!s.hasRunning) now s).2 := submitOne_records _ ha
    rwa [h] at hone
  | processSubmitBatch skipRequeue batch => exact submitEach_records batch ha
  | submitChunk skipRequeue last now chunk =>
    exact records_transaction_same fun results s' h => submitChunk_records chunk ha h
  | complete id metrics now =>
    cases hrow : s.taskById id with
    | none =>
      rw [Action.callsPrune, hrow]
      refine records_transaction_same fun u s' h => ?_
      simp only [hrow] at h
      cases h
      exact .refl _
    | some row =>
      rw [Action.callsPrune, hrow]
      refine records_transaction fun u s' h => ?_
      simp only [hrow] at h
      obtain ⟨result, s₁, h₁, h⟩ := Txn.bind_ok h
      cases h
      exact completeInner_records h₁
  | completeWithRecord task metrics now => exact records_transaction fun result s' h => completeInner_records h
  | completeBatch items now => exact completeBatchTx_records hs items ha
  | fail id error retryable maxRetries metrics backoff now =>
    cases hrow : s.taskById id with
    | none =>
      rw [Action.callsPrune, hrow]
      refine records_transaction_same fun u s' h => ?_
      simp only [hrow] at h
      cases h
      exact .refl _
    | some row =>
      rw [Action.callsPrune, hrow]
      refine records_transaction fun u s' h => ?_
      simp only [hrow] at h
      exact failInner_records h
  | failWithRecord task error retryable maxRetries metrics backoff now =>
    exact records_transaction fun u s' h => failInner_records h
  | failBatch items now => exact failBatchTx_records items ha
  | failDependents id now =>
    exact records_transaction_same fun result s' h => failDependentsInner_records ha h
  | cancelToHistory id now =>
    refine records_transaction_same fun found s' h => ?_
    have hnone : s.taskById id = none := ha
    simp only [hnone] at h
    cases h
    exact .refl _
  | cancelToHistoryWithRecord task now => exact absurd ha not_false
  | cancelChildren parent read now =>
    obtain rfl : read = [] := ha
    exact .refl s
  | expireTasks now =>
    refine records_transaction_same fun expired s' h => ?_
    have hnone : s.expiredRows now = [] := ha
    obtain ⟨rows, s₁, h₁, h⟩ := Txn.bind_ok h
    cases h₁
    obtain ⟨moved, s₂, h₂, h⟩ := Txn.bind_ok h
    have hsweep : Txn.mapList (expireWithChildren now) (s.expiredRows now) s = (.ok moved, s₂) := h₂
    rw [hnone] at hsweep
    cases hsweep
    cases h
    exact .refl _
  | expireSingle id now =>
    refine records_transaction_same fun expired s' h => ?_
    have hnone : (s.tasks.find? fun r => r.id == id && r.past now && r.pendingOrPaused) = none := by
      refine List.find?_eq_none.2 fun r hr hsel => ?_
      simp only [Bool.and_eq_true, beq_iff_eq] at hsel
      exact ha r hr hsel.1.1 (by simp [hsel.1.2, hsel.2])
    simp only [hnone] at h
    cases h
    exact .refl _
  | delete id => exact .same rfl rfl
  | deleteHistory historyId => exact .filter rfl rfl
  | pruneHistoryByAge days now => exact .filter rfl rfl
  | pruneHistoryByCount keep => exact .filter rfl rfl
  | maybePrune now => exact absurd ha not_false
  | _ => exact (Action.sameLives_exec sha256 hs rfl).records

/-- A limit that is not negative is kept. -/
theorem Store.length_pruneHistoryByCount (hids : s.HistoryIds) {n : Int} (hn : 0 ≤ n) :
    ((s.pruneHistoryByCount n).taskHistory.length : Int) ≤ n := by
  let latest := s.taskHistory.insertionSort fun a b => b.completedAt ≤ a.completedAt
  have hkept : (s.pruneHistoryByCount n).taskHistory =
      s.taskHistory.filter fun h => ((latest.take n.toNat).map (·.id)).contains h.id := by
    rw [Store.pruneHistoryByCount, if_neg (by omega)]
  have hnodup : ((s.pruneHistoryByCount n).taskHistory.map (·.id)).Nodup := by
    rw [hkept]
    exact hids.sublist ((List.filter_sublist).map _)
  have hsub : (s.pruneHistoryByCount n).taskHistory.map (·.id) ⊆ (latest.take n.toNat).map (·.id) := by
    intro id hid
    obtain ⟨h, hh, rfl⟩ := List.mem_map.1 hid
    rw [hkept] at hh
    exact List.contains_iff_mem.1 (List.mem_filter.1 hh).2
  have hlength := (hnodup.subperm hsub).length_le
  rw [List.length_map, List.length_map, List.length_take] at hlength
  omega

end Operations

/-! ### Whole runs -/

section Runs

variable {sha256 : List UInt8 → String} {n : Int} {interval : Nat} {σ : Pruning}

/-- What holds along the runs: a prune is about to happen, or the rows above the limit are the ones that have not
counted yet and those counted since the last prune. -/
private structure Pruning.Bounded (n : Int) (interval : Nat) (σ : Pruning) : Prop where
  schema : σ.store.Schema
  ids : σ.store.HistoryIds
  policy : σ.store.retentionPolicy = some (.maxCount n)
  every : σ.store.pruneInterval = interval
  rows : σ.due = 0 →
    (σ.store.taskHistory.length : Int) ≤ n + σ.owed + ((σ.store.completionCount - 1) % interval : Nat)
  panicked : σ.panicked = false

private theorem Pruning.Start.bounded (hn : 0 ≤ n) (h : σ.Start n interval) : σ.Bounded n interval := by
  have hret := h.retention
  rw [Store.retention, Prod.mk.injEq, Prod.mk.injEq] at hret
  refine ⟨h.fresh.schema, ?_, hret.1, hret.2.1, fun _ => ?_, h.panicked⟩
  · rw [Store.HistoryIds, h.fresh.taskHistory]
    exact List.nodup_nil
  · rw [h.fresh.taskHistory, List.length_nil]
    omega

private theorem Pruning.Bounded.act (h : σ.Bounded n interval) {a : Action} (ha : a.Counted sha256 σ.store) :
    (σ.step sha256 (.act a)).Bounded n interval := by
  have hrecords := a.records_exec h.schema ha
  have hret := hrecords.retention
  rw [Store.retention, Store.retention, Prod.mk.injEq, Prod.mk.injEq] at hret
  obtain ⟨hpolicy, hevery, hcount⟩ := hret
  refine ⟨h.schema.steps (a.steps sha256 σ.store), hrecords.ids h.ids, hpolicy.trans h.policy, hevery.trans h.every,
    fun hdue => ?_, h.panicked⟩
  have hlength := hrecords.length
  have hrows := h.rows hdue
  show ((a.exec sha256 σ.store).taskHistory.length : Int) ≤
    n + (σ.owed + if a.callsPrune σ.store then 1 else 0 : Nat) +
      (((a.exec sha256 σ.store).completionCount - 1) % interval : Nat)
  rw [hcount]
  generalize (if a.callsPrune σ.store then 1 else 0 : Nat) = due at hlength ⊢
  generalize (σ.store.completionCount - 1) % interval = rest at hrows ⊢
  omega

/-- The remainder grows by one with each count, until it is zero again. -/
private theorem pred_mod_add_one {c i : Nat} (hi : 0 < i) (hc : c % i ≠ 0) : (c - 1) % i + 1 = c % i := by
  have hdiv := Nat.div_add_mod c i
  have hlt := Nat.mod_lt c hi
  have hpred : c - 1 = i * (c / i) + (c % i - 1) := by omega
  rw [hpred, Nat.mul_add_mod, Nat.mod_eq_of_lt (by omega)]
  omega

private theorem Pruning.Bounded.count (hi : 0 < interval) (h : σ.Bounded n interval) (_howed : σ.owed ≠ 0) :
    σ.count.Bounded n interval := by
  have hne : ¬ σ.store.pruneInterval = 0 := by
    rw [h.every]
    omega
  rw [Pruning.count, h.policy]
  dsimp only
  rw [if_neg hne]
  have hschema : { σ.store with completionCount := σ.store.completionCount + 1 }.Schema :=
    h.schema.stmt (b := false) (.settings σ.store _ _ _ _)
  split
  · rename_i hmod
    rw [h.every] at hmod
    refine ⟨hschema, h.ids, h.policy, h.every, fun hdue => ?_, h.panicked⟩
    have hrows := h.rows hdue
    have hgrows := pred_mod_add_one hi hmod
    show (σ.store.taskHistory.length : Int) ≤
      n + (σ.owed - 1 : Nat) + ((σ.store.completionCount + 1 - 1) % interval : Nat)
    rw [Nat.add_sub_cancel]
    omega
  · exact ⟨hschema, h.ids, h.policy, h.every, fun hdue => absurd hdue (Nat.succ_ne_zero _), h.panicked⟩

private theorem Pruning.Bounded.prune (hn : 0 ≤ n) (h : σ.Bounded n interval) (now : Int) :
    ({ σ with store := σ.store.autoPrune now, due := σ.due - 1 } : Pruning).Bounded n interval := by
  have hprune : σ.store.autoPrune now = σ.store.pruneHistoryByCount n := by rw [Store.autoPrune, h.policy]
  rw [hprune]
  have hrecords : σ.store.Records 0 (σ.store.pruneHistoryByCount n) := .filter rfl rfl
  have hlength := Store.length_pruneHistoryByCount h.ids hn
  refine ⟨h.schema.stmt (b := false) (.history _ _ _), hrecords.ids h.ids, h.policy, h.every, fun _ => ?_, h.panicked⟩
  show ((σ.store.pruneHistoryByCount n).taskHistory.length : Int) ≤
    n + σ.owed + ((σ.store.completionCount - 1) % interval : Nat)
  omega

private theorem Pruning.Bounded.step (hn : 0 ≤ n) (hi : 0 < interval) (h : σ.Bounded n interval) {e : Pruning.Event}
    (he : e.Counted sha256 σ) : (σ.step sha256 e).Bounded n interval := by
  cases e with
  | act a => exact h.act he
  | count =>
    rw [Pruning.step]
    split
    · exact h
    · exact h.count hi ‹_›
  | prune now =>
    rw [Pruning.step]
    split
    · exact h
    · exact h.prune hn now

end Runs

/-- In every run whose history rows are each counted by a call of `maybe_prune`, with a limit that is not negative
and a positive interval, no call panics and the history is bounded whenever none is under way. -/
theorem history_bounded (sha256 : List UInt8 → String) (n : Int) (interval : Nat) (hn : 0 ≤ n)
    (hi : 0 < interval) (σ : Pruning)
    (h : Runs (Pruning.Start n interval) (Pruning.step sha256) (fun σ e => e.Counted sha256 σ) σ) :
    σ.panicked = false ∧ (σ.Quiescent → (σ.store.taskHistory.length : Int) ≤ n + interval) := by
  have hbounded : σ.Bounded n interval := h.invariant (fun σ hσ => hσ.bounded hn) fun σ e hσ he => hσ.step hn hi he
  refine ⟨hbounded.panicked, fun hquiet => ?_⟩
  have hrows := hbounded.rows hquiet.2
  have hlt := Nat.mod_lt (σ.store.completionCount - 1) hi
  rw [hquiet.1] at hrows
  omega

/-- A new store that keeps one history row and prunes on every count. -/
private def keepOne : Pruning :=
  ⟨{ openMemory with retentionPolicy := some (.maxCount 1), pruneInterval := 1 }, 0, 0, false⟩

private theorem keepOne_start : Pruning.Start 1 1 keepOne := ⟨⟨rfl, rfl, rfl, rfl, rfl, rfl, rfl⟩, rfl, rfl, rfl, rfl⟩

private def keepOneRun (events : List Pruning.Event) : Pruning := events.foldl (Pruning.step sampleSha256) keepOne

/-- A task completes, and its completion is counted and prunes. -/
private def completedOnce : Pruning :=
  keepOneRun [.act (.submitDirect (TaskSubmission.new "a") 0), .act (.claimTask 1 0),
    .act (.completeWithRecord dispatchedA {} 5), .count, .prune 5]

theorem completed_once_bounded : completedOnce.Quiescent ∧ completedOnce.store.taskHistory.length = 1 ∧
    (completedOnce.panicked = false ∧
      (completedOnce.Quiescent → (completedOnce.store.taskHistory.length : Int) ≤ (1 : Int) + (1 : Nat))) := by
  have hquiet : completedOnce.Quiescent := ⟨by decide +kernel, by decide +kernel⟩
  have hrun : Runs (Pruning.Start 1 1) (Pruning.step sampleSha256) (fun σ e => e.Counted sampleSha256 σ)
      completedOnce :=
    Runs.list (.start keepOne_start) _ ⟨nofun, trivial, trivial, trivial, trivial, trivial⟩
  exact ⟨hquiet, by decide +kernel, history_bounded sampleSha256 1 1 (by decide) (by decide) completedOnce hrun⟩

/-- Three tasks are cancelled, none of which counts. -/
private def cancelledThrice : Pruning :=
  keepOneRun [.act (.submitDirect (TaskSubmission.new "a") 0), .act (.cancelToHistory 1 1),
    .act (.submitDirect (TaskSubmission.new "a") 2), .act (.cancelToHistory 1 3),
    .act (.submitDirect (TaskSubmission.new "a") 4), .act (.cancelToHistory 1 5)]

theorem cancellations_uncounted :
    ¬ ∀ (n : Int) (interval : Nat) (σ : Pruning),
      Runs (Pruning.Start n interval) (Pruning.step sampleSha256) (fun _ _ => True) σ →
        σ.panicked = false ∧ (σ.Quiescent → (σ.store.taskHistory.length : Int) ≤ n + interval) := by
  intro h
  have hrun : Runs (Pruning.Start 1 1) (Pruning.step sampleSha256) (fun _ _ => True) cancelledThrice :=
    Runs.list (.start keepOne_start) _ (Along.of_forall fun _ _ => trivial)
  have hbound := (h 1 1 cancelledThrice hrun).2 ⟨by decide +kernel, by decide +kernel⟩
  have hlength : cancelledThrice.store.taskHistory.length = 3 := by decide +kernel
  rw [hlength] at hbound
  omega

end Taskmill
