import Taskmill.Rows

/-!
# What is written to the history

Every history row is written by `insert_history`, for a record and with a status that the operation determines.
`Action.Writes` says for every step of the store which rows it may write, and `Action.logs_exec` that it writes no
others.
-/

namespace Taskmill

open Transact

/-- The history rows of `s'` that were not there in `s` have `Q`. -/
def Store.Logs (Q : TaskHistoryRow → Prop) (s s' : Store) : Prop := ∀ h ∈ s'.taskHistory, h ∈ s.taskHistory ∨ Q h

/-- The row has been written for this record, with this status. -/
structure TaskHistoryRow.Of (h : TaskHistoryRow) (task : TaskRecord) (st : HistoryStatus) : Prop where
  inst : h.inst = task.inst
  status : h.status = st
  retryCount : h.retryCount = if st.incrementsRetries then task.retryCount + 1 else task.retryCount

theorem historyRow_of (id : Int) (task : TaskRecord) (status : HistoryStatus) (metrics : IoBudget)
    (durationMs : Option Int) (lastError : Option String) (now : Int) :
    (historyRow id task status metrics durationMs lastError now).Of task status := ⟨rfl, rfl, rfl⟩

/-- The history row has the life and the columns of the row. -/
structure TaskHistoryRow.Copies (h : TaskHistoryRow) (r : TaskRow) : Prop where
  inst : h.inst = r.inst
  taskType : h.taskType = r.taskType
  key : h.key = r.key
  label : h.label = r.label
  payload : h.payload = r.payload
  groupKey : h.groupKey = r.groupKey
  maxRetries : h.maxRetries = r.maxRetries

theorem historyRow_copies (id : Int) (task : TaskRecord) (status : HistoryStatus) (metrics : IoBudget)
    (durationMs : Option Int) (lastError : Option String) (now : Int) :
    (historyRow id task status metrics durationMs lastError now).Copies task.toTaskRow :=
  ⟨rfl, rfl, rfl, rfl, rfl, rfl, rfl⟩

/-- The statuses of tasks that others have taken out of the queue. -/
def HistoryStatus.withdrawn : HistoryStatus → Bool
  | .cancelled | .superseded | .dependencyFailed => true
  | .completed | .failed | .deadLetter | .expired => false

/-- The rows that a step may write to the history. -/
def Action.Writes (s : Store) (a : Action) (h : TaskHistoryRow) : Prop :=
  match a with
  | .complete id .. => ∃ r ∈ s.tasks, r.id = id ∧ h.Of (rowToTaskRecord r) .completed
  | .completeWithRecord task .. => h.Of task .completed
  | .completeBatch items _ => ∃ item ∈ items, h.Of item.1 .completed
  | .fail id _ retryable .. => ∃ r ∈ s.tasks, r.id = id ∧ h.Of (rowToTaskRecord r) (terminalStatus retryable)
  | .failWithRecord task _ retryable .. => h.Of task (terminalStatus retryable)
  | .failBatch items _ => ∃ item ∈ items, h.Of item.task (terminalStatus item.retryable)
  | .expireTasks _ | .expireSingle .. => ∃ r ∈ s.tasks, r.status ≠ .running ∧ h.Of (rowToTaskRecord r) .expired
  | _ => h.status.withdrawn = true

/-! ### Rules -/

section Rules

variable {α β : Type} {Q : TaskHistoryRow → Prop} {s s' s'' : Store}

theorem Store.Logs.of_eq (h : s'.taskHistory = s.taskHistory) : s.Logs Q s' := by
  intro row hrow
  rw [h] at hrow
  exact .inl hrow

theorem Store.Logs.trans (h : s.Logs Q s') (h' : s'.Logs Q s'') : s.Logs Q s'' := by
  intro row hrow
  rcases h' row hrow with hrow | hQ
  · exact h row hrow
  · exact .inr hQ

theorem Store.Logs.mono {Q' : TaskHistoryRow → Prop} (h : s.Logs Q s') (hQ : ∀ row, Q row → Q' row) : s.Logs Q' s' :=
  fun row hrow => (h row hrow).imp_right (hQ row)

theorem logs_pure {a : α} : Txn.Always (Store.Logs Q) (pure a : Sql α) := .pure (fun _ => .of_eq rfl) a

private theorem logs_get : Txn.Always (Store.Logs Q) (Txn.get : Sql Store) := .get fun _ => .of_eq rfl

private theorem logs_modify {f : Store → Store} (hf : ∀ s, (f s).taskHistory = s.taskHistory) :
    Txn.Always (Store.Logs Q) (Txn.modify f : Sql Unit) := .modify fun s => .of_eq (hf s)

theorem logs_bind_at {x : Sql α} {f : α → Sql β} (hx : s.Logs Q (x s).2)
    (hf : ∀ a s', x s = (.ok a, s') → s'.Logs Q (f a s').2) : s.Logs Q ((x >>= f) s).2 := by
  refine Txn.bind_state (I := fun t => s.Logs Q t) (fun e s' h => ?_) fun a s' h => ?_
  · rwa [h] at hx
  · rw [h] at hx
    exact hx.trans (hf a s' h)

theorem logs_bind {x : Sql α} {f : α → Sql β} (hx : Txn.Always (Store.Logs Q) x)
    (hf : ∀ a, Txn.Always (Store.Logs Q) (f a)) : Txn.Always (Store.Logs Q) (x >>= f) :=
  hx.bind (fun _ _ _ => .trans) hf

private theorem logs_map {x : Sql α} {f : α → β} (hx : Txn.Always (Store.Logs Q) x) :
    Txn.Always (Store.Logs Q) (f <$> x) := logs_bind hx fun _ => logs_pure

/-- The items of a loop may be told apart. -/
private theorem logs_mapList {f : α → Sql β} {xs : List α} (hf : ∀ x ∈ xs, Txn.Always (Store.Logs Q) (f x)) :
    Txn.Always (Store.Logs Q) (Txn.mapList f xs) := by
  induction xs with
  | nil => exact logs_pure
  | cons x xs ih =>
    refine logs_bind (hf x (List.mem_cons_self ..)) fun y => ?_
    exact logs_bind (ih fun z hz => hf z (List.mem_cons_of_mem _ hz)) fun ys => logs_pure

/-- What a transaction writes may depend on the rows it finds. -/
theorem logs_transaction_at {x : Sql α} (hx : s.Logs Q (x s).2) : s.Logs Q (transaction x s).2 := by
  rcases Txn.atomically_cases Store.rollback x s with ⟨a, s', hok, he⟩ | ⟨e, s', _, he⟩
  · rw [transaction, he]
    rw [hok] at hx
    exact hx
  · rw [transaction, he]
    exact .of_eq rfl

theorem logs_transaction {x : Sql α} (hx : Txn.Always (Store.Logs Q) x) :
    Txn.Always (Store.Logs Q) (transaction x) := fun s => logs_transaction_at (hx s)

private theorem logs_insertHistory {task : TaskRecord} {status : HistoryStatus} {metrics : IoBudget}
    {durationMs : Option Int} {lastError : Option String} {skipTags : Bool} {now : Int}
    (hQ : ∀ row : TaskHistoryRow, row.Of task status → row.Copies task.toTaskRow → Q row) :
    Txn.Always (Store.Logs Q) (insertHistory task status metrics durationMs lastError skipTags now) := by
  intro s row hrow
  obtain ⟨tags, h⟩ := insertHistory_state task status metrics durationMs lastError skipTags now s
  rw [h, Store.log_taskHistory] at hrow
  rcases List.mem_append.1 hrow with hrow | hrow
  · exact .inl hrow
  · rw [List.mem_singleton.1 hrow]
    exact .inr (hQ _ (historyRow_of ..) (historyRow_copies ..))

end Rules

/-! ### Completion and failure -/

section Outcomes

variable {Q : TaskHistoryRow → Prop} {task : TaskRecord} {metrics : IoBudget} {skipTags : Bool} {now : Int}

private theorem logs_insertTags {id : Int} {tags : List (String × String)} :
    Txn.Always (Store.Logs Q) (insertTags id tags) := by
  intro s
  obtain ⟨tt, h⟩ := insertTags_state id tags s
  rw [h]
  exact .of_eq rfl

private theorem logs_insertTask {row : TaskRow} : Txn.Always (Store.Logs Q) (insertTask row) := by
  intro s
  rw [insertTask]
  split
  · exact .of_eq rfl
  · exact .of_eq rfl

private theorem taskHistory_resetRequeued (s : Store) (id : Int) :
    (s.resetRequeued id).taskHistory = s.taskHistory := rfl

private theorem logs_createNextInstance {tags : List (String × String)} {interval : Int} :
    Txn.Always (Store.Logs Q) (createNextInstance task tags interval now) := by
  refine logs_bind logs_get fun s => ?_
  split
  · exact logs_pure
  · refine logs_bind logs_insertTask fun nextId => logs_bind logs_insertTags fun _ => ?_
    refine logs_bind (logs_map logs_get) fun groupPaused => logs_bind (logs_modify fun s => ?_) fun _ => logs_pure
    split
    · rfl
    · rfl

theorem logs_completeInner (hQ : ∀ row : TaskHistoryRow, row.Of task .completed → row.Copies task.toTaskRow → Q row) :
    Txn.Always (Store.Logs Q) (completeInner task metrics skipTags now) := by
  refine logs_bind (logs_insertHistory hQ) fun _ => logs_bind (logs_map logs_get) fun tags => ?_
  refine logs_bind (fun s => .of_eq rfl) fun deleted => ?_
  split
  · exact logs_bind (logs_modify fun s => taskHistory_resetRequeued s task.id) fun _ => logs_pure
  · refine logs_bind (logs_modify fun s => ?_) fun _ => ?_
    · split
      · rfl
      · rfl
    · split
      · exact logs_pure
      · exact logs_createNextInstance

private theorem logs_unblock {ids : List Int} : Txn.Always (Store.Logs Q) (unblock ids) := fun _ => .of_eq rfl

private theorem logs_resolveDependentsInner {id : Int} :
    Txn.Always (Store.Logs Q) (resolveDependentsInner id now) := by
  refine logs_bind (fun s => .of_eq rfl) fun ids => ?_
  split
  · exact logs_pure
  · exact logs_bind logs_unblock fun unblocked => logs_bind (logs_modify fun s => rfl) fun _ => logs_pure

private theorem logs_completeAndResolve {item : TaskRecord × IoBudget}
    (hQ : ∀ row : TaskHistoryRow, row.Of item.1 .completed → row.Copies item.1.toTaskRow → Q row) :
    Txn.Always (Store.Logs Q) (completeAndResolve skipTags now item) :=
  logs_bind (logs_completeInner hQ) fun _ => logs_bind logs_resolveDependentsInner fun _ => logs_pure

private theorem logs_completeBatchFast {items : List (TaskRecord × IoBudget)}
    (hQ : ∀ item ∈ items, ∀ row : TaskHistoryRow, row.Of item.1 .completed → row.Copies item.1.toTaskRow → Q row) :
    Txn.Always (Store.Logs Q) (completeBatchFast skipTags now items) := by
  refine logs_bind (logs_mapList fun item hitem => logs_insertHistory (hQ item hitem)) fun _ => ?_
  refine logs_bind (fun s => .of_eq rfl) fun deleted => ?_
  refine logs_bind (logs_modify fun s => ?_) fun _ => logs_bind (logs_modify fun s => ?_) fun _ => ?_
  · exact taskHistory_foldl_resetRequeued _ s
  · split
    · rfl
    · rfl
  · refine logs_bind (fun s => .of_eq rfl) fun ids => ?_
    split
    · exact logs_pure
    · exact logs_bind logs_unblock fun unblocked => logs_bind (logs_modify fun s => rfl) fun _ => logs_pure

theorem logs_completeBatchTx {items : List (TaskRecord × IoBudget)}
    (hQ : ∀ item ∈ items, ∀ row : TaskHistoryRow, row.Of item.1 .completed → row.Copies item.1.toTaskRow → Q row) :
    Txn.Always (Store.Logs Q) (completeBatchTx items now) := by
  rw [completeBatchTx.eq_def]
  split
  · exact logs_pure
  · refine logs_bind (logs_transaction fun s => ?_) fun _ => logs_pure
    exact logs_completeAndResolve (hQ _ (List.mem_singleton_self _)) s
  · split
    · exact logs_transaction fun s => logs_mapList (fun item hitem => logs_completeAndResolve (hQ item hitem)) s
    · exact logs_bind (logs_transaction fun s => logs_completeBatchFast hQ s) fun _ => logs_pure

variable {error : String} {retryable : Bool} {maxRetries : Int} {backoff : FailBackoff}

theorem logs_failInner (hQ : ∀ row : TaskHistoryRow, row.Of task (terminalStatus retryable) →
      row.Copies task.toTaskRow → Q row) :
    Txn.Always (Store.Logs Q) (failInner task error retryable maxRetries metrics backoff now) := by
  rw [failInner]
  split
  · exact logs_modify fun s => rfl
  · exact logs_bind (logs_insertHistory hQ) fun _ => logs_modify fun s => rfl

theorem logs_failBatchTx {items : List FailureItem}
    (hQ : ∀ item ∈ items, ∀ row : TaskHistoryRow, row.Of item.task (terminalStatus item.retryable) →
      row.Copies item.task.toTaskRow → Q row) :
    Txn.Always (Store.Logs Q) (failBatchTx items now) := by
  rw [failBatchTx.eq_def]
  split
  · exact logs_pure
  · exact logs_transaction (logs_failInner (hQ _ (List.mem_singleton_self _)))
  · refine logs_transaction fun s => ?_
    refine logs_bind (logs_mapList fun item hitem => logs_insertHistory (hQ item hitem)) (fun _ => ?_) s
    refine logs_bind (logs_modify fun s => rfl) fun _ => logs_modify fun s => ?_
    split
    · rfl
    · rfl

end Outcomes

/-! ### Cancellation and expiry -/

section CancelExpire

variable {Q : TaskHistoryRow → Prop} {now : Int}

theorem logs_cancelInner {task : TaskRecord}
    (hQ : ∀ row : TaskHistoryRow, row.status.withdrawn = true → row.Copies task.toTaskRow → Q row) :
    Txn.Always (Store.Logs Q) (cancelInner task now) :=
  logs_bind (logs_insertHistory fun row hrow => hQ row (by rw [hrow.status]; rfl)) fun _ => logs_modify fun s => rfl

theorem logs_cancelChildrenTx {parent : Int} {read : List TaskRow}
    (hQ : ∀ r ∈ read, ∀ row : TaskHistoryRow, row.status.withdrawn = true → row.Copies r → Q row) :
    Txn.Always (Store.Logs Q) (cancelChildrenTx parent read now) := by
  rw [cancelChildrenTx]
  split
  · exact logs_pure
  · refine logs_transaction (logs_bind (logs_mapList fun row hrow => ?_) fun _ => logs_modify fun s => rfl)
    exact logs_insertHistory fun h hh => hQ row hrow h (by rw [hh.status]; rfl)

private theorem logs_failDependentsInner (hQ : ∀ row : TaskHistoryRow, row.status.withdrawn = true → Q row)
    {fuel : Nat} {id : Int} : Txn.Always (Store.Logs Q) (failDependentsInner now fuel id) := by
  induction fuel generalizing id with
  | zero => exact logs_pure
  | succ fuel ih =>
    refine logs_bind (fun s => .of_eq rfl) fun ids => ?_
    refine logs_bind (logs_mapList fun depId _ => ?_) fun _ => logs_pure
    refine logs_bind (logs_map logs_get) fun row => ?_
    have hfail : ∀ task, Txn.Always (Store.Logs Q) (dependencyFail id task now) := fun task =>
      logs_bind (logs_insertHistory fun h hh _ => hQ h (by rw [hh.status]; rfl)) fun _ => logs_modify fun s => rfl
    have hrelease : Txn.Always (Store.Logs Q) (releaseDependent depId now) := by
      intro s
      rw [releaseDependent]
      split
      · exact .of_eq rfl
      · split
        · exact .of_eq rfl
        · exact .of_eq rfl
    cases row with
    | none => exact logs_pure
    | some task =>
      simp only
      split
      · exact logs_bind (hfail task) fun _ => logs_bind ih fun _ => logs_pure
      · exact logs_bind (hfail task) fun _ => logs_bind ih fun _ => logs_pure
      · exact logs_bind hrelease fun _ => logs_pure

/-- What an expiry leaves of `s₀`: some of its rows, and history rows of others. -/
structure Store.Expiring (s₀ s : Store) : Prop where
  rows : ∀ r ∈ s.tasks, r ∈ s₀.tasks
  logs : s₀.Logs (fun h => ∃ r ∈ s₀.tasks, r.status ≠ .running ∧ h.Of (rowToTaskRecord r) .expired ∧ h.Copies r) s

private theorem expiring_insertHistory {s₀ : Store} {row : TaskRow} (hrow : row ∈ s₀.tasks)
    (hst : row.status ≠ .running) {task : TaskRecord} (htask : task.toTaskRow = row) :
    Txn.Ensures s₀.Expiring (insertHistory task .expired {} none none false now) fun _ => s₀.Expiring := by
  intro s hs _ s' h
  obtain ⟨tags, rfl⟩ := insertHistory_leaves h
  refine ⟨hs.rows, fun h hh => ?_⟩
  rcases List.mem_append.1 hh with hh | hh
  · exact hs.logs h hh
  · rw [List.mem_singleton.1 hh]
    subst htask
    exact .inr ⟨task.toTaskRow, hrow, hst, ⟨rfl, rfl, rfl⟩, historyRow_copies ..⟩

private theorem expiring_delete {s₀ s s' : Store} (h : s₀.Expiring s) (hrows : ∀ r ∈ s'.tasks, r ∈ s.tasks)
    (hh : s'.taskHistory = s.taskHistory) : s₀.Expiring s' :=
  ⟨fun r hr => h.rows r (hrows r hr), h.logs.trans (.of_eq hh)⟩

private theorem expiring_expireRow {s₀ : Store} {row : TaskRow} (hrow : row ∈ s₀.tasks)
    (hst : row.status ≠ .running) :
    Txn.Ensures s₀.Expiring (expireRow row now) fun _ => s₀.Expiring := by
  refine Txn.Ensures.bind (Txn.Ensures.get (Q := fun _ => s₀.Expiring) fun s hs => hs) fun s => ?_
  refine (expiring_insertHistory hrow hst rfl).bind fun _ => ?_
  refine Txn.Ensures.bind (Txn.Ensures.modify (Q := fun _ => s₀.Expiring) fun s hs => ?_) fun _ =>
    .pure fun s hs => hs
  exact expiring_delete hs (fun r hr => List.mem_of_mem_filter hr) rfl

private theorem running_of_pendingOrPaused {r : TaskRow} (h : r.pendingOrPaused = true) : r.status ≠ .running := by
  intro hst
  rw [TaskRow.pendingOrPaused, hst] at h
  cases h

private theorem expiring_expireWithChildren {s₀ : Store} {row : TaskRow} (hrow : row ∈ s₀.tasks)
    (hst : row.status ≠ .running) : Txn.Ensures s₀.Expiring (expireWithChildren now row) fun _ => s₀.Expiring := by
  refine Txn.Ensures.bind (Txn.Ensures.get (Q := fun _ => s₀.Expiring) fun s hs => hs) fun s => ?_
  refine (expiring_insertHistory hrow hst rfl).bind fun _ => ?_
  -- the children that are read are rows of the store in which the expiry started
  refine Txn.Ensures.bind (Txn.Ensures.map_get (Q := fun children s => s₀.Expiring s ∧
    ∀ r ∈ children, r ∈ s₀.tasks ∧ r.status ≠ .running) fun s hs => ⟨hs, fun r hr => ?_⟩) fun children => ?_
  · obtain ⟨hr, hsel⟩ := List.mem_filter.1 hr
    rw [Bool.and_eq_true] at hsel
    exact ⟨hs.rows r hr, running_of_pendingOrPaused hsel.2⟩
  · rintro s ⟨hs, hchildren⟩
    have hloop : Txn.Ensures s₀.Expiring (Txn.mapList (expireRow · now) children) fun _ => s₀.Expiring :=
      .mapList fun r hr => expiring_expireRow (hchildren r hr).1 (hchildren r hr).2
    refine hloop.bind (fun expired => ?_) s hs
    refine Txn.Ensures.bind (Txn.Ensures.modify (Q := fun _ => s₀.Expiring) fun s hs => ?_) fun _ =>
      .pure fun s hs => hs
    exact expiring_delete hs (fun r hr => List.mem_of_mem_filter hr) rfl

private theorem mem_expiredRows {s : Store} {r : TaskRow} (h : r ∈ s.expiredRows now) :
    r ∈ s.tasks ∧ r.status ≠ .running := by
  have hr := List.mem_of_mem_take h
  rw [List.mem_insertionSort, List.mem_filter, Bool.and_eq_true, Bool.or_eq_true, beq_iff_eq] at hr
  refine ⟨hr.1, ?_⟩
  rcases hr.2.2 with hp | hb
  · exact running_of_pendingOrPaused hp
  · rw [hb]
    exact nofun

private theorem Store.Expiring.refl (s : Store) : s.Expiring s := ⟨fun _ hr => hr, .of_eq rfl⟩

/-- An expiry that fails leaves everything as it was. -/
private theorem expiring_transaction {α : Type} {x : Sql α} {s : Store}
    (hx : ∀ a s', x s = (.ok a, s') → s.Expiring s') : s.Expiring (transaction x s).2 := by
  rcases h : transaction x s with ⟨e | a, s'⟩
  · obtain ⟨s₁, _, rfl⟩ := transaction_error h
    exact ⟨fun _ hr => hr, .of_eq rfl⟩
  · exact hx a s' (transaction_ok h)

theorem expireTasksTx_expiring (s : Store) : s.Expiring (expireTasksTx now s).2 := by
  refine expiring_transaction fun a s' h => ?_
  obtain ⟨rows, s₁, h₁, h⟩ := Txn.bind_ok h
  obtain ⟨rfl, rfl⟩ : s.expiredRows now = rows ∧ s = s₁ := by
    cases h₁
    exact ⟨rfl, rfl⟩
  obtain ⟨expired, s₂, h₂, h⟩ := Txn.bind_ok h
  cases h
  have hloop : Txn.Ensures s.Expiring (Txn.mapList (expireWithChildren now) (s.expiredRows now)) fun _ =>
      s.Expiring :=
    .mapList fun r hr => expiring_expireWithChildren (mem_expiredRows hr).1 (mem_expiredRows hr).2
  exact hloop s (.refl s) _ _ h₂

theorem expireSingle_expiring (id : Int) (s : Store) : s.Expiring (expireSingle id now s).2 := by
  refine expiring_transaction fun a s' h => ?_
  split at h
  · cases h
    exact .refl s
  · rename_i row hrow
    have hsel := List.find?_some hrow
    simp only [Bool.and_eq_true] at hsel
    obtain ⟨task, s₁, h₁, h⟩ := Txn.bind_ok h
    cases h
    exact expiring_expireRow (List.mem_of_find?_eq_some hrow) (running_of_pendingOrPaused hsel.2) s (.refl s) _ _ h₁

end CancelExpire

/-! ### Submission -/

section Submission

variable {Q : TaskHistoryRow → Prop} {sub : TaskSubmission} {now : Int}

private theorem logs_attachDependencies {id : Int} {deps : List Int} {policy : DependencyFailurePolicy} :
    Txn.Always (Store.Logs Q) (attachDependencies id deps policy) := by
  intro s
  rw [attachDependencies_apply]
  split
  · exact .of_eq rfl
  · split
    · exact .of_eq rfl
    · split
      · split
        · exact .of_eq rfl
        · exact .of_eq rfl
      · exact .of_eq rfl

private theorem logs_finishInsert {id : Int} : Txn.Always (Store.Logs Q) (finishInsert sub id now) := by
  refine logs_bind (logs_modify fun s => rfl) fun _ => ?_
  refine logs_bind (logs_bind (logs_modify fun s => rfl) fun _ => logs_insertTags) fun _ => ?_
  refine logs_bind logs_attachDependencies fun _ => logs_bind (logs_map logs_get) fun groupPaused => ?_
  refine logs_bind (logs_modify fun s => ?_) fun _ => logs_pure
  split
  · rfl
  · rfl

private theorem logs_skipExisting {key : String} {priority : Priority} {skipRequeue : Bool} :
    Txn.Always (Store.Logs Q) (skipExisting key priority skipRequeue) := by
  refine logs_bind (fun s => .of_eq rfl) fun upgraded => ?_
  split
  · exact logs_pure
  · split
    · exact logs_pure
    · refine logs_bind (fun s => .of_eq rfl) fun requeued => ?_
      split
      · exact logs_pure
      · exact logs_pure

/-- The task that is superseded is written to the history. -/
private theorem logs_supersedeExisting {key : String} {s : Store}
    (hQ : ∀ r ∈ s.tasks, ∀ row : TaskHistoryRow, row.status.withdrawn = true → row.Copies r → Q row) :
    s.Logs Q (supersedeExisting sub key now s).2 := by
  refine logs_bind_at (.of_eq rfl) fun row s₁ h₁ => ?_
  obtain ⟨hrow, rfl⟩ : s.taskByKey key = row ∧ s = s₁ := by
    cases h₁
    exact ⟨rfl, rfl⟩
  cases row with
  | none => exact .of_eq rfl
  | some existing =>
    have hplace : Txn.Always (Store.Logs Q) (supersedeInPlace sub existing.id now) :=
      logs_bind (logs_modify fun s => rfl) fun _ => logs_bind (logs_modify fun s => rfl) fun _ =>
        logs_bind logs_insertTags fun _ => logs_pure
    have hreplace : Txn.Always (Store.Logs Q) (supersedeReplace sub key existing.id now) :=
      logs_bind (logs_modify fun s => rfl) fun _ => logs_bind logs_insertTask fun _ =>
        logs_bind logs_insertTags fun _ => logs_pure
    have hmem : existing ∈ s.tasks := List.mem_of_find?_eq_some hrow
    refine logs_bind (logs_insertHistory fun h hh => hQ existing hmem h (by rw [hh.status]; rfl)) (fun _ => ?_) s
    split
    · exact hplace
    · exact hplace
    · exact hplace
    · exact hreplace
    · exact hreplace

/-- A submission writes at most the task that it supersedes. -/
theorem logs_submitOne {sha256 : List UInt8 → String} {skipRequeue : Bool} {s : Store}
    (hQ : ∀ r ∈ s.tasks, ∀ row : TaskHistoryRow, row.status.withdrawn = true → row.Copies r → Q row) :
    s.Logs Q (submitOne sha256 sub skipRequeue now s).2 := by
  cases hv : sub.validate with
  | error e =>
    rw [submitOne_invalid hv]
    exact .of_eq rfl
  | ok u =>
    cases hk : s.taskByKey (sub.effectiveKey sha256) with
    | none =>
      rw [submitOne_fresh hv hk]
      have hadd : s.Logs Q (s.addTask (sub.newRow (sub.effectiveKey sha256) now)) := .of_eq rfl
      exact hadd.trans (logs_finishInsert _)
    | some row =>
      rw [submitOne_duplicate hv hk]
      split
      · exact .of_eq rfl
      · exact logs_supersedeExisting hQ
      · exact logs_skipExisting s

private theorem logs_submitEach (hQ : ∀ row : TaskHistoryRow, row.status.withdrawn = true → Q row)
    {sha256 : List UInt8 → String} {skipRequeue : Bool} (batch : List (TaskSubmission × Int)) (s : Store) :
    s.Logs Q (submitEach sha256 skipRequeue batch s).2 := by
  induction batch generalizing s with
  | nil => exact .of_eq rfl
  | cons m batch ih => exact (logs_submitOne fun _ _ h hh _ => hQ h hh).trans (ih _)

end Submission

/-! ### The steps of the store -/

/-- Fewer history rows. -/
theorem logs_filter {Q : TaskHistoryRow → Prop} {s s' : Store} {p : TaskHistoryRow → Bool}
    (h : s'.taskHistory = s.taskHistory.filter p) : s.Logs Q s' := by
  intro row hrow
  rw [h] at hrow
  exact .inl (List.mem_of_mem_filter hrow)

theorem logs_maybePrune {Q : TaskHistoryRow → Prop} (s : Store) (now : Int) : s.Logs Q (s.maybePrune now) := by
  rw [Store.maybePrune]
  split
  · exact .of_eq rfl
  · dsimp only
    split
    · exact .of_eq rfl
    · split
      · exact logs_filter rfl
      · exact logs_filter rfl

/-- A step writes only the history rows it may write. -/
theorem Action.logs_exec (sha256 : List UInt8 → String) (s : Store) (a : Action) :
    s.Logs (a.Writes s) (a.exec sha256 s) := by
  have hw : ∀ h : TaskHistoryRow, h.status.withdrawn = true → h.status.withdrawn = true := fun _ hh => hh
  cases a with
  | update u =>
    rw [Action.exec, u.exec_update]
    exact .of_eq rfl
  | submitDirect sub now => exact logs_transaction (fun s => logs_submitOne fun _ _ h hh _ => hw h hh) s
  | processSubmitBatch skipRequeue batch => exact logs_submitEach hw batch s
  | submitChunk skipRequeue last now chunk =>
    refine logs_transaction (logs_mapList fun item _ => ?_) s
    rw [submitItem]
    split
    · exact fun s => logs_submitOne fun _ _ h hh _ => hw h hh
    · exact logs_pure
  | claimTask id now => exact .of_eq rfl
  | popById id now => exact .of_eq rfl
  | popNextBatch limit aging now =>
    rw [Action.exec, popNextBatch.eq_def]
    split
    · exact .of_eq rfl
    · exact .of_eq rfl
    · exact .of_eq rfl
  | complete id metrics now =>
    refine logs_transaction_at ?_
    split
    · exact .of_eq rfl
    · rename_i row hrow
      refine logs_bind (logs_completeInner fun h hh _ => ?_) (fun _ => logs_pure) s
      exact ⟨row, List.mem_of_find?_eq_some hrow, by simpa using List.find?_some hrow, hh⟩
  | completeWithRecord task metrics now =>
    exact logs_transaction (fun s => logs_completeInner (fun _ hh _ => hh) s) s
  | completeBatch items now => exact logs_completeBatchTx (fun item hitem h hh _ => ⟨item, hitem, hh⟩) s
  | resolveDependents id now => exact logs_transaction logs_resolveDependentsInner s
  | fail id error retryable maxRetries metrics backoff now =>
    refine logs_transaction_at ?_
    split
    · exact .of_eq rfl
    · rename_i row hrow
      refine logs_failInner (fun h hh _ => ?_) s
      exact ⟨row, List.mem_of_find?_eq_some hrow, by simpa using List.find?_some hrow, hh⟩
  | failWithRecord task error retryable maxRetries metrics backoff now =>
    exact logs_transaction (logs_failInner fun _ hh _ => hh) s
  | failBatch items now => exact logs_failBatchTx (fun item hitem h hh _ => ⟨item, hitem, hh⟩) s
  | failDependents id now => exact logs_transaction (fun s => logs_failDependentsInner hw s) s
  | cancelToHistory id now =>
    refine logs_transaction_at ?_
    split
    · exact .of_eq rfl
    · exact logs_bind (logs_cancelInner fun h hh _ => hw h hh) (fun _ => logs_pure) s
  | cancelToHistoryWithRecord task now => exact logs_transaction (logs_cancelInner fun h hh _ => hw h hh) s
  | cancelChildren parent read now => exact logs_cancelChildrenTx (fun _ _ h hh _ => hw h hh) s
  | expireTasks now =>
    refine (expireTasksTx_expiring s).logs.mono ?_
    rintro h ⟨r, hr, hst, hof, _⟩
    exact ⟨r, hr, hst, hof⟩
  | expireSingle id now =>
    refine (expireSingle_expiring id s).logs.mono ?_
    rintro h ⟨r, hr, hst, hof, _⟩
    exact ⟨r, hr, hst, hof⟩
  | pauseGroupState group resumeAt now =>
    rw [Action.exec, Store.pauseGroupState]
    split
    · exact .of_eq rfl
    · exact .of_eq rfl
  | deleteHistory historyId => exact logs_filter rfl
  | pruneHistoryByAge days now => exact logs_filter rfl
  | pruneHistoryByCount keep => exact logs_filter rfl
  | maybePrune now => exact logs_maybePrune s now
  | recoverRunning now =>
    rw [Action.exec, Store.recoverRunning]
    split
    · exact .of_eq rfl
    · exact .of_eq rfl
  | _ => exact .of_eq rfl

/-! ### How a life was logged -/

/-- The status with which a step wrote the life `inst` to the history. -/
def loggedAs (before after : Store) (inst : Nat) : Option HistoryStatus :=
  (after.taskHistory.find? fun h => h.inst == inst && !before.taskHistory.contains h).map (·.status)

theorem loggedAs_some {before after : Store} {inst : Nat} {st : HistoryStatus}
    (h : loggedAs before after inst = some st) :
    ∃ row ∈ after.taskHistory, row ∉ before.taskHistory ∧ row.inst = inst ∧ row.status = st := by
  obtain ⟨row, hrow, rfl⟩ := Option.map_eq_some_iff.1 h
  have hsel := List.find?_some hrow
  simp only [Bool.and_eq_true, beq_iff_eq, Bool.not_eq_true', List.contains_eq_mem, decide_eq_false_iff_not] at hsel
  exact ⟨row, List.mem_of_find?_eq_some hrow, hsel.2, hsel.1, rfl⟩

theorem exists_loggedAs {before after : Store} {row : TaskHistoryRow} (hrow : row ∈ after.taskHistory)
    (hnew : row ∉ before.taskHistory) : ∃ st, loggedAs before after row.inst = some st := by
  unfold loggedAs
  cases hfind : after.taskHistory.find? fun h => h.inst == row.inst && !before.taskHistory.contains h with
  | none => exact absurd (List.find?_eq_none.1 hfind row hrow) (by simp [hnew])
  | some row' => exact ⟨row'.status, rfl⟩

end Taskmill
