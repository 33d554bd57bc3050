import Taskmill.Requeue

/-!
# Pausing a recurring schedule

`pause_recurring` sets `recurring_paused` in the row, and promises that the completion of the current instance
creates no next one.  `complete` reads the row again; `complete_with_record`, `complete_with_record_and_resolve` and
`complete_batch_with_resolve` look at the record, which was read when the task was dispatched.  The pause is
honoured in the runs in which such a record is not out of date (`recurring_pauses_honoured`).
-/

namespace Taskmill

open Transact

/-- The record with another value of `recurring_paused`. -/
@[simps!] def TaskRecord.withPaused (task : TaskRecord) (paused : Bool) : TaskRecord :=
  { task with recurringPaused := paused }

/-- The record with the value of `recurring_paused` that is in the row. -/
def TaskRecord.reread (s : Store) (task : TaskRecord) : TaskRecord :=
  task.withPaused (((s.taskById task.id).map (·.recurringPaused)).getD task.recurringPaused)

/-- The step, with the records it is given read again. -/
def Action.reread (s : Store) : Action → Action
  | .completeWithRecord task metrics now => .completeWithRecord (task.reread s) metrics now
  | .completeBatch items now => .completeBatch (items.map fun item => (item.1.reread s, item.2)) now
  | a => a

/-- The records belong to tasks that are in the queue, and to different ones. -/
def Action.Current (s : Store) (a : Action) : Prop :=
  (a.completes.map (·.id)).Nodup ∧ ∀ task ∈ a.completes, ∃ row ∈ s.tasks, row.id = task.id ∧ row.key = task.key

/-- There will be no next instance, paused or not: the task does not recur, or this was the last time. -/
def TaskRecord.ends (task : TaskRecord) : Bool := (task.withPaused false).recurs.isNone

/-- The record has the value of `recurring_paused` that is in the row, or it does not matter: there will be no next
instance anyway, or the row is to be requeued. -/
def TaskRecord.UpToDate (s : Store) (task : TaskRecord) : Prop :=
  ∀ row ∈ s.tasks, row.id = task.id →
    task.recurringPaused = row.recurringPaused ∨ task.ends = true ∨ row.requeue = true

/-- No record of the step is out of date. -/
def Action.UpToDate (s : Store) (a : Action) : Prop := ∀ task ∈ a.completes, task.UpToDate s

/-- The state before step `n` of a run. -/
def stateAt (sha256 : List UInt8 → String) (s : Store) (actions : List Action) (n : Nat) : Store :=
  execAll sha256 s (actions.take n)

/-- The run honours the pauses of recurring schedules. -/
structure PausesHonoured (sha256 : List UInt8 → String) (s : Store) (actions : List Action) : Prop where
  /-- What a completion does is decided by the value in the row. -/
  decides : ∀ n (a : Action), actions[n]? = some a →
    a.exec sha256 (stateAt sha256 s actions n) =
      (a.reread (stateAt sha256 s actions n)).exec sha256 (stateAt sha256 s actions n)
  /-- After a `pause_recurring` that nothing takes back, the completion of the instance leaves no new row with its
  key; a row that is to be requeued is reset. -/
  ends : ∀ i n id row row' (a : Action), i < n → actions[i]? = some (.update (.setRecurringPaused id true)) →
    (∀ j, i < j → j < n → actions[j]? ≠ some (.update (.setRecurringPaused id false))) →
    row ∈ (stateAt sha256 s actions i).tasks → row.id = id → row.recurringIntervalSecs.isSome = true →
    row' ∈ (stateAt sha256 s actions n).tasks → row'.inst = row.inst → actions[n]? = some a → a.Completes id →
    ∀ r ∈ (stateAt sha256 s actions (n + 1)).tasks, r.key = row'.key → r.inst = row'.inst ∨
      (row'.requeue = true ∧ r.id = row'.id ∧ r.recurringExecutionCount = row'.recurringExecutionCount)

/-! ### What a completion looks at -/

section Completion

variable {s : Store} {now : Int} {skipTags : Bool}

theorem TaskRecord.recurs_of_ends {task : TaskRecord} (h : task.ends = true) (paused : Bool) :
    (task.withPaused paused).recurs = none := by
  have hnone : (task.withPaused false).recurs = none := by
    simpa [TaskRecord.ends] using h
  cases paused with
  | false => exact hnone
  | true =>
    unfold TaskRecord.recurs
    split
    · rfl
    · rfl

/-- Apart from the decision to go on, a completion does not look at `recurring_paused`. -/
private theorem completeInner_of_recurs {task : TaskRecord} {paused : Bool} (metrics : IoBudget)
    (h : (task.withPaused paused).recurs = task.recurs) :
    completeInner (task.withPaused paused) metrics skipTags now = completeInner task metrics skipTags now := by
  unfold completeInner
  rw [h]
  rfl

/-- The completion of a row that is to be requeued does not go on. -/
private theorem completeInner_of_kept {task : TaskRecord} {paused : Bool} (metrics : IoBudget)
    (h : s.deletable task.id = false) :
    completeInner (task.withPaused paused) metrics skipTags now s = completeInner task metrics skipTags now s := by
  by_cases hlog : s.LogFails skipTags task.id
  · obtain ⟨s', herr⟩ := insertHistory_fails hlog .completed metrics (computeDurationMs now task) task.lastError now
    have hpaused : completeInner (task.withPaused paused) metrics skipTags now s =
        (.error taskHistoryTagsError, s') :=
      Txn.bind_of_error herr
    have hplain : completeInner task metrics skipTags now s = (.error taskHistoryTagsError, s') :=
      Txn.bind_of_error herr
    exact hpaused.trans hplain.symm
  · have hfinish : ∀ b : TaskRecord, b.id = task.id → ¬ s.LogFails skipTags b.id →
        completeInner b metrics skipTags now s = (.ok none, s.completeRow skipTags now (b, metrics)) := by
      intro b hid hb
      rw [completeInner_apply _ _ _ _ _ hb]
      split
      · rfl
      · rw [hid, h]
        rfl
    exact (hfinish (task.withPaused paused) rfl hlog).trans (hfinish task rfl hlog).symm

/-- The record may as well be read again. -/
private theorem completeInner_reread {task : TaskRecord} (metrics : IoBudget) {t : Store}
    (h : task.reread t = task ∨ task.ends = true ∨ s.deletable task.id = false) :
    completeInner (task.reread t) metrics skipTags now s = completeInner task metrics skipTags now s := by
  rcases h with hsame | hends | hkept
  · rw [hsame]
  · have hrecurs : (task.reread t).recurs = task.recurs :=
      (TaskRecord.recurs_of_ends hends _).trans (TaskRecord.recurs_of_ends hends task.recurringPaused).symm
    exact congrFun (completeInner_of_recurs metrics hrecurs) s
  · exact completeInner_of_kept metrics hkept

private theorem reread_eq (hschema : s.Schema) {task : TaskRecord} {row : TaskRow} (hrow : row ∈ s.tasks)
    (hid : row.id = task.id) (h : task.recurringPaused = row.recurringPaused) : task.reread s = task := by
  have hfind : s.taskById task.id = some row := by
    rw [← hid]
    exact hschema.taskById_eq hrow
  unfold TaskRecord.reread
  rw [hfind]
  show task.withPaused row.recurringPaused = task
  rw [← h]
  rfl

/-- The completion of another task leaves the row, with its mark. -/
theorem completeAndResolve_kept {s' : Store} {item : TaskRecord × IoBudget}
    {result : Int × Option (Int × Int) × List Int} {r : TaskRow} (hs : s.Schema) (hr : r ∈ s.tasks)
    (hid : r.id ≠ item.1.id) (h : completeAndResolve skipTags now item s = (.ok result, s')) :
    ∃ r' ∈ s'.tasks, r'.id = r.id ∧ r'.requeue = r.requeue ∧ r'.key = r.key ∧ r'.inst = r.inst := by
  obtain ⟨recurring, s₁, h₁, h⟩ := Txn.bind_ok h
  have hsteps : Steps false s (completeInner item.1 item.2 skipTags now s).2 := steps_completeInner s
  rw [h₁] at hsteps
  have hr₁ : r ∈ s₁.tasks := completeInner_other hr hid h₁
  obtain ⟨unblocked, s₂, h₂, h⟩ := Txn.bind_ok h
  rw [resolveDependentsInner_apply (hs.steps hsteps).ids] at h₂
  cases h₂
  cases h
  refine ⟨if s₁.frees [item.1.id] r then s₁.freeRow now r else r, List.mem_map_of_mem hr₁, ?_⟩
  split
  · rw [Store.freeRow]
    split
    · exact ⟨rfl, rfl, rfl, rfl⟩
    · exact ⟨rfl, rfl, rfl, rfl⟩
  · exact ⟨rfl, rfl, rfl, rfl⟩

private theorem completeAndResolve_reread {task : TaskRecord} {metrics : IoBudget} {t : Store}
    (h : task.reread t = task ∨ task.ends = true ∨ s.deletable task.id = false) :
    completeAndResolve skipTags now (task.reread t, metrics) s =
      completeAndResolve skipTags now (task, metrics) s := by
  unfold completeAndResolve
  rw [Txn.bind_apply, Txn.bind_apply, completeInner_reread metrics h]
  rfl

/-- A batch that goes task by task. -/
private theorem completeEach_reread (t : Store) (items : List (TaskRecord × IoBudget)) {s : Store} (hs : s.Schema)
    (hnodup : (items.map (·.1.id)).Nodup)
    (h : ∀ item ∈ items, item.1.reread t = item.1 ∨ item.1.ends = true ∨ ∃ r ∈ s.tasks, r.id = item.1.id ∧
      r.requeue = true) :
    Txn.mapList (completeAndResolve skipTags now) (items.map fun item => (item.1.reread t, item.2)) s =
      Txn.mapList (completeAndResolve skipTags now) items s := by
  induction items generalizing s with
  | nil => rfl
  | cons item items ih =>
    rw [List.map_cons, List.nodup_cons] at hnodup
    have hhead : completeAndResolve skipTags now (item.1.reread t, item.2) s =
        completeAndResolve skipTags now item s := by
      refine completeAndResolve_reread ?_
      rcases h item List.mem_cons_self with hsame | hends | ⟨r, hr, hid, hreq⟩
      · exact .inl hsame
      · exact .inr (.inl hends)
      · right; right
        rw [← hid]
        exact not_deletable hs hr hreq
    rw [List.map_cons, Txn.mapList, Txn.mapList, Txn.bind_apply, Txn.bind_apply, hhead]
    split
    · rename_i result s₁ h₁
      have hsteps : Steps false s (completeAndResolve skipTags now item s).2 := steps_completeAndResolve item s
      rw [h₁] at hsteps
      -- the rows of the items to come are still there
      have hrest := ih (hs.steps hsteps) hnodup.2 fun later hlater => by
        rcases h later (List.mem_cons_of_mem _ hlater) with hsame | hends | ⟨r, hr, hid, hreq⟩
        · exact .inl hsame
        · exact .inr (.inl hends)
        · have hne : r.id ≠ item.1.id := by
            intro heq
            exact hnodup.1 (List.mem_map.2 ⟨later, hlater, hid.symm.trans heq⟩)
          obtain ⟨r', hr', hid', hreq', _⟩ := completeAndResolve_kept hs hr hne h₁
          exact .inr (.inr ⟨r', hr', hid'.trans hid, hreq'.trans hreq⟩)
      rw [Txn.bind_apply, Txn.bind_apply, hrest]
    · rfl

/-- The batched path does not look at `recurring_paused` at all. -/
private theorem completeBatchFast_reread (t : Store) (items : List (TaskRecord × IoBudget)) :
    completeBatchFast skipTags now (items.map fun item => (item.1.reread t, item.2)) =
      completeBatchFast skipTags now items := by
  have hids : ((items.map fun item => (item.1.reread t, item.2)).map (·.1.id)) = items.map (·.1.id) := by
    rw [List.map_map]
    rfl
  have hinsert : Txn.mapList (insertCompleted skipTags now) (items.map fun item => (item.1.reread t, item.2)) =
      Txn.mapList (insertCompleted skipTags now) items := by
    rw [Txn.mapList_map]
    rfl
  unfold completeBatchFast
  rw [hids, hinsert]

end Completion

/-! ### One step -/

section Step

variable {sha256 : List UInt8 → String} {s : Store} {a : Action}

/-- The transaction of a batch with several tasks. -/
theorem completeBatchTx_several {items : List (TaskRecord × IoBudget)} (h : 2 ≤ items.length) {now : Int} :
    completeBatchTx items now =
      if items.any fun item => item.1.recurringIntervalSecs.isSome then
        transaction fun s => Txn.mapList (completeAndResolve (!s.hasTags) now) items s
      else (do
        let unblocked ← transaction fun s => completeBatchFast (!s.hasTags) now items s
        pure (batchResults unblocked items)) := by
  match items, h with
  | first :: second :: rest, _ => rfl

/-- The records of a step that are not out of date may as well be read again. -/
theorem Action.exec_reread (hs : s.Schema) (hcur : a.Current s) (hup : a.UpToDate s) :
    a.exec sha256 s = (a.reread s).exec sha256 s := by
  have hitem : ∀ task ∈ a.completes, task.reread s = task ∨ task.ends = true ∨ ∃ r ∈ s.tasks, r.id = task.id ∧
      r.requeue = true := by
    intro task htask
    obtain ⟨row, hrow, hid, _⟩ := hcur.2 task htask
    rcases hup task htask row hrow hid with hsame | hends | hreq
    · exact .inl (reread_eq hs hrow hid hsame)
    · exact .inr (.inl hends)
    · exact .inr (.inr ⟨row, hrow, hid, hreq⟩)
  have hone : ∀ task ∈ a.completes, task.reread s = task ∨ task.ends = true ∨ s.deletable task.id = false := by
    intro task htask
    rcases hitem task htask with hsame | hends | ⟨r, hr, hid, hreq⟩
    · exact .inl hsame
    · exact .inr (.inl hends)
    · right; right
      rw [← hid]
      exact not_deletable hs hr hreq
  cases a with
  | completeWithRecord task metrics now =>
    have hbody : completeInner (task.reread s) metrics (!s.hasTags) now s =
        completeInner task metrics (!s.hasTags) now s :=
      completeInner_reread metrics (hone task List.mem_cons_self)
    have htx : completeWithRecordTx (task.reread s) metrics now s = completeWithRecordTx task metrics now s :=
      transaction_congr hbody
    rw [Action.reread, Action.exec, Action.exec, htx]
  | completeBatch items now =>
    rw [Action.reread, Action.exec, Action.exec]
    rcases items with _ | ⟨⟨task, metrics⟩, _ | ⟨second, rest⟩⟩
    · rfl
    · have hbody : completeAndResolve (!s.hasTags) now (task.reread s, metrics) s =
          completeAndResolve (!s.hasTags) now (task, metrics) s :=
        completeAndResolve_reread (hone task List.mem_cons_self)
      have htx : completeAndResolveTx (task.reread s) metrics now s = completeAndResolveTx task metrics now s :=
        transaction_congr hbody
      show ((completeAndResolveTx task metrics now >>= fun result => pure [result]) s).2 =
        ((completeAndResolveTx (task.reread s) metrics now >>= fun result => pure [result]) s).2
      rw [Txn.bind_pure_state, Txn.bind_pure_state, htx]
    · rw [completeBatchTx_several (by simp), completeBatchTx_several (by simp)]
      generalize (task, metrics) :: second :: rest = items at hcur hitem
      have hany : (items.map fun item => (item.1.reread s, item.2)).any
        (fun item => item.1.recurringIntervalSecs.isSome) =
          items.any fun item => item.1.recurringIntervalSecs.isSome := by
        rw [List.any_map]
        rfl
      rw [hany]
      split
      · have hnodup : (items.map (·.1.id)).Nodup := by
          have h := hcur.1
          rwa [Action.completes, List.map_map] at h
        have hloop : Txn.mapList (completeAndResolve (!s.hasTags) now)
          (items.map fun item => (item.1.reread s, item.2)) s =
            Txn.mapList (completeAndResolve (!s.hasTags) now) items s :=
          completeEach_reread s items hs hnodup fun item hmem => hitem item.1 (List.mem_map_of_mem hmem)
        rw [transaction_congr (x := fun s => Txn.mapList (completeAndResolve (!s.hasTags) now) items s) hloop.symm]
        rfl
      · rw [Txn.bind_pure_state, Txn.bind_pure_state]
        simp only [completeBatchFast_reread]
  | _ => rfl

/-- The rows with the key of a paused schedule: its own row, or that row after a reset. -/
private structure TaskRow.Continues (row r : TaskRow) : Prop where
  id : r.id = row.id
  count : r.recurringExecutionCount = row.recurringExecutionCount
  marked : r.requeue = true → row.requeue = true
  life : r.inst = row.inst ∨ row.requeue = true

private theorem TaskRow.Continues.reset {row r : TaskRow} (h : row.Continues r)
    (hreq : r.requeue = true) (inst : Nat) :
    row.Continues (r.resetRequeued inst) := ⟨h.id, h.count, (fun hmark => by cases hmark), .inr (h.marked hreq)⟩

private theorem recurs_of_paused {task : TaskRecord} (h : task.recurringPaused = true) : task.recurs = none := by
  unfold TaskRecord.recurs
  rw [h]
  split
  · rfl
  · rfl

/-- A completion that looks at the row does not go on with a paused schedule. -/
private theorem reread_exec_follows (hs : s.Schema) (hcur : a.Current s) {row : TaskRow} (hrow : row ∈ s.tasks)
    (hpaused : row.recurringPaused = true) (hc : a.Completes row.id) :
    ((a.reread s).exec sha256 s).Rows fun r => r.key = row.key → row.Continues r := by
  have hrows : s.Rows fun r => r.key = row.key → row.Continues r := by
    intro r hr hkey
    obtain rfl : r = row := List.inj_on_of_nodup_map hs.keys hr hrow hkey
    exact ⟨rfl, rfl, fun h => h, .inl rfl⟩
  -- the record with this key is that of the row, and paused
  have hstop : ∀ task ∈ a.completes, task.key = row.key → (task.reread s).recurs = none := by
    intro task htask hkey
    obtain ⟨row', hrow', hid, hkey'⟩ := hcur.2 task htask
    obtain rfl : row' = row := List.inj_on_of_nodup_map hs.keys hrow' hrow (hkey'.trans hkey)
    refine recurs_of_paused ?_
    have hfind : s.taskById task.id = some row' := by
      rw [← hid]
      exact hs.taskById_eq hrow'
    show ((s.taskById task.id).map (·.recurringPaused)).getD task.recurringPaused = true
    rw [hfind]
    exact hpaused
  have hcompletion (tasks : List TaskRecord) (now : Int)
    (hnext : ∀ task ∈ tasks, task.key = row.key → task.recurs = none) :
      CompletionKeepsRows (fun r => r.key = row.key → row.Continues r) tasks now s := by
    refine ⟨fun r hr _ hreq inst _ hkey => (hr hkey).reset hreq inst,
      fun task htask interval hrec id inst _ hkey => ?_⟩
    have hsame : task.key = row.key := by
      split at hkey
      · exact hkey
      · exact hkey
    rw [hnext task htask hsame] at hrec
    cases hrec
  refine (a.reread s).rows_exec sha256 hs hrows ?_
  cases a with
  | complete id metrics now =>
    intro row' hrow'
    obtain rfl : row' = row := hs.eq_of_id (List.mem_of_find?_eq_some hrow') hrow
      (Eq.trans (by simpa using List.find?_some hrow') hc)
    refine hcompletion _ now fun task htask _ => ?_
    rw [List.mem_singleton.1 htask]
    exact recurs_of_paused hpaused
  | completeWithRecord task metrics now =>
    refine hcompletion _ now fun task' htask' hkey => ?_
    rw [List.mem_singleton.1 htask'] at hkey ⊢
    exact hstop task List.mem_cons_self hkey
  | completeBatch items now =>
    refine ⟨hcompletion _ now fun task' htask' hkey => ?_, fun r hr _ => ?_⟩
    · rw [List.map_map] at htask'
      obtain ⟨item, hitem, rfl⟩ := List.mem_map.1 htask'
      exact hstop item.1 (List.mem_map_of_mem hitem) hkey
    · rw [Store.freeRow]
      split
      · exact fun hkey => ⟨(hr hkey).id, (hr hkey).count, (hr hkey).marked, (hr hkey).life⟩
      · exact fun hkey => ⟨(hr hkey).id, (hr hkey).count, (hr hkey).marked, (hr hkey).life⟩
  | _ => exact hc.elim

/-- The row of this life, if it is there, belongs to a paused schedule. -/
private def PausedLife (life : Nat) (id : Int) (r : TaskRow) : Prop :=
  r.inst = life → r.id = id ∧ r.recurringPaused = true

/-- Nothing but `resume_recurring` takes the pause back. -/
private theorem pausedLife_exec (hs : s.Schema) {life : Nat} {id : Int} (hlt : life < s.nextInst)
    (hrows : s.Rows (PausedLife life id)) (hno : a ≠ .update (.setRecurringPaused id false)) :
    (a.exec sha256 s).Rows (PausedLife life id) := by
  have hnew {r : TaskRow} {inst : Nat} (hinst : r.inst = inst) (hle : s.nextInst ≤ inst) : PausedLife life id r := by
    intro hlife
    omega
  have hsub (sub : TaskSubmission) (now : Int) {σ : Store} (hσ : s.Within (PausedLife life id) σ) :
      sub.KeepsRows sha256 (PausedLife life id) now σ :=
    { pending := fun _ _ => hnew rfl hσ.next
      paused := fun _ _ => hnew rfl hσ.next
      blocked := hnew rfl hσ.next
      upgraded := fun r hr _ _ _ => hσ.rows r hr
      requeued := fun r hr _ _ => hσ.rows r hr
      superseded := fun _ _ _ _ _ => hnew rfl hσ.next
      replaced := fun _ _ _ _ _ => hnew rfl hσ.next }
  have hself : s.Within (PausedLife life id) s := ⟨hrows, hs, rfl, Nat.le_refl _⟩
  have hcompletion (tasks : List TaskRecord) (now : Int) : CompletionKeepsRows (PausedLife life id) tasks now s := by
    refine ⟨fun r _ _ _ inst hle => hnew rfl hle, fun task _ interval _ id' inst hle => ?_⟩
    split
    · exact hnew rfl hle
    · exact hnew rfl hle
  have hfree (now : Int) : FreeingKeepsRows (PausedLife life id) now s := by
    intro r hr _
    rw [Store.freeRow]
    split
    · exact hr
    · exact hr
  refine a.rows_exec sha256 hs hrows ?_
  cases a with
  | update u =>
    intro r hr hsel
    cases u with
    | setRecurringPaused id' paused =>
      intro hlife
      obtain ⟨hid, _⟩ := hrows r hr hlife
      refine ⟨hid, ?_⟩
      cases paused with
      | true => rfl
      | false =>
        have hid' : r.id = id' := by
          simp only [RowUpdate.selects, Bool.and_eq_true, beq_iff_eq] at hsel
          exact hsel.1
        rw [hid] at hid'
        rw [hid'] at hno
        exact absurd rfl hno
    | _ => exact hrows r hr
  | submitDirect sub now => exact hsub sub now hself
  | processSubmitBatch skipRequeue batch =>
    exact .of_forall fun σ m hσ => ⟨hsub m.1 m.2 hσ, fun _ => hnew rfl hσ.next⟩
  | submitChunk skipRequeue last now chunk =>
    exact .of_forall fun σ (item : Nat × TaskSubmission) hσ _ => hsub item.2 now hσ
  | claimTask id now => exact fun r hr _ _ => hrows r hr
  | popById id now => exact fun r hr _ _ => hrows r hr
  | popNextBatch limit aging now => exact fun r hr _ => hrows r hr
  | complete id metrics now => exact fun row _ => hcompletion _ now
  | completeWithRecord task metrics now => exact hcompletion _ now
  | completeBatch items now => exact ⟨hcompletion _ now, hfree now⟩
  | resolveDependents id now => exact hfree now
  | failDependents id now => exact hfree now
  | fail id error retryable maxRetries metrics backoff now =>
    exact fun r hr _ => hrows r (List.mem_of_find?_eq_some hr)
  | failWithRecord task error retryable maxRetries metrics backoff now => exact fun _ r hr _ => hrows r hr
  | recoverRunning now => exact ⟨fun r hr _ => hrows r hr, fun r hr _ _ => hrows r hr, fun r hr _ _ _ => hrows r hr⟩
  | _ => trivial

end Step

/-! ### Runs -/

section Runs

variable {sha256 : List UInt8 → String} {s : Store} {actions : List Action}

theorem stateAt_succ {n : Nat} {a : Action} (ha : actions[n]? = some a) :
    stateAt sha256 s actions (n + 1) = a.exec sha256 (stateAt sha256 s actions n) := by
  unfold stateAt execAll
  rw [List.take_add_one, ha, List.foldl_append]
  rfl

theorem stateAt_schema (hs : s.Schema) (n : Nat) : (stateAt sha256 s actions n).Schema := by
  induction n with
  | zero => exact hs
  | succ n ih =>
    cases ha : actions[n]? with
    | some a =>
      rw [stateAt_succ ha]
      exact ih.steps (a.steps sha256 _)
    | none =>
      have hlen : actions.length ≤ n := List.getElem?_eq_none_iff.1 ha
      have hsame : stateAt sha256 s actions (n + 1) = stateAt sha256 s actions n := by
        unfold stateAt
        rw [List.take_of_length_le hlen, List.take_of_length_le (by omega)]
      rw [hsame]
      exact ih

/-- From a `pause_recurring` on, the row stays paused as long as nothing resumes it. -/
private theorem pausedLife_stateAt (hs : s.Schema) {i n : Nat} {id : Int} {row : TaskRow}
    (hi : actions[i]? = some (.update (.setRecurringPaused id true))) (hin : i < n) (hn : n ≤ actions.length)
    (hno : ∀ j, i < j → j < n → actions[j]? ≠ some (.update (.setRecurringPaused id false)))
    (hrow : row ∈ (stateAt sha256 s actions i).tasks) (hid : row.id = id)
    (hrec : row.recurringIntervalSecs.isSome = true) :
    (stateAt sha256 s actions n).Rows (PausedLife row.inst id) ∧
      row.inst < (stateAt sha256 s actions n).nextInst := by
  have hschema : (stateAt sha256 s actions i).Schema := stateAt_schema hs i
  induction n with
  | zero => omega
  | succ n ih =>
    by_cases heq : i = n
    · subst heq
      rw [stateAt_succ hi]
      refine ⟨fun r hr hlife => ?_, hschema.inst_lt row hrow⟩
      -- the row of this life is the one that was paused
      obtain ⟨r₀, hr₀, rfl⟩ := List.mem_map.1 hr
      have hinst : r₀.inst = row.inst := by
        split at hlife
        · exact hlife
        · exact hlife
      obtain rfl : r₀ = row := List.inj_on_of_nodup_map hschema.insts hr₀ hrow hinst
      have hsel : (r₀.id == id && r₀.recurringIntervalSecs.isSome) = true := by simp [hid, hrec]
      rw [if_pos hsel]
      exact ⟨hid, rfl⟩
    · have hlt : i < n := by omega
      obtain ⟨hpaused, hnext⟩ := ih hlt (by omega) fun j hj hjn => hno j hj (by omega)
      obtain ⟨a, ha⟩ : ∃ a, actions[n]? = some a := by
        rw [List.getElem?_eq_getElem (by omega)]
        exact ⟨_, rfl⟩
      have hne : a ≠ .update (.setRecurringPaused id false) := by
        intro h
        rw [h] at ha
        exact hno n hlt (by omega) ha
      have hn' : (stateAt sha256 s actions n).Schema := stateAt_schema hs n
      rw [stateAt_succ ha]
      exact ⟨pausedLife_exec hn' hnext hpaused hne, Nat.lt_of_lt_of_le hnext (a.steps sha256 _).nextInst_le⟩

end Runs

/-- In every run whose completions bring records that are not out of date, the pauses of recurring schedules are
honoured. -/
theorem recurring_pauses_honoured (sha256 : List UInt8 → String) (s : Store) (hfresh : s.Fresh)
    (actions : List Action) (hcurrent : Along (fun s a => a.exec sha256 s) (fun s a => a.Current s) s actions)
    (hup : Along (fun s a => a.exec sha256 s) (fun s a => a.UpToDate s) s actions) :
    PausesHonoured sha256 s actions := by
  rw [Along.iff_getElem] at hcurrent hup
  have hschema : ∀ n, (stateAt sha256 s actions n).Schema := stateAt_schema hfresh.schema
  have hdecides : ∀ n (a : Action), actions[n]? = some a → a.exec sha256 (stateAt sha256 s actions n) =
      (a.reread (stateAt sha256 s actions n)).exec sha256 (stateAt sha256 s actions n) :=
    fun n a ha => Action.exec_reread (hschema n) (hcurrent n a ha) (hup n a ha)
  refine ⟨hdecides, fun i n id row row' a hin hi hno hrow hid hrec hrow' hlife ha hc r hr hkey => ?_⟩
  have hn : n < actions.length := (List.getElem?_eq_some_iff.1 ha).1
  have hpaused : (stateAt sha256 s actions n).Rows (PausedLife row.inst id) :=
    (pausedLife_stateAt hfresh.schema hi hin (by omega) hno hrow hid hrec).1
  obtain ⟨hid', hpaused'⟩ := hpaused row' hrow' hlife
  rw [stateAt_succ ha, hdecides n a ha] at hr
  rw [← hid'] at hc
  have hfollows := reread_exec_follows (hschema n) (hcurrent n a ha) hrow' hpaused' hc r hr hkey
  rcases hfollows.life with hinst | hreq
  · exact .inl hinst
  · exact .inr ⟨hreq, hfollows.id, hfollows.count⟩

/-- A task that recurs every minute. -/
private def minutely : TaskSubmission :=
  { TaskSubmission.new "a" with
    recurring := some { interval := ⟨60000000000⟩, initialDelay := none, maxExecutions := none } }

/-- Its record after the first dispatch. -/
private def minutelyRecord : TaskRecord :=
  rowToTaskRecord { minutely.newRow (sampleSha256 [97, 58]) 0 with id := 1, status := .running, startedAt := some 0 }

private theorem current_of_nil {s : Store} {a : Action} (h : a.completes = []) : a.Current s := by
  unfold Action.Current
  rw [h]
  exact ⟨List.nodup_nil, fun task htask => absurd htask List.not_mem_nil⟩

private theorem upToDate_of_nil {s : Store} {a : Action} (h : a.completes = []) : a.UpToDate s := by
  unfold Action.UpToDate
  rw [h]
  exact fun task htask => absurd htask List.not_mem_nil

/-- The schedule is paused before the task is dispatched. -/
private def pausedBefore : List Action :=
  [.submitDirect minutely 0, .update (.setRecurringPaused 1 true), .claimTask 1 0,
    .completeWithRecord (minutelyRecord.withPaused true) {} 5]

theorem pausedBefore_honoured : (execAll sampleSha256 openMemory pausedBefore).tasks = [] ∧
    PausesHonoured sampleSha256 openMemory pausedBefore := by
  refine ⟨by decide +kernel, recurring_pauses_honoured sampleSha256 openMemory openMemory_fresh _ ?_ ?_⟩
  · refine ⟨current_of_nil rfl, current_of_nil rfl, current_of_nil rfl, ⟨by decide, fun task htask => ?_⟩, trivial⟩
    rw [List.mem_singleton.1 htask]
    decide +kernel
  · refine ⟨upToDate_of_nil rfl, upToDate_of_nil rfl, upToDate_of_nil rfl, fun task htask row hrow _ =>
      .inl ?_, trivial⟩
    obtain rfl := List.mem_singleton.1 htask
    clear htask
    revert row
    decide +kernel

/-- The schedule is paused while the task runs, and the completion brings the record of the dispatch. -/
private def pausedMeanwhile : List Action :=
  [.submitDirect minutely 0, .claimTask 1 0, .update (.setRecurringPaused 1 true),
    .completeWithRecord minutelyRecord {} 5]

/-- There is a next instance although the schedule is paused. -/
theorem paused_schedule_goes_on :
    ¬ ∀ (sha256 : List UInt8 → String) (s : Store) (actions : List Action), s.Fresh →
      Along (fun s a => a.exec sha256 s) (fun s a => a.Current s) s actions → PausesHonoured sha256 s actions := by
  intro h
  have hcurrent : Along (fun s a => Action.exec sampleSha256 s a) (fun s a => a.Current s) openMemory
      pausedMeanwhile := by
    refine ⟨current_of_nil rfl, current_of_nil rfl, current_of_nil rfl, ⟨by decide, fun task htask => ?_⟩, trivial⟩
    rw [List.mem_singleton.1 htask]
    decide +kernel
  have hends := (h sampleSha256 openMemory _ openMemory_fresh hcurrent).decides 3 _ rfl
  have hcount := congrArg (fun s : Store => s.tasks.length) hends
  exact absurd hcount (by decide +kernel)

end Taskmill
