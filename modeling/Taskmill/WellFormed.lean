import Taskmill.Rows

/-!
# Well-formed rows

The columns of a row that belong together stay together: `started_at` with the status `running`, `requeue_priority`
with `requeue`, and a recurring row has no parent.  No statement breaks this, whatever the order of the operations,
as long as the records that come back to the store are copies of rows it has had (`rows_wellFormed`).

What fails is the last conclusion drawn from the distinct keys.  `complete_inner` deletes a row by its id and
inserts the next instance under the key of the *record*, and the two can belong to different tasks: SQLite hands out
the id of a deleted row again, so the record of a task that has been cancelled may name the row of another one.  The
pile-up check looks for a pending row only.
-/

namespace Taskmill

open Transact

structure TaskRow.WellFormed (r : TaskRow) : Prop where
  started : r.startedAt.isSome = true ↔ r.status = .running
  requeue : r.requeuePriority.isSome = true ↔ r.requeue = true
  recurring : r.recurringIntervalSecs.isSome = true → r.parentId = none
  priority : r.priority.toNat ≤ 255
  requeuePriority : ∀ p ∈ r.requeuePriority, p.toNat ≤ 255

structure Store.WellFormed (s : Store) : Prop where
  rows : s.Rows TaskRow.WellFormed
  keys : (s.tasks.map (·.key)).Nodup

/-! ### Single rows -/

section Rows

variable {r : TaskRow} {s : Store} {sha256 : List UInt8 → String}

theorem Priority.toNat_le (p : Priority) : p.toNat ≤ 255 := Nat.le_of_lt_succ p.toNat_lt

private theorem not_started {st : TaskStatus} (h : st ≠ .running) : (none : Option Int).isSome = true ↔
    st = .running :=
  iff_of_false nofun h

namespace TaskRow.WellFormed

theorem startedAt_eq_none (h : r.WellFormed) (hst : r.status ≠ .running) : r.startedAt = none := by
  rw [← Option.not_isSome_iff_eq_none]
  exact fun hs => hst (h.started.1 hs)

/-- Changes of the status and of `started_at`. -/
theorem restart (h : r.WellFormed) {r' : TaskRow} (hst : r'.startedAt.isSome = true ↔ r'.status = .running)
    (hflag : r'.requeue = r.requeue) (hprio : r'.requeuePriority = r.requeuePriority)
    (hrec : r'.recurringIntervalSecs = r.recurringIntervalSecs) (hparent : r'.parentId = r.parentId) :
    r'.WellFormed where
  started := hst
  requeue := by rw [hflag, hprio]; exact h.requeue
  recurring := by rw [hrec, hparent]; exact h.recurring
  priority := Priority.toNat_le _
  requeuePriority p _ := Priority.toNat_le p

/-- The row neither runs nor has a start. -/
theorem rest (h : r.WellFormed) {r' : TaskRow} (hst : r'.status ≠ .running) (hstart : r'.startedAt = none)
    (hflag : r'.requeue = r.requeue) (hprio : r'.requeuePriority = r.requeuePriority)
    (hrec : r'.recurringIntervalSecs = r.recurringIntervalSecs) (hparent : r'.parentId = r.parentId) :
    r'.WellFormed :=
  h.restart (by rw [hstart]; exact not_started hst) hflag hprio hrec hparent

end TaskRow.WellFormed

/-- A row that is new, or new under its id: nothing is started, and nothing requeued. -/
private theorem wellFormed_new (hst : r.status ≠ .running) (hstart : r.startedAt = none) (hflag : r.requeue = false)
    (hprio : r.requeuePriority = none) (hrec : r.recurringIntervalSecs.isSome = true → r.parentId = none) :
    r.WellFormed where
  started := by rw [hstart]; exact not_started hst
  requeue := by rw [hflag, hprio]; exact iff_of_false nofun nofun
  recurring := hrec
  priority := Priority.toNat_le _
  requeuePriority p _ := Priority.toNat_le p

private theorem wellFormed_update {u : RowUpdate} (h : r.WellFormed) (hsel : u.selects r = true) :
    (u.change r).WellFormed := by
  cases u with
  | requeue id => exact h.rest nofun rfl rfl rfl rfl rfl
  | setRunAfter id runAfter => exact h.restart h.started rfl rfl rfl rfl
  | incrementRetry id error => exact h.restart h.started rfl rfl rfl rfl
  | requeueForRetry id error delay now => exact h.rest nofun rfl rfl rfl rfl rfl
  | pause id reason now => exact h.rest nofun rfl rfl rfl rfl rfl
  | resume id now =>
    simp only [RowUpdate.selects, Bool.and_eq_true, beq_iff_eq] at hsel
    exact h.rest nofun (h.startedAt_eq_none (by rw [hsel.2]; nofun)) rfl rfl rfl rfl
  | resumeSole sel reason now =>
    simp only [RowUpdate.selects, Bool.and_eq_true, beq_iff_eq] at hsel
    exact h.rest nofun (h.startedAt_eq_none (by rw [hsel.1.2]; nofun)) rfl rfl rfl rfl
  | clearBit sel reason => exact h.restart h.started rfl rfl rfl rfl
  | addGroupBit group => exact h.restart h.started rfl rfl rfl rfl
  | pausePendingInGroup group now =>
    simp only [RowUpdate.selects, Bool.and_eq_true, beq_iff_eq] at hsel
    exact h.rest nofun (h.startedAt_eq_none (by rw [hsel.2]; nofun)) rfl rfl rfl rfl
  | pausePendingByTypePrefix like now =>
    simp only [RowUpdate.selects, Bool.and_eq_true, Bool.or_eq_true, beq_iff_eq] at hsel
    refine h.rest nofun (h.startedAt_eq_none ?_) rfl rfl rfl rfl
    rcases hsel.2 with hst | hst
    · rw [hst]; nofun
    · rw [hst]; nofun
  | setWaiting id memo => exact h.rest nofun rfl rfl rfl rfl rfl
  | setRunningForFinalize id now => exact h.restart (iff_of_true rfl rfl) rfl rfl rfl rfl
  | setRecurringPaused id paused => exact h.restart h.started rfl rfl rfl rfl

/-- A submission that passes the checks is not both recurring and a child. -/
theorem TaskSubmission.parentId_of_validate {sub : TaskSubmission} (h : sub.validate = .ok ())
    (hrec : sub.recurring.isSome = true) :
    sub.parentId = none := by
  rw [← Option.not_isSome_iff_eq_none]
  intro hparent
  rw [TaskSubmission.validate] at h
  split at h
  · cases h
  · split at h
    · cases h
    · rw [hrec, hparent, if_pos (by rfl)] at h
      cases h

private theorem wellFormed_newRow {sub : TaskSubmission} (hv : sub.validate = .ok ()) (key : String) (now id : Int)
    (inst : Nat) (st : TaskStatus) (hst : st ≠ .running) :
    ({ sub.newRow key now with id := id, inst := inst, status := st } : TaskRow).WellFormed := by
  refine wellFormed_new hst rfl rfl rfl fun hrec => sub.parentId_of_validate hv ?_
  have hmap : (sub.recurring.map fun r => asI64 r.interval.asSecs).isSome = true := hrec
  rwa [Option.isSome_map] at hmap

private theorem wellFormed_submission {sub : TaskSubmission} {now : Int} (hv : sub.validate = .ok ())
    (hs : s.Rows TaskRow.WellFormed) : sub.KeepsRows sha256 TaskRow.WellFormed now s where
  pending _ _ := wellFormed_newRow hv _ now _ _ .pending nofun
  paused _ _ := by
    have hnew := wellFormed_newRow hv (sub.effectiveKey sha256) now s.nextTaskId s.nextInst .pending nofun
    exact hnew.rest nofun rfl rfl rfl rfl rfl
  blocked := wellFormed_newRow hv _ now _ _ .blocked nofun
  upgraded r hr _ _ _ := (hs r hr).restart (hs r hr).started rfl rfl rfl rfl
  requeued r hr _ _ :=
    { started := (hs r hr).started
      requeue := iff_of_true rfl rfl
      recurring := (hs r hr).recurring
      priority := Priority.toNat_le _
      requeuePriority := fun p _ => Priority.toNat_le p }
  superseded _ r hr _ hst := by
    refine wellFormed_new nofun ((hs r hr).startedAt_eq_none ?_) rfl rfl (hs r hr).recurring
    rcases hst with hst | hst | hst
    · rw [hst]; nofun
    · rw [hst]; nofun
    · rw [hst]; nofun
  replaced _ _ _ _ _ := wellFormed_new nofun rfl rfl rfl nofun

private theorem wellFormed_completion {tasks : List TaskRecord} {now : Int}
    (hrec : ∀ task ∈ tasks, task.recurringIntervalSecs.isSome = true → task.parentId = none) :
    CompletionKeepsRows TaskRow.WellFormed tasks now s where
  reset r hr _ _ inst _ := wellFormed_new nofun rfl rfl rfl hr.recurring
  next task htask interval _ id inst _ := by
    split
    · exact wellFormed_new nofun rfl rfl rfl (hrec task htask)
    · exact wellFormed_new nofun rfl rfl rfl (hrec task htask)

private theorem wellFormed_freeing (now : Int) : FreeingKeepsRows TaskRow.WellFormed now s := by
  intro r hr hst
  have hstart : r.startedAt = none := hr.startedAt_eq_none (by rw [hst]; rintro ⟨⟩)
  rw [Store.freeRow]
  split
  · exact hr.rest (by rintro ⟨⟩) hstart rfl rfl rfl rfl
  · exact hr.rest (by rintro ⟨⟩) hstart rfl rfl rfl rfl

end Rows

/-! ### Whole steps -/

section Steps

variable {s : Store} {sha256 : List UInt8 → String}

/-- Submissions that do not pass the checks leave no trace. -/
private theorem submitEach_valid (skipRequeue : Bool) (batch : List (TaskSubmission × Int)) (s : Store) :
    (submitEach sha256 skipRequeue (batch.filter fun m => m.1.validate.toBool) s).2 =
      (submitEach sha256 skipRequeue batch s).2 := by
  induction batch generalizing s with
  | nil => rfl
  | cons m batch ih =>
    cases hv : m.1.validate with
    | ok u =>
      rw [List.filter_cons_of_pos (by rw [hv]; rfl)]
      exact ih _
    | error e =>
      rw [List.filter_cons_of_neg (by rw [hv]; nofun), ih]
      show _ = (submitEach sha256 skipRequeue batch (submitOne sha256 m.1 skipRequeue m.2 s).2).2
      rw [submitOne_invalid hv]

private theorem valid_of_toBool {r : Except StoreError Unit} (h : r.toBool = true) : r = .ok () := by
  cases r with
  | ok u => rfl
  | error e => cases h

/-- The records that a completion brings back. -/
def Action.completes : Action → List TaskRecord
  | .completeWithRecord task _ _ => [task]
  | .completeBatch items _ => items.map (·.1)
  | _ => []

/-- Every step keeps the rows well-formed if the records it is given are. -/
theorem Action.wellFormed_exec (sha256 : List UInt8 → String) (hschema : s.Schema) (hs : s.Rows TaskRow.WellFormed)
    (a : Action) (hrec : ∀ task ∈ a.completes, task.recurringIntervalSecs.isSome = true → task.parentId = none) :
    (a.exec sha256 s).Rows TaskRow.WellFormed := by
  have hkeeps : ∀ a : Action, a.KeepsRows sha256 TaskRow.WellFormed s → (a.exec sha256 s).Rows TaskRow.WellFormed :=
    fun a hk => a.rows_exec sha256 hschema hs hk
  have hclaim : ∀ r ∈ s.tasks, ∀ now, (r.claim now).WellFormed :=
    fun r hr now => (hs r hr).restart (iff_of_true rfl rfl) rfl rfl rfl rfl
  have hretry : ∀ r ∈ s.tasks, ∀ error delay now, (r.retry error delay now).WellFormed :=
    fun r hr error delay now => (hs r hr).rest (by rintro ⟨⟩) rfl rfl rfl rfl rfl
  cases a with
  | update u => exact hkeeps _ fun r hr hsel => wellFormed_update (hs r hr) hsel
  | submitDirect sub now =>
    cases hv : sub.validate with
    | ok u => exact hkeeps _ (wellFormed_submission hv hs)
    | error e =>
      have hnone : Taskmill.submitDirect sha256 sub now s = (.error e, s.rollback s) :=
        Txn.atomically_of_error (submitOne_invalid hv)
      rw [Action.exec, hnone]
      exact hs.congr rfl
  | processSubmitBatch skipRequeue batch =>
    have hvalid : (submitEach sha256 skipRequeue (batch.filter fun m => m.1.validate.toBool) s).2.Rows
        TaskRow.WellFormed := by
      refine hkeeps (.processSubmitBatch skipRequeue (batch.filter fun m => m.1.validate.toBool))
        (Along.of_mem fun σ m hm hσ => ?_)
      have hv := valid_of_toBool (List.mem_filter.1 hm).2
      exact ⟨wellFormed_submission hv hσ.rows, fun _ => wellFormed_newRow hv _ _ _ _ .pending (by rintro ⟨⟩)⟩
    rw [submitEach_valid] at hvalid
    exact hvalid
  | submitChunk skipRequeue last now chunk =>
    rcases h : Taskmill.submitChunk sha256 skipRequeue last now chunk s with ⟨e | outcomes, s'⟩
    · obtain ⟨s₁, _, rfl⟩ := transaction_error h
      rw [Action.exec, h]
      exact hs.congr rfl
    · -- a chunk that is committed has no item that was refused
      refine hkeeps _ (Along.of_mem fun σ item hitem hσ hlast => wellFormed_submission ?_ hσ.rows)
      obtain ⟨outcome, s₁, s₂, hone⟩ := Txn.mapList_ok (transaction_ok h) item hitem
      rw [submitItem, if_pos hlast] at hone
      cases hv : item.2.validate with
      | ok u => rfl
      | error e =>
        rw [submitOne_invalid hv] at hone
        cases hone
  | claimTask id now => exact hkeeps _ fun r hr _ _ => hclaim r hr now
  | popById id now => exact hkeeps _ fun r hr _ _ => hclaim r hr now
  | popNextBatch limit aging now => exact hkeeps _ fun r hr _ => hclaim r hr now
  | complete id metrics now =>
    refine hkeeps _ fun row hrow => wellFormed_completion fun task htask => ?_
    rw [List.mem_singleton.1 htask]
    exact (hs row (List.mem_of_find?_eq_some hrow)).recurring
  | completeWithRecord task metrics now => exact hkeeps _ (wellFormed_completion hrec)
  | completeBatch items now => exact hkeeps _ ⟨wellFormed_completion hrec, wellFormed_freeing now⟩
  | resolveDependents id now => exact hkeeps _ (wellFormed_freeing now)
  | failDependents id now => exact hkeeps _ (wellFormed_freeing now)
  | fail id error retryable maxRetries metrics backoff now =>
    exact hkeeps _ fun r hrow _ => hretry r (List.mem_of_find?_eq_some hrow) _ _ _
  | failWithRecord task error retryable maxRetries metrics backoff now =>
    exact hkeeps _ fun _ r hr _ => hretry r hr _ _ _
  | recoverRunning now =>
    refine hkeeps _ ⟨fun r hr _ => ?_, fun r hr _ _ => ?_, fun r hr hst _ _ => ?_⟩
    · exact (hs r hr).rest (by rintro ⟨⟩) rfl rfl rfl rfl rfl
    · exact (hs r hr).restart (hs r hr).started rfl rfl rfl rfl
    · exact (hs r hr).rest (by rintro ⟨⟩) ((hs r hr).startedAt_eq_none (by rw [hst]; rintro ⟨⟩)) rfl rfl rfl rfl
  | failBatch items now => exact hkeeps _ trivial
  | cancelToHistory id now => exact hkeeps _ trivial
  | cancelToHistoryWithRecord task now => exact hkeeps _ trivial
  | cancelChildren parent read now => exact hkeeps _ trivial
  | expireTasks now => exact hkeeps _ trivial
  | expireSingle id now => exact hkeeps _ trivial
  | pauseGroupState group resumeAt now => exact hkeeps _ trivial
  | resumeGroupState group => exact hkeeps _ trivial
  | delete id => exact hkeeps _ trivial
  | deleteHistory historyId => exact hkeeps _ trivial
  | pruneHistoryByAge days now => exact hkeeps _ trivial
  | pruneHistoryByCount keep => exact hkeeps _ trivial
  | maybePrune now => exact hkeeps _ trivial

end Steps

/-! ### The `INSERT` of the next instance -/

/-- The next instance of the task meets its key: the row that is deleted has another one, and a row that is not
pending has it. -/
def Store.KeyTaken (s : Store) (skipTags : Bool) (task : TaskRecord) : Prop :=
  ¬ s.LogFails skipTags task.id ∧ task.recurs ≠ none ∧
    (∃ r ∈ s.tasks, r.id = task.id ∧ r.requeue = false ∧ r.key ≠ task.key) ∧
    ∃ r ∈ s.tasks, r.key = task.key ∧ r.status ≠ .pending

section Insert

variable {s : Store} {task : TaskRecord} {metrics : IoBudget} {skipTags : Bool} {now : Int}

private theorem taskHistoryTagsError_ne : taskHistoryTagsError ≠ taskKeyError := by decide +kernel

private theorem taskTagsError_ne : taskTagsError ≠ taskKeyError := by decide +kernel

private theorem createNextInstance_key_iff {tags : List (String × String)} {interval : Int} :
    (createNextInstance task tags interval now s).1 = .error taskKeyError ↔
      s.piledUp task.key = false ∧ s.taskByKey task.key ≠ none := by
  by_cases hp : s.piledUp task.key = true
  · rw [createNextInstance_piledUp hp]
    simp [hp]
  · rw [Bool.not_eq_true] at hp
    by_cases hk : s.taskByKey task.key = none
    · refine iff_of_false (fun h => ?_) (fun h => h.2 hk)
      by_cases ht : s.TagsRefused s.nextTaskId tags
      · obtain ⟨s', herr⟩ : ∃ s', createNextInstance task tags interval now s = (.error taskTagsError, s') :=
          createNextInstance_tagsRefused hp hk ht
        rw [herr] at h
        exact taskTagsError_ne (Except.error.inj h)
      · rw [createNextInstance_ok hp hk ht] at h
        cases h
    · rw [createNextInstance_keyTaken hp hk]
      exact iff_of_true rfl ⟨hp, hk⟩

/-- The rows without the one that a completion deletes. -/
private theorem mem_completeRow (hd : s.deletable task.id = true) {r : TaskRow} :
    r ∈ (s.completeRow skipTags now (task, metrics)).tasks ↔
      r ∈ s.tasks ∧ ¬ (r.id = task.id ∧ r.requeue = false) := by
  have hdel : (s.logCompleted skipTags now (task, metrics)).deletable task.id = true := hd
  have htasks : (s.completeRow skipTags now (task, metrics)).tasks =
      s.tasks.filter fun r => !(r.id == task.id && !r.requeue) := by
    rw [Store.completeRow, Store.finishRow, if_pos hdel]
    split
    · rfl
    · rfl
  rw [htasks, List.mem_filter]
  simp [imp_iff_not_or]

/-- After the deletion of a row the key of the record is taken by a row that is not pending: the deleted row had
another key. -/
private theorem taken_completeRow_iff (hkeys : (s.tasks.map (·.key)).Nodup) (hids : s.ids.Nodup)
    (hd : s.deletable task.id = true) :
    ((s.completeRow skipTags now (task, metrics)).piledUp task.key = false ∧
      (s.completeRow skipTags now (task, metrics)).taskByKey task.key ≠ none) ↔
    (∃ r ∈ s.tasks, r.id = task.id ∧ r.requeue = false ∧ r.key ≠ task.key) ∧
      ∃ r ∈ s.tasks, r.key = task.key ∧ r.status ≠ .pending := by
  obtain ⟨d, hdmem, hdsel⟩ := List.any_eq_true.1 hd
  simp only [Bool.and_eq_true, beq_iff_eq, Bool.not_eq_true'] at hdsel
  constructor
  · rintro ⟨hp, hk⟩
    obtain ⟨r, hr⟩ := Option.ne_none_iff_exists'.1 hk
    have hmem := List.mem_of_find?_eq_some hr
    have hkey : r.key = task.key := by simpa using List.find?_some hr
    obtain ⟨hrs, hrest⟩ := (mem_completeRow hd).1 hmem
    refine ⟨⟨d, hdmem, hdsel.1, hdsel.2, fun hdkey => ?_⟩, r, hrs, hkey, fun hst => ?_⟩
    · rw [List.inj_on_of_nodup_map hkeys hdmem hrs (hdkey.trans hkey.symm)] at hdsel
      exact hrest hdsel
    · rw [Store.piledUp, List.any_eq_false] at hp
      exact hp r hmem (by simp [hkey, hst])
  · rintro ⟨⟨r₁, hr₁, hid, hreq, hne⟩, r₂, hr₂, hkey, hst⟩
    have hmem : r₂ ∈ (s.completeRow skipTags now (task, metrics)).tasks := by
      refine (mem_completeRow hd).2 ⟨hr₂, fun hsel => hne ?_⟩
      rw [List.inj_on_of_nodup_map hids hr₁ hr₂ (hid.trans hsel.1.symm)]
      exact hkey
    constructor
    · rw [Store.piledUp, List.any_eq_false]
      intro r hr hsel
      simp only [Bool.and_eq_true, beq_iff_eq] at hsel
      have heq : r = r₂ := List.inj_on_of_nodup_map hkeys ((mem_completeRow hd).1 hr).1 hr₂ (hsel.1.trans hkey.symm)
      rw [heq] at hsel
      exact hst hsel.2
    · intro hnone
      exact List.find?_eq_none.1 hnone r₂ hmem (by simpa using hkey)

private theorem completeInner_key_iff (hs : s.Schema) :
    (completeInner task metrics skipTags now s).1 = .error taskKeyError ↔ s.KeyTaken skipTags task := by
  by_cases hlog : s.LogFails skipTags task.id
  · refine iff_of_false (fun h => ?_) (fun h => h.1 hlog)
    obtain ⟨s', herr⟩ := insertHistory_fails hlog .completed metrics (computeDurationMs now task) task.lastError now
    rw [completeInner, Txn.bind_of_error herr] at h
    exact taskHistoryTagsError_ne (Except.error.inj h)
  · rw [completeInner_apply _ _ _ _ _ hlog, Store.KeyTaken]
    cases hrec : task.recurs with
    | none => simp
    | some interval =>
      dsimp only
      by_cases hd : s.deletable task.id = true
      · rw [if_pos hd, createNextInstance_key_iff, taken_completeRow_iff hs.keys hs.ids hd]
        simp [hlog]
      · rw [if_neg hd]
        refine iff_of_false (by rintro ⟨⟩) fun h => hd ?_
        obtain ⟨r, hr, hid, hreq, _⟩ := h.2.2.1
        exact List.any_eq_true.2 ⟨r, hr, by simp [hid, hreq]⟩

private theorem completeAndResolve_key_iff (hs : s.Schema) :
    (completeAndResolve skipTags now (task, metrics) s).1 = .error taskKeyError ↔ s.KeyTaken skipTags task := by
  have hinner : (completeInner task metrics skipTags now s).1 = .error taskKeyError ↔ s.KeyTaken skipTags task :=
    completeInner_key_iff hs
  rw [← hinner, completeAndResolve]
  rcases h : completeInner task metrics skipTags now s with ⟨e | result, s₁⟩
  · rw [Txn.bind_of_error h]
    simp
  · obtain ⟨unblocked, s₂, h₂, _⟩ := resolveDependentsInner_ok task.id now s₁
    rw [Txn.bind_of_ok h, Txn.bind_of_ok h₂]
    exact iff_of_false nofun nofun

/-- The errors of a history row. -/
private theorem insertHistory_error_ne {status : HistoryStatus} {durationMs : Option Int} {lastError : Option String}
    {s' : Store} : insertHistory task status metrics durationMs lastError skipTags now s ≠
      (.error taskKeyError, s') := by
  intro h
  by_cases hlog : s.LogFails skipTags task.id
  · obtain ⟨s₁, herr⟩ := insertHistory_fails hlog status metrics durationMs lastError now
    rw [herr] at h
    exact taskHistoryTagsError_ne (Except.error.inj (congrArg Prod.fst h))
  · rw [insertHistory_logs hlog] at h
    cases h

/-- The batched path inserts no row. -/
private theorem completeBatchFast_error_ne {items : List (TaskRecord × IoBudget)} :
    (completeBatchFast skipTags now items s).1 ≠ .error taskKeyError := by
  intro h
  rcases hx : completeBatchFast skipTags now items s with ⟨e | unblocked, s'⟩
  · rw [hx] at h
    obtain rfl : e = taskKeyError := Except.error.inj h
    rcases Txn.bind_error hx with hx | ⟨us, s₁, _, hx⟩
    · obtain ⟨item, _, s₂, hitem⟩ := Txn.mapList_error hx
      exact insertHistory_error_ne hitem
    · -- the statements after the history rows do not fail
      obtain ⟨_, _, h₁, hx⟩ := (Txn.bind_error hx).resolve_left Txn.ok_ne_error
      obtain ⟨_, _, h₂, hx⟩ := (Txn.bind_error hx).resolve_left Txn.ok_ne_error
      obtain ⟨_, _, h₃, hx⟩ := (Txn.bind_error hx).resolve_left Txn.ok_ne_error
      obtain ⟨_, _, h₄, hx⟩ := (Txn.bind_error hx).resolve_left Txn.ok_ne_error
      split at hx
      · cases hx
      · cases hx
  · rw [hx] at h
    cases h

end Insert

/-- No task of the batch meets its key when its turn comes. -/
def KeysFree (skipTags : Bool) (now : Int) : List (TaskRecord × IoBudget) → Store → Prop
  | [], _ => True
  | item :: items, s =>
    ¬ s.KeyTaken skipTags item.1 ∧
      ∀ result s', completeAndResolve skipTags now item s = (.ok result, s') → KeysFree skipTags now items s'

private theorem mapList_key_iff {skipTags : Bool} {now : Int} (items : List (TaskRecord × IoBudget)) {s : Store}
    (hs : s.Schema) : (Txn.mapList (completeAndResolve skipTags now) items s).1 = .error taskKeyError ↔
      ¬ KeysFree skipTags now items s := by
  induction items generalizing s with
  | nil => exact iff_of_false (by rintro ⟨⟩) (not_not.2 trivial)
  | cons item items ih =>
    have hfirst : (completeAndResolve skipTags now item s).1 = .error taskKeyError ↔ s.KeyTaken skipTags item.1 :=
      completeAndResolve_key_iff hs
    rw [KeysFree, not_and_or, not_not, ← hfirst]
    rcases h : completeAndResolve skipTags now item s with ⟨e | result, s₁⟩
    · rw [Txn.mapList, Txn.bind_of_error h]
      simp
    · have hs₁ : s₁.Schema := by
        have hsteps : Steps true s (completeAndResolve skipTags now item s).2 := steps_completeAndResolve item s
        rw [h] at hsteps
        exact hs.steps hsteps
      rw [Txn.mapList, Txn.bind_of_ok h]
      have hrest : ((do let ys ← Txn.mapList (completeAndResolve skipTags now) items; pure (result :: ys) :
          Sql (List (Int × Option (Int × Int) × List Int))) s₁).1 = .error taskKeyError ↔
            (Txn.mapList (completeAndResolve skipTags now) items s₁).1 = .error taskKeyError := by
        rcases h₂ : Txn.mapList (completeAndResolve skipTags now) items s₁ with ⟨e | ys, s₂⟩
        · rw [Txn.bind_of_error h₂]
        · rw [Txn.bind_of_ok h₂]
          exact iff_of_false (by rintro ⟨⟩) (by rintro ⟨⟩)
      rw [hrest, ih hs₁]
      simp


/-- The operation fails because the next instance meets its key. -/
def Action.HitsKey (s : Store) : Action → Prop
  | .complete id metrics now => (completeTx id metrics now s).1 = .error taskKeyError
  | .completeWithRecord task metrics now => (completeWithRecordTx task metrics now s).1 = .error taskKeyError
  | .completeBatch items now => (completeBatchTx items now s).1 = .error taskKeyError
  | _ => False

/-- No completion of the step is one of a recurring task whose id belongs to a row with another key while a row that
is not pending has its own. -/
def Action.KeysFree (s : Store) : Action → Prop
  | .completeWithRecord task _ _ => ¬ s.KeyTaken (!s.hasTags) task
  | .completeBatch items now => Taskmill.KeysFree (!s.hasTags) now items s
  | _ => True

section Operations

variable {s : Store}

private theorem transaction_error_iff {α : Type} {x : Sql α} {e : StoreError} :
    (transaction x s).1 = .error e ↔ (x s).1 = .error e := by
  rcases h : transaction x s with ⟨e' | a, s'⟩
  · obtain ⟨s₁, hx, _⟩ := transaction_error h
    rw [hx]
  · rw [transaction_ok h]

private theorem keysFree_of_not_recurring {skipTags : Bool} {now : Int} {items : List (TaskRecord × IoBudget)}
    (h : ∀ item ∈ items, item.1.recurringIntervalSecs = none) (s : Store) : KeysFree skipTags now items s := by
  induction items generalizing s with
  | nil => trivial
  | cons item items ih =>
    refine ⟨fun htaken => htaken.2.1 ?_, fun _ s' _ => ih (fun i hi => h i (List.mem_cons_of_mem _ hi)) s'⟩
    rw [TaskRecord.recurs, h item (List.mem_cons_self ..)]

private theorem bind_pure_error_iff {α β : Type} {x : Sql α} {f : α → β} {e : StoreError} :
    ((do let a ← x; pure (f a) : Sql β) s).1 = .error e ↔ (x s).1 = .error e := by
  rcases h : x s with ⟨e' | a, s₁⟩
  · rw [Txn.bind_of_error h]
    simp
  · rw [Txn.bind_of_ok h]
    exact iff_of_false nofun nofun

/-- A completion that reads its row never meets the key of another one. -/
private theorem complete_hitsKey (hs : s.Schema) (id : Int) (metrics : IoBudget) (now : Int) :
    (completeTx id metrics now s).1 ≠ .error taskKeyError := by
  intro h
  have hbody := transaction_error_iff.1 h
  cases hrow : s.taskById id with
  | none =>
    simp only [hrow] at hbody
    cases hbody
  | some row =>
    simp only [hrow] at hbody
    have hinner := bind_pure_error_iff.1 hbody
    obtain ⟨_, _, ⟨r, hr, hid, _, hne⟩, _⟩ := (completeInner_key_iff hs).1 hinner
    exact hne (congrArg TaskRow.key (hs.eq_of_id hr (List.mem_of_find?_eq_some hrow) hid))

/-- A batch fails at the first task that meets its key. -/
private theorem completeBatchTx_key_iff (hs : s.Schema) (items : List (TaskRecord × IoBudget)) (now : Int) :
    (completeBatchTx items now s).1 = .error taskKeyError ↔ ¬ KeysFree (!s.hasTags) now items s := by
  rw [completeBatchTx.eq_def]
  split
  · exact iff_of_false (by rintro ⟨⟩) (not_not.2 trivial)
  · rename_i task metrics
    refine bind_pure_error_iff.trans (transaction_error_iff.trans ?_)
    rw [KeysFree, not_and_or, not_not]
    refine (completeAndResolve_key_iff hs).trans ⟨.inl, fun h => h.resolve_right fun hrest => ?_⟩
    exact hrest fun _ _ _ => trivial
  · split
    · exact transaction_error_iff.trans (mapList_key_iff items hs)
    · rename_i hrec
      refine bind_pure_error_iff.trans (transaction_error_iff.trans (iff_of_false completeBatchFast_error_ne ?_))
      refine not_not.2 (keysFree_of_not_recurring (fun item hitem => ?_) s)
      rw [← Option.not_isSome_iff_eq_none]
      exact fun hsome => hrec (List.any_eq_true.2 ⟨item, hitem, hsome⟩)

theorem Action.hitsKey_iff (hs : s.Schema) (a : Action) : a.HitsKey s ↔ ¬ a.KeysFree s := by
  cases a with
  | complete id metrics now => exact iff_of_false (complete_hitsKey hs id metrics now) (not_not.2 trivial)
  | completeWithRecord task metrics now =>
    exact transaction_error_iff.trans ((completeInner_key_iff hs).trans not_not.symm)
  | completeBatch items now => exact completeBatchTx_key_iff hs items now
  | _ => exact iff_of_false id (not_not.2 trivial)

end Operations

/-! ### Runs -/

/-- The store and the rows that it has had, which are what its callers hold copies of. -/
structure Served where
  store : Store
  rows : List TaskRow

def Served.exec (sha256 : List UInt8 → String) (σ : Served) (a : Action) : Served where
  store := a.exec sha256 σ.store
  rows := σ.rows ++ (a.exec sha256 σ.store).tasks

/-- The record is a copy of a row that the store has had, up to the columns that the scheduler changes in its
memory. -/
def Served.Copied (σ : Served) (task : TaskRecord) : Prop :=
  ∃ r ∈ σ.rows, r.id = task.id ∧ r.key = task.key ∧ r.parentId = task.parentId ∧
    r.recurringIntervalSecs = task.recurringIntervalSecs

instance (σ : Served) (task : TaskRecord) : Decidable (σ.Copied task) :=
  inferInstanceAs (Decidable (∃ r ∈ σ.rows, r.id = task.id ∧ r.key = task.key ∧ r.parentId = task.parentId ∧
    r.recurringIntervalSecs = task.recurringIntervalSecs))

/-- The records that come back with a step are copies. -/
def Served.Returns (σ : Served) (a : Action) : Prop := ∀ task ∈ a.completes, σ.Copied task

/-- All rows, those of the past included. -/
private structure Served.Sound (σ : Served) : Prop where
  schema : σ.store.Schema
  now : σ.store.Rows TaskRow.WellFormed
  past : ∀ r ∈ σ.rows, r.WellFormed

private theorem Served.Sound.exec {sha256 : List UInt8 → String} {σ : Served} {a : Action} (h : σ.Sound)
    (ha : σ.Returns a) : (σ.exec sha256 a).Sound := by
  have hnow : (a.exec sha256 σ.store).Rows TaskRow.WellFormed := by
    refine a.wellFormed_exec sha256 h.schema h.now fun task htask hrec => ?_
    obtain ⟨r, hr, _, _, hparent, hinterval⟩ := ha task htask
    rw [← hparent]
    exact (h.past r hr).recurring (by rw [hinterval]; exact hrec)
  refine ⟨h.schema.steps (a.steps sha256 σ.store), hnow, fun r hr => ?_⟩
  rcases List.mem_append.1 hr with hr | hr
  · exact h.past r hr
  · exact hnow r hr

/-- The states along a run. -/
private theorem Served.Sound.take {sha256 : List UInt8 → String} {σ : Served} (h : σ.Sound) {actions : List Action}
    (hreturns : Along (Served.exec sha256) Served.Returns σ actions) (n : Nat) :
    ∃ σ' : Served, σ'.Sound ∧ σ'.store = execAll sha256 σ.store (actions.take n) := by
  induction actions generalizing σ n with
  | nil =>
    rw [List.take_nil]
    exact ⟨σ, h, rfl⟩
  | cons a actions ih =>
    cases n with
    | zero => exact ⟨σ, h, rfl⟩
    | succ n => exact ih (h.exec hreturns.1) hreturns.2 n

/-- In every run in which the records are copies of rows, every state has well-formed rows and distinct keys, and no
completion fails on the key of a next instance if and only if the keys are free. -/
theorem rows_wellFormed (sha256 : List UInt8 → String) (s : Store) (hfresh : s.Fresh) (actions : List Action)
    (hreturns : Along (Served.exec sha256) Served.Returns ⟨s, []⟩ actions) :
    (∀ n, (execAll sha256 s (actions.take n)).WellFormed ∧
      ∀ a, actions[n]? = some a → ¬ a.HitsKey (execAll sha256 s (actions.take n))) ↔
    Along (fun s a => a.exec sha256 s) (fun s a => a.KeysFree s) s actions := by
  have hfirst : (⟨s, []⟩ : Served).Sound := by
    refine ⟨hfresh.schema, fun r hr => ?_, fun r hr => absurd hr List.not_mem_nil⟩
    rw [hfresh.tasks] at hr
    cases hr
  have hsound : ∀ n, (execAll sha256 s (actions.take n)).Schema ∧
      (execAll sha256 s (actions.take n)).Rows TaskRow.WellFormed := by
    intro n
    obtain ⟨σ, hσ, hstore⟩ := hfirst.take hreturns n
    rw [← hstore]
    exact ⟨hσ.schema, hσ.now⟩
  rw [Along.iff_getElem]
  constructor
  · intro h n a ha
    by_contra hkey
    exact (h n).2 a ha ((a.hitsKey_iff (hsound n).1).2 hkey)
  · intro h n
    refine ⟨⟨(hsound n).2, (hsound n).1.keys⟩, fun a ha hhits => ?_⟩
    exact (a.hitsKey_iff (hsound n).1).1 hhits (h n a ha)

private theorem returns_of_nil {σ : Served} {a : Action} (h : a.completes = []) : σ.Returns a := by
  intro task htask
  rw [h] at htask
  cases htask

/-- A task that recurs every minute. -/
private def recurringA : TaskSubmission :=
  { TaskSubmission.new "a" with
    recurring := some { interval := ⟨60000000000⟩, initialDelay := none, maxExecutions := none } }

/-- Its record after the first dispatch. -/
private def recurringRecord : TaskRecord :=
  rowToTaskRecord
    { recurringA.newRow (sampleSha256 [97, 58]) 0 with id := 1, status := .running, startedAt := some 0 }

/-- It completes, and the next instance takes its key. -/
private def hourlyRun : List Action :=
  [.submitDirect recurringA 0, .claimTask 1 0, .completeWithRecord recurringRecord {} 5]

theorem recurringRun_wellFormed :
    (execAll sampleSha256 openMemory hourlyRun).tasks.map (fun r => (r.id, r.recurringExecutionCount)) = [(1, 1)] ∧
      ∀ n, (execAll sampleSha256 openMemory (hourlyRun.take n)).WellFormed ∧
        ∀ a, hourlyRun[n]? = some a → ¬ a.HitsKey (execAll sampleSha256 openMemory (hourlyRun.take n)) := by
  refine ⟨by decide +kernel, (rows_wellFormed sampleSha256 openMemory openMemory_fresh hourlyRun ?_).2 ?_⟩
  · refine ⟨returns_of_nil rfl, returns_of_nil rfl, fun task htask => ?_, trivial⟩
    rw [List.mem_singleton.1 htask]
    decide +kernel
  · refine ⟨trivial, trivial, ?_, trivial⟩
    rintro ⟨_, _, ⟨r, hr, hid, _, hkey⟩, _⟩
    revert r
    decide +kernel

/-- The task is cancelled while it runs; its id goes to a task of another type, and it is submitted and dispatched
again before the first execution returns. -/
private def reusedIdRun : List Action :=
  [.submitDirect recurringA 0, .claimTask 1 0, .cancelToHistory 1 1, .submitDirect (.new "b") 2,
    .submitDirect recurringA 3, .claimTask 2 4, .completeWithRecord recurringRecord {} 5]

theorem reusedId_hitsKey :
    ¬ ∀ (s : Store) (actions : List Action), s.Fresh →
      Along (Served.exec sampleSha256) Served.Returns ⟨s, []⟩ actions →
      ∀ n, (execAll sampleSha256 s (actions.take n)).WellFormed ∧
        ∀ a, actions[n]? = some a → ¬ a.HitsKey (execAll sampleSha256 s (actions.take n)) := by
  intro h
  have hreturns : Along (Served.exec sampleSha256) Served.Returns ⟨openMemory, []⟩ reusedIdRun := by
    refine ⟨returns_of_nil rfl, returns_of_nil rfl, returns_of_nil rfl, returns_of_nil rfl, returns_of_nil rfl,
      returns_of_nil rfl, fun task htask => ?_, trivial⟩
    rw [List.mem_singleton.1 htask]
    decide +kernel
  exact (h openMemory reusedIdRun openMemory_fresh hreturns 6).2 _ rfl (by rfl)

end Taskmill
