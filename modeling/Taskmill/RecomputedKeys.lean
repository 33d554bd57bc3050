import Taskmill.ChildSpawning
import Taskmill.DedupKeys
import Taskmill.Origins

/-!
# Recomputed dedup keys

The dedup key is stored as a digest only, and two functions compute it again: `retry_dead_letter`, which takes the
label of the history row for the explicit key if it is not the task type (`src/scheduler/submit.rs`), and
`lookup_typed`, which takes the serialized task for what was hashed.

A label may be anything, and a `TypedTask` may have a key of its own.  So the key is found again if and only if the
label, or the payload, is what was hashed (`recomputed_keys_iff`).
-/

namespace Taskmill

open Transact

/-! ### Dead letters -/

/-- `populate_history_tags` for one record. -/
def Store.historyTagsOf (s : Store) (id : Int) : Tags :=
  ((s.taskHistoryTags.filter fun t => t.1 == id).map Prod.snd).foldl (fun tags t => tags.insert t.1 t.2) Tags.empty

/-- `history_by_id` -/
def Store.historyById (s : Store) (id : Int) : Option TaskHistoryRow := s.taskHistory.find? (·.id == id)

/-- `{:?}` -/
def HistoryStatus.debug : HistoryStatus → String
  | .completed => "Completed"
  | .failed => "Failed"
  | .deadLetter => "DeadLetter"
  | .cancelled => "Cancelled"
  | .expired => "Expired"
  | .superseded => "Superseded"
  | .dependencyFailed => "DependencyFailed"

/-- The submission that `retry_dead_letter` constructs from a record with these tags. -/
def TaskHistoryRow.resubmission (record : TaskHistoryRow) (tags : Tags) : TaskSubmission :=
  let sub : TaskSubmission :=
    { TaskSubmission.new record.taskType with
      priority := record.priority, expectedIo := record.expectedIo, tags := tags }
  let sub := if record.label ≠ record.taskType then sub.withKey record.label else sub
  { sub with
    payload := record.payload
    parentId := record.parentId
    failFast := record.failFast
    groupKey := record.groupKey
    maxRetries := record.maxRetries }

/-- The part of `retry_dead_letter` before it submits. -/
def Store.deadLetter (s : Store) (historyId : Int) : Except StoreError TaskSubmission :=
  match s.historyById historyId with
  | none => .error (.notFound s!"history record {historyId}")
  | some record =>
    if record.status ≠ .deadLetter then
      .error (.invalidState s!"history record {historyId} has status {record.status.debug}, expected DeadLetter")
    else .ok (record.resubmission (s.historyTagsOf record.id))

/-- `is_inserted` -/
def SubmitOutcome.isInserted : SubmitOutcome → Bool
  | .inserted .. | .superseded .. => true
  | _ => false

/-- The rest of `retry_dead_letter`; `submit` is the `submit` of the store. -/
def resubmit (ttls : SchedulerTtls) (submit : TaskSubmission → Sql SubmitOutcome) (historyId : Int)
    (sub : TaskSubmission) :
    Sql SubmitOutcome := do
  let outcome ← submit (ttls.resolveTtl sub)
  if outcome.isInserted then Txn.modify (·.deleteHistory historyId)
  pure outcome

/-- `retry_dead_letter` -/
def retryDeadLetter (ttls : SchedulerTtls) (submit : TaskSubmission → Sql SubmitOutcome) (historyId : Int) :
    Sql SubmitOutcome := do
  let s ← Txn.get
  let sub ← Txn.ofExcept (s.deadLetter historyId)
  resubmit ttls submit historyId sub

/-- `retry_dead_letter` submits a task with the key, the payload, the group and the retries of the submission. -/
def Store.Resubmits (sha256 : List UInt8 → String) (s : Store) (historyId : Int) (sub : TaskSubmission) : Prop :=
  ∃ again, (∀ ttls submit, retryDeadLetter ttls submit historyId s = resubmit ttls submit historyId again s) ∧
    again.effectiveKey sha256 = sub.effectiveKey sha256 ∧ again.payload = sub.payload ∧
      again.groupKey = sub.groupKey ∧
    again.maxRetries = sub.maxRetries

/-! ### Typed tasks -/

/-- `TaskLookup` -/
inductive TaskLookup where
  | active (record : TaskRecord)
  | history (record : TaskHistoryRow) (tags : Tags)
  | notFound

/-- `ORDER BY completed_at DESC LIMIT 1`; of rows with the same time the index gives the first. -/
def latestRow (rows : List TaskHistoryRow) : Option TaskHistoryRow :=
  rows.find? fun row => rows.all fun row' => decide (row'.completedAt ≤ row.completedAt)

/-- `TaskStore::task_lookup` -/
def Store.taskLookup (s : Store) (key : String) : TaskLookup :=
  match s.taskByKey key with
  | some row => .active (s.populateTags (rowToTaskRecord row))
  | none =>
    match latestRow (s.taskHistory.filter (·.key == key)) with
    | some row => .history row (s.historyTagsOf row.id)
    | none => .notFound

/-- `lookup_typed` -/
def lookupTyped (sha256 : List UInt8 → String) (task : TypedTask) (s : Store) : Except StoreError TaskLookup :=
  match task.payload with
  | .error e => .error (.serialization e)
  | .ok payload => .ok (s.taskLookup (sha256 (dedupKeyBytes task.taskType (some payload))))

/-- What there is to find of a task: its row, or its history row if it is the last one of its key. -/
inductive Store.Shows (s : Store) (life : Nat) : TaskLookup → Prop
  | active {row : TaskRow} (hrow : row ∈ s.tasks) (hinst : row.inst = life) :
    Shows s life (.active (s.populateTags (rowToTaskRecord row)))
  | history {row : TaskHistoryRow} (hrow : row ∈ s.taskHistory) (hinst : row.inst = life)
  (hidle : s.taskByKey row.key = none)
    (hlast : ∀ row' ∈ s.taskHistory, row'.key = row.key → row' = row ∨ row'.completedAt < row.completedAt) :
    Shows s life (.history row (s.historyTagsOf row.id))

/-! ### What was hashed -/

/-- What `effective_key` hashes after the type. -/
def TaskSubmission.dedupInput (sub : TaskSubmission) : List UInt8 :=
  match sub.dedupKey with
  | some key => typeBytes key
  | none => sub.payload.getD []

/-- What was hashed is the label, or there is no key and the label is the type; or else the payload happens to be
the label or, if the label is the type, the key. -/
def TaskSubmission.LabelKeepsKey (sub : TaskSubmission) : Prop :=
  match sub.dedupKey with
  | some key => if sub.label = sub.taskType then sub.payload.getD [] = typeBytes key else sub.label = key
  | none => sub.label = sub.taskType ∨ sub.payload.getD [] = typeBytes sub.label

/-- The label of the submission keeps its key.  If it has got the row of a task of another type, which has the same
key because one type goes on after the other with a colon, then that type and the label, or the payload, are what
was hashed. -/
def Origin.LabelKeepsKey (o : Origin) : Prop :=
  match o.arrival with
  | .inPlace old =>
    if old.taskType = o.sub.taskType then o.sub.LabelKeepsKey
    else typeBytes old.taskType ++ [58] ++
      (if o.sub.label = old.taskType then o.sub.payload.getD [] else typeBytes o.sub.label) =
      typeBytes o.sub.taskType ++ [58] ++ o.sub.dedupInput
  | .inserted | .replaced => o.sub.LabelKeepsKey

/-- The task has no key of its own, or one that is its serialized form. -/
def TypedTask.KeyedByPayload (task : TypedTask) : Prop :=
  ∃ payload, task.payload = .ok payload ∧ ∀ key ∈ task.key, typeBytes key = payload

section Hashing

variable {sha256 : List UInt8 → String} {sub : TaskSubmission}

theorem TaskSubmission.effectiveKey_input (sub : TaskSubmission) :
    sub.effectiveKey sha256 = sha256 (typeBytes sub.taskType ++ [58] ++ sub.dedupInput) := by
  unfold TaskSubmission.effectiveKey TaskSubmission.dedupInput
  cases sub.dedupKey with
  | none => rfl
  | some key => rfl

theorem TaskHistoryRow.resubmission_taskType (record : TaskHistoryRow) (tags : Tags) :
    (record.resubmission tags).taskType = record.taskType := by
  unfold TaskHistoryRow.resubmission
  dsimp only
  split
  · rfl
  · rfl

/-- What is hashed for the retry of a dead letter. -/
theorem TaskHistoryRow.resubmission_dedupInput (record : TaskHistoryRow) (tags : Tags) :
    (record.resubmission tags).dedupInput =
      if record.label = record.taskType then record.payload.getD [] else typeBytes record.label := by
  unfold TaskHistoryRow.resubmission TaskSubmission.dedupInput
  dsimp only
  by_cases hlabel : record.label = record.taskType
  · rw [if_pos hlabel, if_neg (not_not.2 hlabel)]
    rfl
  · rw [if_neg hlabel, if_pos hlabel]
    rfl

theorem TaskSubmission.labelKeepsKey_iff (sub : TaskSubmission) :
    (if sub.label = sub.taskType then sub.payload.getD [] else typeBytes sub.label) = sub.dedupInput ↔
      sub.LabelKeepsKey := by
  unfold TaskSubmission.LabelKeepsKey TaskSubmission.dedupInput
  cases sub.dedupKey with
  | none =>
    by_cases hlabel : sub.label = sub.taskType
    · simp [hlabel]
    · rw [if_neg hlabel, or_iff_right hlabel]
      exact eq_comm
  | some key =>
    by_cases hlabel : sub.label = sub.taskType
    · rw [if_pos hlabel]
      simp only [if_pos hlabel]
    · rw [if_neg hlabel]
      simp only [if_neg hlabel]
      exact ⟨typeBytes_injective, congrArg typeBytes⟩

end Hashing

/-! ### The claims of the submissions -/

section Recomputed

variable {sha256 : List UInt8 → String} {s : Store} {o : Origin}

/-- What the row of a task has from its submission, whatever the arrival. -/
private theorem Origin.requested_same (sha256 : List UInt8 → String) (o : Origin) :
    (o.requested sha256).label = o.sub.label ∧
    (o.requested sha256).payload = o.sub.payload ∧ (o.requested sha256).groupKey = o.sub.groupKey ∧
      (o.requested sha256).maxRetries = o.sub.maxRetries := by
  unfold Origin.requested
  cases o.arrival with
  | inserted => exact ⟨rfl, rfl, rfl, rfl⟩
  | inPlace old => exact ⟨rfl, rfl, rfl, rfl⟩
  | replaced => exact ⟨rfl, rfl, rfl, rfl⟩

private theorem Origin.labelKeepsKey_iff (sha256 : List UInt8 → String) (o : Origin) :
    typeBytes (o.requested sha256).taskType ++ [58] ++
        (if o.sub.label = (o.requested sha256).taskType then o.sub.payload.getD [] else typeBytes o.sub.label) =
      typeBytes o.sub.taskType ++ [58] ++ o.sub.dedupInput ↔ o.LabelKeepsKey := by
  unfold Origin.requested Origin.LabelKeepsKey
  cases o.arrival with
  | inserted =>
    show typeBytes o.sub.taskType ++ [58] ++ _ = _ ↔ _
    rw [List.append_right_inj]
    exact o.sub.labelKeepsKey_iff
  | replaced =>
    show typeBytes o.sub.taskType ++ [58] ++ _ = _ ↔ _
    rw [List.append_right_inj]
    exact o.sub.labelKeepsKey_iff
  | inPlace old =>
    show typeBytes old.taskType ++ [58] ++ (if o.sub.label = old.taskType then _ else _) = _ ↔ _
    dsimp only
    by_cases htype : old.taskType = o.sub.taskType
    · rw [if_pos htype, htype, List.append_right_inj]
      exact o.sub.labelKeepsKey_iff
    · rw [if_neg htype]

theorem retryDeadLetter_ok {id : Int} {sub : TaskSubmission} (h : s.deadLetter id = .ok sub) (ttls : SchedulerTtls)
    (submit : TaskSubmission → Sql SubmitOutcome) :
    retryDeadLetter ttls submit id s = resubmit ttls submit id sub s := by
  show (Txn.ofExcept (s.deadLetter id) >>= resubmit ttls submit id) s = _
  rw [h]
  rfl

/-- The key is that of the submission that is constructed: a `submit` may tell the keys apart. -/
private theorem Store.Resubmits.key {id : Int} {sub found : TaskSubmission} (h : s.Resubmits sha256 id sub)
    (hfound : s.deadLetter id = .ok found) : found.effectiveKey sha256 = sub.effectiveKey sha256 := by
  obtain ⟨again, hruns, hkey, _⟩ := h
  let submit (m : TaskSubmission) : Sql SubmitOutcome :=
    if m.effectiveKey sha256 = sub.effectiveKey sha256 then pure .rejected else Txn.throw .cyclicDependency
  have hsame := hruns ⟨fun _ => none, none⟩ submit
  rw [retryDeadLetter_ok hfound] at hsame
  have hresolve (m : TaskSubmission) : (⟨fun _ => none, none⟩ : SchedulerTtls).resolveTtl m = m := by
    rw [SchedulerTtls.resolveTtl_eq]
    dsimp only
    rw [Option.or_none, Option.or_none]
  by_contra hne
  have hleft : resubmit ⟨fun _ => none, none⟩ submit id found s = (.error .cyclicDependency, s) := by
    have hsubmit : submit found = Txn.throw .cyclicDependency := if_neg hne
    unfold resubmit
    rw [hresolve, hsubmit]
    rfl
  have hright : resubmit ⟨fun _ => none, none⟩ submit id again s = (.ok .rejected, s) := by
    have hsubmit : submit again = pure .rejected := if_pos hkey
    unfold resubmit
    rw [hresolve, hsubmit]
    rfl
  rw [hleft, hright] at hsame
  cases hsame

private theorem resubmits_iff (hinj : Function.Injective sha256) {id : Int} {row : TaskHistoryRow} {r : TaskRow}
    (hrow : s.historyById id = some row) (hdead : row.status = .deadLetter) (hcopy : row.Copies r)
    (hfrom : r.From sha256 o) :
    s.Resubmits sha256 id o.sub ↔ o.LabelKeepsKey := by
  have hagain : s.deadLetter id = .ok (row.resubmission (s.historyTagsOf row.id)) := by
    rw [Store.deadLetter, hrow]
    exact if_neg (not_not.2 hdead)
  obtain ⟨hlabel, hpayload, hgroup, hmax⟩ := o.requested_same sha256
  have htype' : row.taskType = (o.requested sha256).taskType := by rw [hcopy.taskType, ← hfrom.requested]; rfl
  have hlabel' : row.label = o.sub.label := by rw [hcopy.label, ← hlabel, ← hfrom.requested]; rfl
  have hpayload' : row.payload = o.sub.payload := by rw [hcopy.payload, ← hpayload, ← hfrom.requested]; rfl
  have hgroup' : row.groupKey = o.sub.groupKey := by rw [hcopy.groupKey, ← hgroup, ← hfrom.requested]; rfl
  have hmax' : row.maxRetries = o.sub.maxRetries := by rw [hcopy.maxRetries, ← hmax, ← hfrom.requested]; rfl
  have hkey : (row.resubmission (s.historyTagsOf row.id)).effectiveKey sha256 = o.sub.effectiveKey sha256 ↔
      o.LabelKeepsKey := by
    rw [TaskSubmission.effectiveKey_input, TaskSubmission.effectiveKey_input, hinj.eq_iff,
      TaskHistoryRow.resubmission_taskType, TaskHistoryRow.resubmission_dedupInput, hlabel', hpayload', htype']
    exact o.labelKeepsKey_iff sha256
  constructor
  · intro h
    exact hkey.1 (h.key hagain)
  · intro hkeeps
    exact ⟨_, retryDeadLetter_ok hagain, hkey.2 hkeeps, hpayload', hgroup', hmax'⟩

/-- What a submission of a typed task hashes. -/
private theorem fromTyped_key {payload : List UInt8} {task : TypedTask} (hpayload : task.payload = .ok payload)
    (ttls : SchedulerTtls) (now : Int) : (ttls.resolveTtl (.fromTyped task now)).taskType = task.taskType ∧
      (ttls.resolveTtl (.fromTyped task now)).dedupInput = (task.key.map typeBytes).getD payload := by
  rw [SchedulerTtls.resolveTtl_eq]
  unfold TaskSubmission.dedupInput
  dsimp only
  obtain ⟨taskType, ⟨_, _, _, _, _, _, _, recurring⟩, data, key, _, tags⟩ := task
  obtain rfl : data = .ok payload := hpayload
  unfold TaskSubmission.fromTyped
  dsimp only
  cases tags.entries.isEmpty <;> cases recurring <;> cases key <;> exact ⟨rfl, rfl⟩

private theorem populateTags_key (s : Store) (row : TaskRow) :
    (s.populateTags (rowToTaskRecord row)).key = row.key := by
  obtain ⟨tags, htags⟩ := s.populateTags_eq (rowToTaskRecord row)
  rw [htags]
  rfl

/-- A row that is found is under its key. -/
private theorem taskLookup_active_iff (hs : s.Schema) {row : TaskRow} (hrow : row ∈ s.tasks) (key : String) :
    s.taskLookup key = .active (s.populateTags (rowToTaskRecord row)) ↔ row.key = key := by
  constructor
  · intro h
    unfold Store.taskLookup at h
    split at h
    · rename_i found hfound
      have hkey : found.key = key := by simpa using List.find?_some hfound
      injection h with hrecord
      have hsame : found.key = row.key := by rw [← populateTags_key s found, hrecord, populateTags_key]
      exact hsame.symm.trans hkey
    · split at h
      · cases h
      · cases h
  · rintro rfl
    rw [Store.taskLookup, taskByKey_row hs hrow]

/-- So is a history row, if it is the last one. -/
private theorem taskLookup_history_iff {row : TaskHistoryRow} (hrow : row ∈ s.taskHistory)
    (hidle : s.taskByKey row.key = none)
    (hlast : ∀ row' ∈ s.taskHistory, row'.key = row.key → row' = row ∨ row'.completedAt < row.completedAt)
    (key : String) :
    s.taskLookup key = .history row (s.historyTagsOf row.id) ↔ row.key = key := by
  constructor
  · intro h
    unfold Store.taskLookup at h
    split at h
    · cases h
    · split at h
      · rename_i found hfound
        have hmem : found ∈ s.taskHistory.filter (·.key == key) := List.mem_of_find?_eq_some hfound
        have hkey : found.key = key := by simpa using (List.mem_filter.1 hmem).2
        injection h with hsame
        rw [← hsame, hkey]
      · cases h
  · rintro rfl
    have hmem : row ∈ s.taskHistory.filter (·.key == row.key) := List.mem_filter.2 ⟨hrow, by simp⟩
    have hle : ∀ row' ∈ s.taskHistory.filter (·.key == row.key), row'.completedAt ≤ row.completedAt := by
      intro row' hrow'
      obtain ⟨hin, hkey⟩ := List.mem_filter.1 hrow'
      rcases hlast row' hin (by simpa using hkey) with rfl | hlt
      · exact Int.le_refl _
      · exact Int.le_of_lt hlt
    rw [Store.taskLookup, hidle]
    cases hfound : latestRow (s.taskHistory.filter (·.key == row.key)) with
    | none =>
      have hnot := List.find?_eq_none.1 hfound row hmem
      simp only [List.all_eq_true, decide_eq_true_eq] at hnot
      exact absurd hle hnot
    | some found =>
      have hall := List.find?_some hfound
      simp only [List.all_eq_true, decide_eq_true_eq] at hall
      obtain ⟨hin, hkey⟩ := List.mem_filter.1 (List.mem_of_find?_eq_some hfound)
      rcases hlast found hin (by simpa using hkey) with rfl | hlt
      · rfl
      · have hge := hall row hmem
        omega

/-- What there is to find of a task is under the key of its submission. -/
private theorem taskLookup_iff {σ : Origins} (h : σ.Sound sha256) {life : Nat} {lookup : TaskLookup}
    (ho : σ.origin life = some o) (hshows : σ.store.Shows life lookup) (key : String) :
    σ.store.taskLookup key = lookup ↔ o.sub.effectiveKey sha256 = key := by
  cases hshows with
  | @active row hrow hinst =>
    obtain ⟨o', ho', hfrom⟩ := h.known row (h.rows row hrow)
    obtain rfl : o = o' := by
      rw [hinst, ho] at ho'
      exact Option.some.inj ho'
    rw [taskLookup_active_iff h.schema hrow, hfrom.key]
  | @history row hrow hinst hidle hlast =>
    obtain ⟨r, hr, hcopy⟩ := h.history row hrow
    obtain ⟨o', ho', hfrom⟩ := h.known r hr
    obtain rfl : o = o' := by
      rw [← hcopy.inst, hinst, ho] at ho'
      exact Option.some.inj ho'
    rw [taskLookup_history_iff hrow hidle hlast, hcopy.key, hfrom.key]

private theorem lookupTyped_iff (hinj : Function.Injective sha256) {σ : Origins} (h : σ.Sound sha256) {life : Nat}
    {lookup : TaskLookup} (ho : σ.origin life = some o) {task : TypedTask} {ttls : SchedulerTtls} {now : Int}
    (hsub : o.sub = ttls.resolveTtl (.fromTyped task now)) (hshows : σ.store.Shows life lookup) :
    lookupTyped sha256 task σ.store = .ok lookup ↔ task.KeyedByPayload := by
  unfold lookupTyped TypedTask.KeyedByPayload
  cases hpayload : task.payload with
  | error e => exact ⟨nofun, nofun⟩
  | ok payload =>
    obtain ⟨htype, hinput⟩ := fromTyped_key hpayload ttls now
    have hkey : o.sub.effectiveKey sha256 = sha256 (dedupKeyBytes task.taskType (some payload)) ↔
        (task.key.map typeBytes).getD payload = payload := by
      rw [hsub, TaskSubmission.effectiveKey_input, htype, hinput, hinj.eq_iff]
      exact List.append_right_inj _
    have hlookup : (Except.ok (σ.store.taskLookup (sha256 (dedupKeyBytes task.taskType (some payload)))) :
      Except StoreError TaskLookup) =
        .ok lookup ↔ (task.key.map typeBytes).getD payload = payload := by
      rw [Except.ok.injEq, taskLookup_iff h ho hshows, hkey]
    rw [hlookup]
    cases task.key with
    | none => simp
    | some key => simp

end Recomputed

/-- The key that is computed again is that of the submission if and only if the label of a dead letter, or the
payload of a typed task, is what was hashed. -/
theorem recomputed_keys_iff (sha256 : List UInt8 → String) (hinj : Function.Injective sha256) (σ : Origins)
    (h : Runs Origins.Start (Origins.step sha256) Origins.Returns σ) :
    (∀ id row, σ.store.historyById id = some row → row.status = .deadLetter →
      ∃ o, σ.origin row.inst = some o ∧ (σ.store.Resubmits sha256 id o.sub ↔ o.LabelKeepsKey)) ∧
    ∀ (task : TypedTask) (ttls : SchedulerTtls) (now : Int) (life : Nat) (o : Origin) (lookup : TaskLookup),
      σ.origin life = some o → o.sub = ttls.resolveTtl (.fromTyped task now) → σ.store.Shows life lookup →
        (lookupTyped sha256 task σ.store = .ok lookup ↔ task.KeyedByPayload) := by
  have hsound := origins_sound h
  refine ⟨fun id row hrow hdead => ?_, fun task ttls now life o lookup ho hsub hshows => ?_⟩
  · obtain ⟨r, hr, hcopy⟩ := hsound.history row (List.mem_of_find?_eq_some hrow)
    obtain ⟨o, ho, hfrom⟩ := hsound.known r hr
    refine ⟨o, ?_, resubmits_iff hinj hrow hdead hcopy hfrom⟩
    rw [hcopy.inst]
    exact ho
  · exact lookupTyped_iff hinj hsound ho hsub hshows

/-! ### Runs that can be evaluated -/

/-- SHA-256 on `a:` and `a:b`. -/
private def hashA : List UInt8 → String
  | [97, 58] => "bfc622d4a6d410f26be3d72dd4f04e47bf434f76c655134adb76fef3a083c3a8"
  | [97, 58, 98] => "6783a31eabf68ccc0660f935c0826282bdd2241f3a80a9f2d10d59aea9ebb5d8"
  | bytes => String.ofList ('-' :: bytes.map fun b => Char.ofNat b.toNat)

private theorem hashA_injective : Function.Injective hashA := by
  let bytesOf (digest : String) : List UInt8 :=
    if digest = hashA [97, 58] then [97, 58] else if digest = hashA [97, 58, 98] then [97, 58, 98]
    else digest.toList.tail.map fun c => UInt8.ofNat c.toNat
  have hbyte (b : UInt8) : UInt8.ofNat (Char.ofNat b.toNat).toNat = b := by
    have hlt : b.toNat < 256 := b.toNat_lt
    have hvalid : b.toNat.isValidChar := .inl (by omega)
    have hchar : (Char.ofNat b.toNat).toNat = b.toNat := by
      unfold Char.ofNat
      rw [dif_pos hvalid]
      rfl
    rw [hchar, UInt8.ofNat_toNat]
  have hhead (bytes : List UInt8) (digest : String) (hdigest : digest.toList.head? ≠ some '-') :
      String.ofList ('-' :: bytes.map fun b => Char.ofNat b.toNat) ≠ digest := by
    rintro rfl
    rw [String.toList_ofList] at hdigest
    exact hdigest rfl
  refine Function.LeftInverse.injective (g := bytesOf) fun bytes => ?_
  unfold hashA
  split
  · decide
  · decide
  · show (if _ then _ else if _ then _ else _) = _
    rw [if_neg (hhead _ _ (by decide)), if_neg (hhead _ _ (by decide)), String.toList_ofList,
      List.tail_cons, List.map_map]
    exact (List.map_congr_left fun b _ => hbyte b).trans (List.map_id _)

/-- A task of type `a` is submitted, starts and fails for good. -/
private def failing (sub : TaskSubmission) : List Action :=
  [.submitDirect sub 0, .popById 1 0, .failWithRecord (rowToTaskRecord { sub.newRow (sub.effectiveKey hashA) 0 with
    id := 1, status := .running, startedAt := some 0 }) "boom" true 0 {}
      { strategy := none, executorRetryAfterMs := none } 5]

private def newOrigins : Origins := ⟨openMemory, [], fun _ => none⟩

private def failed (sub : TaskSubmission) : Origins := (failing sub).foldl (Origins.step hashA) newOrigins

private theorem failed_runs {sub : TaskSubmission}
    (h : Along (Origins.step hashA) Origins.Returns newOrigins (failing sub)) :
    Runs Origins.Start (Origins.step hashA) Origins.Returns (failed sub) :=
  Runs.list (.start ⟨openMemory_fresh, rfl⟩) (failing sub) h

/-- The history row of the task. -/
private def failedRow (sub : TaskSubmission) : TaskHistoryRow :=
  historyRow 1
    (rowToTaskRecord { sub.newRow (sub.effectiveKey hashA) 0 with id := 1, status := .running, startedAt := some 0 })
    .deadLetter {} (some 5) (some "boom") 5

/-- Neither a key nor a label. -/
private def plainA : TaskSubmission := .new "a"

theorem plain_resubmitted : (failed plainA).store.historyById 1 = some (failedRow plainA) ∧
    ∃ o, (failed plainA).origin 0 = some o ∧ (failed plainA).store.Resubmits hashA 1 o.sub := by
  have hrow : (failed plainA).store.historyById 1 = some (failedRow plainA) := by decide +kernel
  have hruns : Runs Origins.Start (Origins.step hashA) Origins.Returns (failed plainA) :=
    failed_runs ⟨by unfold Origins.Returns; decide +kernel, by unfold Origins.Returns; decide +kernel,
      by unfold Origins.Returns; decide +kernel, trivial⟩
  obtain ⟨o, ho, hiff⟩ := (recomputed_keys_iff hashA hashA_injective (failed plainA) hruns).1 1
    (failedRow plainA) hrow rfl
  have horigin : (failed plainA).origin 0 =
      some { sub := plainA, arrival := .inserted, later := false, base := 0 } := by
    decide +kernel
  obtain rfl := Option.some.inj (horigin.symm.trans ho)
  exact ⟨hrow, _, ho, hiff.2 (.inl rfl)⟩

/-- A label and no key. -/
private def labelOnly : TaskSubmission := { TaskSubmission.new "a" with label := "b" }

/-- The label is taken for the key. -/
theorem label_taken_for_key : ¬ ∀ sha256, Function.Injective sha256 → ∀ σ : Origins,
    Runs Origins.Start (Origins.step sha256) Origins.Returns σ →
      (∀ id row, σ.store.historyById id = some row → row.status = .deadLetter →
        ∃ o, σ.origin row.inst = some o ∧ σ.store.Resubmits sha256 id o.sub) ∧
      ∀ (task : TypedTask) (ttls : SchedulerTtls) (now : Int) (life : Nat) (o : Origin) (lookup : TaskLookup),
        σ.origin life = some o → o.sub = ttls.resolveTtl (.fromTyped task now) → σ.store.Shows life lookup →
          lookupTyped sha256 task σ.store = .ok lookup := by
  intro h
  have hrow : (failed labelOnly).store.historyById 1 = some (failedRow labelOnly) := by decide +kernel
  have hruns : Runs Origins.Start (Origins.step hashA) Origins.Returns (failed labelOnly) :=
    failed_runs ⟨by unfold Origins.Returns; decide +kernel, by unfold Origins.Returns; decide +kernel,
      by unfold Origins.Returns; decide +kernel, trivial⟩
  obtain ⟨o, ho, hagain⟩ := (h hashA hashA_injective (failed labelOnly) hruns).1 1 (failedRow labelOnly) hrow rfl
  have horigin : (failed labelOnly).origin 0 =
      some { sub := labelOnly, arrival := .inserted, later := false, base := 0 } := by
    decide +kernel
  obtain rfl := Option.some.inj (horigin.symm.trans ho)
  have hdead : (failed labelOnly).store.deadLetter 1 = .ok ((failedRow labelOnly).resubmission Tags.empty) := by
    rw [Store.deadLetter, hrow]
    rfl
  have hkey := hagain.key hdead
  revert hkey
  decide +kernel

end Taskmill
