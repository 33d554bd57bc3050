import Taskmill.Batch
import Taskmill.Untimed

/-!
# A batch against its calls one at a time

With a common clock the batch is the loop of its rounds in one bracket, and the calls one at a time are the rounds
in a bracket each.  As long as no round fails these are the same; a round that fails undoes itself when it is a call
of its own, and the whole batch when it is not.
-/

namespace Taskmill

open Transact

/-! ### Flags and configuration -/

section Settings

variable {α β : Type} {task : TaskRecord} {skipTags : Bool} {now : Int}

/-- The flags and the retention policy. -/
def Store.settings (s : Store) : Bool × Bool × Bool × Option RetentionPolicy :=
  (s.hasTags, s.hasHierarchy, s.hasRunning, s.retentionPolicy)

/-- The settings stay as they are. -/
def Store.KeepsSettings (s s' : Store) : Prop := s'.settings = s.settings

theorem Store.KeepsSettings.rollback {s s' : Store} (h : s.KeepsSettings s') : s.rollback s' = s := by
  have h₁ : s'.hasTags = s.hasTags := congrArg Prod.fst h
  have h₂ : s'.hasHierarchy = s.hasHierarchy := congrArg (·.2.1) h
  have h₃ : s'.hasRunning = s.hasRunning := congrArg (·.2.2.1) h
  rw [Store.rollback, h₁, h₂, h₃]

/-- A bracket whose body keeps the settings and fails changes nothing. -/
private theorem transaction_fails {x : Sql α} {s s' : Store} {e : StoreError} (h : x s = (.error e, s'))
    (hk : Txn.Always Store.KeepsSettings x) : transaction x s = (.error e, s) := by
  have hs := hk s
  rw [h] at hs
  have htx : transaction x s = (.error e, s.rollback s') := Txn.atomically_of_error h
  rw [htx, Store.KeepsSettings.rollback hs]

private theorem keeps_refl (s : Store) : s.KeepsSettings s := rfl

private theorem keeps_trans (s₁ s₂ s₃ : Store) (h : s₁.KeepsSettings s₂) (h' : s₂.KeepsSettings s₃) :
    s₁.KeepsSettings s₃ :=
  Eq.trans h' h

private theorem keeps_pure {a : α} : Txn.Always Store.KeepsSettings (pure a : Sql α) := Txn.Always.pure keeps_refl a

private theorem keeps_map_get {f : Store → α} : Txn.Always Store.KeepsSettings (f <$> Txn.get : Sql α) := fun _ => rfl

private theorem keeps_bind {x : Sql α} {f : α → Sql β} (hx : Txn.Always Store.KeepsSettings x)
    (hf : ∀ a, Txn.Always Store.KeepsSettings (f a)) : Txn.Always Store.KeepsSettings (x >>= f) :=
  hx.bind keeps_trans hf

private theorem keeps_mapList {f : α → Sql β} (hf : ∀ x, Txn.Always Store.KeepsSettings (f x)) (xs : List α) :
    Txn.Always Store.KeepsSettings (Txn.mapList f xs) :=
  Txn.Always.mapList keeps_refl keeps_trans hf xs

private theorem keeps_insertHistory {status : HistoryStatus} {metrics : IoBudget} {durationMs : Option Int}
    {lastError : Option String} :
    Txn.Always Store.KeepsSettings (insertHistory task status metrics durationMs lastError skipTags now) := by
  intro s
  obtain ⟨tags, h⟩ := insertHistory_state task status metrics durationMs lastError skipTags now s
  rw [h]
  rfl

private theorem keeps_createNextInstance {tags : List (String × String)} {interval : Int} :
    Txn.Always Store.KeepsSettings (createNextInstance task tags interval now) := by
  refine keeps_bind (Txn.Always.get keeps_refl) fun s => ?_
  split
  · exact keeps_pure
  · have hins : Txn.Always Store.KeepsSettings (insertTask (task.nextInstance interval now)) := by
      intro s
      rw [insertTask]
      split
      · rfl
      · rfl
    refine keeps_bind hins fun nextId => keeps_bind (fun s => ?_) fun _ => keeps_bind keeps_map_get fun paused => ?_
    · obtain ⟨tt, h⟩ := insertTags_state nextId tags s
      rw [h]
      rfl
    · refine keeps_bind (Txn.Always.modify fun s => ?_) fun _ => keeps_pure
      split
      · rfl
      · rfl

private theorem keeps_completeInner {metrics : IoBudget} :
    Txn.Always Store.KeepsSettings (completeInner task metrics skipTags now) := by
  refine keeps_bind keeps_insertHistory fun _ => keeps_bind keeps_map_get fun tags =>
    keeps_bind (fun _ => rfl) fun n => ?_
  split
  · exact keeps_bind (Txn.Always.modify fun s => rfl) fun _ => keeps_pure
  · refine keeps_bind (Txn.Always.modify fun s => ?_) fun _ => ?_
    · split
      · rfl
      · rfl
    · split
      · exact keeps_pure
      · exact keeps_createNextInstance

private theorem keeps_completeAndResolve (item : TaskRecord × IoBudget) :
    Txn.Always Store.KeepsSettings (completeAndResolve skipTags now item) := by
  refine keeps_bind keeps_completeInner fun _ => keeps_bind (fun s => ?_) fun _ => keeps_pure
  rw [resolveDependentsInner]
  refine keeps_bind (x := deleteEdgesTo item.1.id) (fun _ => rfl) (fun ids => ?_) s
  split
  · exact keeps_pure
  · exact keeps_bind (fun _ => rfl) fun _ => keeps_bind (Txn.Always.modify fun _ => rfl) fun _ => keeps_pure

private theorem keeps_completeBatchFast {items : List (TaskRecord × IoBudget)} :
    Txn.Always Store.KeepsSettings (completeBatchFast skipTags now items) := by
  have hreset : ∀ (ids : List Int) (s : Store), s.KeepsSettings (ids.foldl Store.resetRequeued s) := by
    intro ids
    induction ids with
    | nil => exact keeps_refl
    | cons id ids ih => exact fun s => keeps_trans _ _ _ rfl (ih (s.resetRequeued id))
  refine keeps_bind (keeps_mapList (fun item => keeps_insertHistory) items) fun _ =>
    keeps_bind (fun _ => rfl) fun deleted => ?_
  refine keeps_bind (Txn.Always.modify fun s => hreset _ s) fun _ =>
    keeps_bind (Txn.Always.modify fun s => ?_) fun _ => ?_
  · split
    · rfl
    · rfl
  · refine keeps_bind (fun _ => rfl) fun ids => ?_
    split
    · exact keeps_pure
    · exact keeps_bind (fun _ => rfl) fun _ => keeps_bind (Txn.Always.modify fun _ => rfl) fun _ => keeps_pure

end Settings

/-! ### Completions -/

section Completions

variable {now : Int} {items : List (TaskRecord × IoBudget)} {s : Store}

/-- Without a retention policy nothing is pruned. -/
private theorem withPrune_none {α : Type} {x : Sql α} (h : (x s).2.retentionPolicy = none) :
    withPrune now x s = x s := by
  rw [withPrune, Txn.bind_apply]
  split
  · rename_i a s' heq
    rw [heq] at h
    rw [Txn.modify_bind_apply, Store.maybePrune, h, heq]
    rfl
  · rename_i e s' heq
    rw [heq]

/-- All unblocked ids that were reported. -/
def unblockedIds (results : List (Int × Option (Int × Int) × List Int)) : List Int := (results.map (·.2.2)).flatten

private theorem unblockedIds_batchResults (unblocked : List Int) (item : TaskRecord × IoBudget)
    (items : List (TaskRecord × IoBudget)) : unblockedIds (batchResults unblocked (item :: items)) = unblocked := by
  induction items generalizing item with
  | nil => simp [unblockedIds, batchResults]
  | cons next items ih => exact ih next

/-- The batch does what the loop of its rounds does, or fails with it and changes nothing. -/
theorem completeBatchTx_loop (now : Int) (hids : s.ids.Nodup) (hn : (items.map (·.1.id)).Nodup)
    (hb : s.NoneBlocked (items.map (·.1.id))) :
    (∃ results results' s', Txn.mapList (completeAndResolve (!s.hasTags) now) items s = (.ok results, s') ∧
      completeBatchTx items now s = (.ok results', s') ∧ (unblockedIds results').Perm (unblockedIds results)) ∨
    (∃ e s', Txn.mapList (completeAndResolve (!s.hasTags) now) items s = (.error e, s')) ∧
      ∃ e, completeBatchTx items now s = (.error e, s) := by
  rcases items with _ | ⟨first, _ | ⟨second, rest⟩⟩
  · exact .inl ⟨[], [], s, rfl, rfl, List.Perm.refl _⟩
  · have hstart : completeBatchTx [first] now s = (do
        let result ← completeAndResolveTx first.1 first.2 now
        pure [result] : Sql (List (Int × Option (Int × Int) × List Int))) s := rfl
    rcases hround : completeAndResolve (!s.hasTags) now first s with ⟨e | result, s'⟩
    · have htx : completeAndResolveTx first.1 first.2 now s = (.error e, s) :=
        transaction_fails hround fun s => keeps_completeAndResolve first s
      exact .inr ⟨⟨e, s', Txn.bind_of_error hround⟩, e, hstart.trans (Txn.bind_of_error htx)⟩
    · have htx : completeAndResolveTx first.1 first.2 now s = (.ok result, s') := Txn.atomically_of_ok hround
      refine .inl ⟨[result], [result], s', Txn.bind_of_ok hround, ?_, List.Perm.refl _⟩
      rw [hstart, Txn.bind_of_ok htx]
      rfl
  · have hstart : completeBatchTx (first :: second :: rest) now =
      (if (first :: second :: rest).any fun item => item.1.recurringIntervalSecs.isSome then
        transaction fun s => Txn.mapList (completeAndResolve (!s.hasTags) now) (first :: second :: rest) s
      else do
        let unblocked ← transaction fun s => completeBatchFast (!s.hasTags) now (first :: second :: rest) s
        pure (batchResults unblocked (first :: second :: rest))) := rfl
    rw [hstart]
    by_cases hrec : ((first :: second :: rest).any fun item => item.1.recurringIntervalSecs.isSome) = true
    · rw [if_pos hrec]
      rcases hloop : Txn.mapList (completeAndResolve (!s.hasTags) now) (first :: second :: rest)
        s with ⟨e | results, s'⟩
      · exact .inr ⟨⟨e, s', rfl⟩, e, transaction_fails hloop fun s => keeps_mapList keeps_completeAndResolve _ s⟩
      · exact .inl ⟨results, results, s', rfl, Txn.atomically_of_ok hloop, List.Perm.refl _⟩
    · rw [if_neg hrec]
      have hplain : ∀ item ∈ first :: second :: rest, item.1.recurringIntervalSecs = none := by
        intro item hitem
        by_contra hne
        exact hrec (List.any_eq_true.2 ⟨item, hitem, Option.isSome_iff_ne_none.2 hne⟩)
      obtain ⟨hloop, hloop'⟩ : (s.ItemLogsOk (!s.hasTags) now (first :: second :: rest) → _) ∧ _ :=
        mapList_completeAndResolve _ hids hplain hn
      obtain ⟨hfast, hfast'⟩ : (s.ItemLogsOk (!s.hasTags) now (first :: second :: rest) → _) ∧ _ :=
        completeBatchFast_apply hids hn hb
      by_cases hlogs : s.ItemLogsOk (!s.hasTags) now (first :: second :: rest)
      · obtain ⟨results, hm, hfreed⟩ := hloop hlogs
        have htx : (transaction fun s => completeBatchFast (!s.hasTags) now (first :: second :: rest) s) s = _ :=
          Txn.atomically_of_ok (hfast hlogs)
        refine .inl ⟨results, batchResults (s.freed ((first :: second :: rest).map (·.1.id)))
          (first :: second :: rest), _, hm, ?_, ?_⟩
        · rw [Txn.bind_of_ok htx, foldl_completeItem hn hb]
          rfl
        · rw [unblockedIds_batchResults, unblockedIds, hfreed]
          exact (freedByItems_perm hb).symm
      · obtain ⟨e, s', herr⟩ := hfast' hlogs
        have htx : (transaction fun s => completeBatchFast (!s.hasTags) now (first :: second :: rest) s) s =
            (.error e, s) :=
          transaction_fails herr fun s => keeps_completeBatchFast s
        exact .inr ⟨hloop' hlogs, e, Txn.bind_of_error htx⟩

/-- The calls one at a time do what the rounds of the loop do, as long as none fails. -/
private theorem each_complete (now : Int) (items : List (TaskRecord × IoBudget)) (hp : s.retentionPolicy = none) :
    (∃ results, Txn.mapList (completeAndResolve (!s.hasTags) now) items s =
        (.ok results, (Txn.each (fun item => completeWithRecordAndResolve item.1 item.2 now) items s).2) ∧
      (Txn.each (fun item => completeWithRecordAndResolve item.1 item.2 now) items s).1 = results.map .ok) ∨
    ((∃ e s', Txn.mapList (completeAndResolve (!s.hasTags) now) items s = (.error e, s')) ∧
      ∃ e, .error e ∈ (Txn.each (fun item => completeWithRecordAndResolve item.1 item.2 now) items s).1) := by
  refine Txn.each_mapList (I := fun t => t.hasTags = s.hasTags ∧ t.retentionPolicy = none) ?_ ?_ items ⟨rfl, hp⟩
  · rintro item t a t' ⟨hflag, hpol⟩ h
    have hkeep : t.KeepsSettings (completeAndResolve (!s.hasTags) now item t).2 := keeps_completeAndResolve item t
    rw [h] at hkeep
    have hpol' : t'.retentionPolicy = none := (congrArg (·.2.2.2) hkeep).trans hpol
    have htx : completeAndResolveTx item.1 item.2 now t = (.ok a, t') := by
      rw [← hflag] at h
      exact Txn.atomically_of_ok h
    refine ⟨?_, (congrArg Prod.fst hkeep).trans hflag, hpol'⟩
    rw [completeWithRecordAndResolve, withPrune_none, htx]
    rw [htx]
    exact hpol'
  · rintro item t e t' ⟨hflag, hpol⟩ h
    have htx : completeAndResolveTx item.1 item.2 now t = (.error e, t.rollback t') := by
      rw [← hflag] at h
      exact Txn.atomically_of_error h
    exact ⟨_, Txn.bind_of_error htx⟩

/-- A round reports only rows that were blocked, each once, and they are not blocked any more. -/
private theorem completeAndResolve_unblocks {skipTags : Bool} {item : TaskRecord × IoBudget}
    {result : Int × Option (Int × Int) × List Int} {s' : Store} (hs : s.Schema)
    (h : completeAndResolve skipTags now item s = (.ok result, s')) :
    result.2.2.Nodup ∧ ∀ id ∈ result.2.2, ¬ s.NotBlocked id ∧ s'.NotBlocked id := by
  obtain ⟨recurring, s₁, h₁, h⟩ := Txn.bind_ok h
  have hsteps : Steps false s s₁ := by
    have : Steps false s (completeInner item.1 item.2 skipTags now s).2 := steps_completeInner s
    rwa [h₁] at this
  have hs₁ : s₁.Schema := hs.steps hsteps
  rw [Txn.bind_of_ok (resolveDependentsInner_apply hs₁.ids _ _)] at h
  cases h
  refine ⟨hs₁.ids.sublist (List.Sublist.map _ (List.filter_sublist ..)), ?_⟩
  intro id hid
  obtain ⟨r, hr, rfl⟩ := List.mem_map.1 hid
  obtain ⟨hr, hf⟩ := List.mem_filter.1 hr
  constructor
  · intro hnot
    exact hnot.steps hsteps r hr rfl (Store.frees_iff.1 hf).1
  · intro r' hr' hid'
    obtain ⟨r₀, hr₀, rfl⟩ := List.mem_map.1 hr'
    change (s₁.releaseRow [item.1.id] now r₀).id = r.id at hid'
    rw [releaseRow_id] at hid'
    obtain rfl := hs₁.eq_of_id hr₀ hr hid'
    rw [if_pos hf]
    exact freeRow_status r₀

/-- No id is reported twice. -/
private theorem mapList_unblocks {skipTags : Bool} {results : List (Int × Option (Int × Int) × List Int)} {s' : Store}
    (hs : s.Schema) (h : Txn.mapList (completeAndResolve skipTags now) items s = (.ok results, s')) :
    (unblockedIds results).Nodup ∧ ∀ id ∈ unblockedIds results, ¬ s.NotBlocked id := by
  induction items generalizing s results with
  | nil =>
    cases h
    exact ⟨List.nodup_nil, fun id hid => by cases hid⟩
  | cons item items ih =>
    obtain ⟨result, s₁, h₁, h⟩ := Txn.bind_ok h
    obtain ⟨rest, s₂, h₂, h⟩ := Txn.bind_ok h
    cases h
    have hsteps : Steps false s s₁ := by
      have : Steps false s (completeAndResolve skipTags now item s).2 := steps_completeAndResolve item s
      rwa [h₁] at this
    obtain ⟨hnodup, hids⟩ := completeAndResolve_unblocks hs h₁
    obtain ⟨hrest, hlater⟩ := ih (hs.steps hsteps) h₂
    have hsplit : unblockedIds (result :: rest) = result.2.2 ++ unblockedIds rest := by
      rw [unblockedIds, List.map_cons, List.flatten_cons]
      rfl
    rw [hsplit]
    constructor
    · refine hnodup.append hrest fun id hid hid' => ?_
      exact hlater id hid' (hids id hid).2
    · intro id hid hnot
      rcases List.mem_append.1 hid with hid | hid
      · exact (hids id hid).1 hnot
      · exact hlater id hid (hnot.steps hsteps)

end Completions

/-! ### Failures -/

section Failures

variable {now : Int} {items : List FailureItem} {s : Store}

/-- The history row of a failure, up to its row id. -/
def failedEntry (now : Int) (item : FailureItem) (hid : Int) : TaskHistoryRow :=
  historyRow hid item.task (terminalStatus item.retryable) item.metrics (computeDurationMs now item.task)
    (some item.error) now

/-- The history rows of several failures. -/
def Store.logFailures (s : Store) (now : Int) (items : List FailureItem) : Store :=
  s.logEach false (failedEntry now) (·.task.id) items

/-- None of them fails. -/
def Store.FailureLogsOk (s : Store) (now : Int) (items : List FailureItem) : Prop :=
  s.LogsOk false (failedEntry now) (·.task.id) items

/-- One failure without a retry. -/
def failOnce (now : Int) (item : FailureItem) : Sql Unit := do
  insertFailed false now item
  Txn.modify fun s => s.delete item.task.id

private theorem failInner_terminal (item : FailureItem) (backoff : FailBackoff) :
    failInner item.task item.error item.retryable 0 item.metrics backoff now = failOnce now item := by
  rw [failInner, willRetry_zero]
  rfl

private theorem insertFailed_logs {item : FailureItem} (h : ¬ s.LogFails false item.task.id) :
    insertFailed false now item s = (.ok (), s.logTask false (failedEntry now item) item.task.id) :=
  insertHistory_logs h ..

private theorem insertFailed_fails {item : FailureItem} (h : s.LogFails false item.task.id) :
    ∃ e s', insertFailed false now item s = (.error e, s') := by
  obtain ⟨s', he⟩ := insertHistory_fails h (terminalStatus item.retryable) item.metrics
    (computeDurationMs now item.task) (some item.error) now
  exact ⟨_, s', he⟩

private theorem tagsOf_delete {id id' : Int} (h : id' ≠ id) : (s.delete id).tagsOf id' = s.tagsOf id' :=
  tagsOf_deleteTaskTags h

/-- The history row of another task does not see that a row is deleted. -/
private theorem logTask_delete {entry : Int → TaskHistoryRow} {id id' : Int} (h : id' ≠ id) :
    (s.delete id).logTask false entry id' = (s.logTask false entry id').delete id := by
  have hcopied : (s.delete id).copiedTags false id' = s.copiedTags false id' := by
    rw [Store.copiedTags, Store.copiedTags, tagsOf_delete h]
    rfl
  rw [Store.logTask, hcopied]
  rfl

private theorem logFails_delete {id id' : Int} (h : id' ≠ id) :
    (s.delete id).LogFails false id' ↔ s.LogFails false id' := by
  rw [Store.LogFails, Store.LogFails, Store.historyTagClash, Store.historyTagClash, tagsOf_delete h]
  rfl

private theorem logFailures_delete {id : Int} (h : id ∉ items.map (·.task.id)) (s : Store) :
    (s.delete id).logFailures now items = (s.logFailures now items).delete id ∧
      ((s.delete id).FailureLogsOk now items ↔ s.FailureLogsOk now items) := by
  have hne : ∀ item ∈ items, item.task.id ≠ id := by
    rintro item hitem rfl
    exact h (List.mem_map.2 ⟨item, hitem, rfl⟩)
  exact logEach_commute (c := (Store.delete · id)) (fun s item hitem => logTask_delete (hne item hitem))
    (fun s item hitem => logFails_delete (hne item hitem)) s

/-- The failures one after the other: all history rows, then all deletes. -/
private theorem mapList_failOnce (hn : (items.map (·.task.id)).Nodup) (s : Store) :
    (s.FailureLogsOk now items → ∃ us, Txn.mapList (failOnce now) items s =
      (.ok us, (items.map (·.task.id)).foldl Store.delete (s.logFailures now items))) ∧
    (¬ s.FailureLogsOk now items → ∃ e s', Txn.mapList (failOnce now) items s = (.error e, s')) := by
  induction items generalizing s with
  | nil => exact ⟨fun _ => ⟨[], rfl⟩, fun h => absurd trivial h⟩
  | cons item items ih =>
    rw [List.map_cons, List.nodup_cons] at hn
    have hround : ¬ s.LogFails false item.task.id →
        failOnce now item s = (.ok (), (s.logTask false (failedEntry now item) item.task.id).delete
            item.task.id) := by
      intro hf
      rw [failOnce, Txn.bind_of_ok (insertFailed_logs hf)]
      rfl
    obtain ⟨ihok, iherr⟩ := ih hn.2 ((s.logTask false (failedEntry now item) item.task.id).delete item.task.id)
    -- the later history rows may as well be written before the delete
    obtain ⟨hstore, hlogs⟩ : (_ = _) ∧ (_ ↔
        (s.logTask false (failedEntry now item) item.task.id).FailureLogsOk now items) :=
      logFailures_delete hn.1 (s.logTask false (failedEntry now item) item.task.id)
    constructor
    · rintro ⟨h₁, h₂⟩
      obtain ⟨us, hus⟩ := ihok (hlogs.2 h₂)
      refine ⟨() :: us, ?_⟩
      rw [Txn.mapList, Txn.bind_of_ok (hround h₁), Txn.bind_of_ok hus, hstore]
      rfl
    · intro h
      by_cases hf : s.LogFails false item.task.id
      · obtain ⟨e, s', he⟩ : ∃ e s', insertFailed false now item s = (.error e, s') := insertFailed_fails hf
        exact ⟨e, s', Txn.bind_of_error (Txn.bind_of_error he)⟩
      · obtain ⟨e, s', he⟩ := iherr fun hrest => h ⟨hf, hlogs.1 hrest⟩
        refine ⟨e, s', ?_⟩
        rw [Txn.mapList, Txn.bind_of_ok (hround hf)]
        exact Txn.bind_of_error he

/-- The deletes of a batch in one statement for each table. -/
private theorem foldl_delete (ids : List Int) (s : Store) :
    ids.foldl Store.delete s =
      (s.deleteTasks fun r => ids.contains r.id).withTags (s.taskTags.filter fun t => !ids.contains t.1) := by
  induction ids generalizing s with
  | nil => simp [Store.deleteTasks, Store.withTags]
  | cons id ids ih =>
    have hcons : ∀ x : Int, (!(id :: ids).contains x) = (!ids.contains x && !(x == id)) := by
      intro x
      rw [List.contains_cons, Bool.not_or, Bool.and_comm]
    rw [List.foldl_cons, ih, Store.deleteTasks, Store.deleteTasks]
    simp only [hcons]
    show ({ s with
      tasks := (s.tasks.filter fun r => !(r.id == id)).filter fun r => !ids.contains r.id
      taskTags := (s.taskTags.filter fun t => !(t.1 == id)).filter fun t => !ids.contains t.1 } : Store) = _
    rw [List.filter_filter, List.filter_filter]
    rfl

/-- The statements of `fail_batch` for several items. -/
private def failBody (skipTags : Bool) (now : Int) (items : List FailureItem) : Sql Unit := do
  let _ ← Txn.mapList (insertFailed skipTags now) items
  Txn.modify fun s => s.deleteTasks fun r => (items.map (·.task.id)).contains r.id
  Txn.modify fun s =>
    if skipTags then s else { s with taskTags := s.taskTags.filter fun t => !(items.map (·.task.id)).contains t.1 }

/-- Without tags it makes no difference whether they are looked at. -/
private theorem failBody_skip (hflag : s.hasTags = false → s.taskTags = []) :
    failBody (!s.hasTags) now items s = failBody false now items s := by
  cases hb : s.hasTags with
  | true => rfl
  | false =>
    have hone : ∀ item ∈ items, ∀ t : Store, t.taskTags = [] →
        insertFailed true now item t = insertFailed false now item t := by
      intro item _ t ht
      have hclash : t.historyTagClash item.task.id = false := by
        rw [Store.historyTagClash, Store.tagsOf, ht]
        rfl
      have hcopied : t.copiedTags false item.task.id = t.copiedTags true item.task.id := by
        rw [Store.copiedTags, Store.tagsOf, ht]
        rfl
      rw [insertFailed, insertFailed, insertHistory_apply, insertHistory_apply, hclash, hcopied]
      rfl
    have hkeep : ∀ item ∈ items, Txn.Ensures (fun t : Store => t.taskTags = []) (insertFailed true now item)
        fun _ t => t.taskTags = [] := by
      intro item _ t ht u t' h
      obtain ⟨tags, rfl⟩ := insertHistory_leaves h
      exact ht
    have hloop : Txn.mapList (insertFailed true now) items s = Txn.mapList (insertFailed false now) items s :=
      Txn.mapList_congr hone hkeep (hflag hb)
    rw [failBody, failBody, Bool.not_false, Txn.bind_apply, Txn.bind_apply, hloop]
    rcases hm : Txn.mapList (insertFailed false now) items s with ⟨e | us, s'⟩
    · rfl
    · -- the tag table is empty, so that deleting from it changes nothing
      have htags : s'.taskTags = [] := Txn.Ensures.mapList hkeep s (hflag hb) us s' (hloop.trans hm)
      have hnone : ({ s'.deleteTasks (fun r => (items.map (·.task.id)).contains r.id) with
          taskTags := s'.taskTags.filter fun t => !(items.map (·.task.id)).contains t.1 } : Store) =
          s'.deleteTasks fun r => (items.map (·.task.id)).contains r.id := by
        rw [htags, List.filter_nil, ← htags]
        rfl
      exact congrArg (Prod.mk _) hnone.symm

private theorem failBody_apply :
    (s.FailureLogsOk now items →
      failBody false now items s = (.ok (), (items.map (·.task.id)).foldl Store.delete (s.logFailures now items))) ∧
    (¬ s.FailureLogsOk now items → ∃ e s', failBody false now items s = (.error e, s')) := by
  have hlogs : (s.FailureLogsOk now items →
      ∃ us, Txn.mapList (insertFailed false now) items s = (.ok us, s.logFailures now items)) ∧
      (¬ s.FailureLogsOk now items → ∃ e s', Txn.mapList (insertFailed false now) items s = (.error e, s')) := by
    have hone : ∀ (item : FailureItem) (s : Store), ¬ s.LogFails false item.task.id →
        insertFailed false now item s = (.ok (), s.logTask false (failedEntry now item) item.task.id) :=
      fun item s h => insertFailed_logs h
    exact mapList_logs hone (fun item s h => insertFailed_fails h) items s
  obtain ⟨hok, herr⟩ := hlogs
  constructor
  · intro h
    obtain ⟨us, hus⟩ := hok h
    rw [failBody, Txn.bind_of_ok hus, foldl_delete]
    rfl
  · intro h
    obtain ⟨e, s', he⟩ := herr h
    exact ⟨e, s', Txn.bind_of_error he⟩

private theorem keeps_insertFailed {skipTags : Bool} (item : FailureItem) :
    Txn.Always Store.KeepsSettings (insertFailed skipTags now item) := keeps_insertHistory

/-- The batch does what the loop of its rounds does, or fails with it and changes nothing. -/
private theorem failBatchTx_loop (now : Int) (hn : (items.map (·.task.id)).Nodup)
    (hflag : s.hasTags = false → s.taskTags = []) :
    (∃ us s', Txn.mapList (failOnce now) items s = (.ok us, s') ∧ failBatchTx items now s = (.ok (), s')) ∨
    (∃ e s', Txn.mapList (failOnce now) items s = (.error e, s')) ∧ ∃ e, failBatchTx items now s = (.error e, s) := by
  have hkeep : ∀ item, Txn.Always Store.KeepsSettings (failOnce now item) := fun item =>
    keeps_bind (keeps_insertFailed item) fun _ => Txn.Always.modify fun _ => rfl
  rcases items with _ | ⟨first, _ | ⟨second, rest⟩⟩
  · exact .inl ⟨[], s, rfl, rfl⟩
  · have hstart : failBatchTx [first] now = transaction (failOnce now first) :=
      congrArg transaction (failInner_terminal first {})
    rw [hstart]
    rcases hround : failOnce now first s with ⟨e | u, s'⟩
    · exact .inr ⟨⟨e, s', Txn.bind_of_error hround⟩, e, transaction_fails hround (hkeep first)⟩
    · exact .inl ⟨[u], s', Txn.bind_of_ok hround, Txn.atomically_of_ok hround⟩
  · have hstart : failBatchTx (first :: second :: rest) now =
        transaction fun s => failBody (!s.hasTags) now (first :: second :: rest) s := rfl
    rw [hstart]
    obtain ⟨hloop, hloop'⟩ : (s.FailureLogsOk now (first :: second :: rest) → _) ∧ _ := mapList_failOnce hn s
    obtain ⟨hbody, hbody'⟩ : (s.FailureLogsOk now (first :: second :: rest) → _) ∧ _ := failBody_apply
    have hskip : failBody (!s.hasTags) now (first :: second :: rest) s =
        failBody false now (first :: second :: rest) s :=
      failBody_skip hflag
    by_cases hlogs : s.FailureLogsOk now (first :: second :: rest)
    · obtain ⟨us, hm⟩ := hloop hlogs
      exact .inl ⟨us, _, hm, Txn.atomically_of_ok (hskip.trans (hbody hlogs))⟩
    · obtain ⟨e, s', herr⟩ := hbody' hlogs
      refine .inr ⟨hloop' hlogs, e, transaction_fails (hskip.trans herr) fun s => ?_⟩
      refine keeps_bind (keeps_mapList keeps_insertFailed _) (fun _ => ?_) s
      refine keeps_bind (Txn.Always.modify fun _ => rfl) fun _ => Txn.Always.modify fun s => ?_
      split
      · rfl
      · rfl

/-- The calls one at a time do what the rounds of the loop do, as long as none fails. -/
private theorem each_fail (now : Int) (hp : s.retentionPolicy = none) (calls : List (FailureItem × FailBackoff)) :
    (∃ us, Txn.mapList (fun call => failOnce now call.1) calls s = (.ok us, (Txn.each (fun call =>
          failWithRecord call.1.task call.1.error call.1.retryable 0 call.1.metrics call.2 now) calls s).2) ∧
      (Txn.each (fun call => failWithRecord call.1.task call.1.error call.1.retryable 0 call.1.metrics call.2 now)
        calls s).1 = us.map .ok) ∨
    ((∃ e s', Txn.mapList (fun call => failOnce now call.1) calls s = (.error e, s')) ∧
      ∃ e, .error e ∈ (Txn.each (fun call =>
        failWithRecord call.1.task call.1.error call.1.retryable 0 call.1.metrics call.2 now) calls s).1) := by
  have hkeep : ∀ item, Txn.Always Store.KeepsSettings (failOnce now item) := fun item =>
    keeps_bind (keeps_insertFailed item) fun _ => Txn.Always.modify fun _ => rfl
  refine Txn.each_mapList (I := fun t => t.retentionPolicy = none) ?_ ?_ calls hp
  · rintro call t a t' hpol h
    have hk := hkeep call.1 t
    rw [h] at hk
    have hpol' : t'.retentionPolicy = none := (congrArg (·.2.2.2) hk).trans hpol
    have htx : failWithRecordTx call.1.task call.1.error call.1.retryable 0 call.1.metrics call.2 now t =
        (.ok a, t') := by
      rw [failWithRecordTx, failInner_terminal]
      exact Txn.atomically_of_ok h
    refine ⟨?_, hpol'⟩
    rw [failWithRecord, withPrune_none, htx]
    rw [htx]
    exact hpol'
  · rintro call t e t' hpol h
    have htx : failWithRecordTx call.1.task call.1.error call.1.retryable 0 call.1.metrics call.2 now t =
        (.error e, t.rollback t') := by
      rw [failWithRecordTx, failInner_terminal]
      exact Txn.atomically_of_error h
    exact ⟨_, Txn.bind_of_error htx⟩

end Failures

/-! ### The calls at their own times -/

section Calls

variable {s : Store}

/-- Calls of `complete_with_record_and_resolve` one after the other, each with the clock reading of its turn. -/
def completeEach (calls : List ((TaskRecord × IoBudget) × Int)) (s : Store) :
    List (Except StoreError (Int × Option (Int × Int) × List Int)) × Store :=
  Txn.each (fun call => completeWithRecordAndResolve call.1.1 call.1.2 call.2) calls s

/-- Calls of `fail_with_record` without retries one after the other. -/
def failEach (calls : List ((FailureItem × FailBackoff) × Int)) (s : Store) : List (Except StoreError Unit) × Store :=
  Txn.each (fun call => failWithRecord call.1.1.task call.1.1.error call.1.1.retryable 0 call.1.1.metrics
    call.1.2 call.2) calls s

/-- The rows of `ids` that are there are running. -/
def Store.RunningOrAbsent (s : Store) (ids : List Int) : Prop := ∀ r ∈ s.tasks, r.id ∈ ids → r.status = .running

instance (s : Store) (ids : List Int) : Decidable (s.RunningOrAbsent ids) :=
  inferInstanceAs (Decidable (∀ r ∈ s.tasks, r.id ∈ ids → r.status = .running))

/-- The stores agree up to timestamps, and nothing is ever pruned. -/
private def SameUnpruned (s t : Store) : Prop := s.SameUntimed t ∧ s.retentionPolicy = none

/-- Transactions that keep the settings, with `maybe_prune` after them. -/
private theorem alike_withPrune {α β : Type} {Q : α → β → Prop} {x : Sql α} {y : Sql β} {now now' : Int}
    (h : Txn.Alike Store.SameUntimed Q x y) (hx : Txn.Always Store.KeepsSettings x)
    (hy : Txn.Always Store.KeepsSettings y) :
    Txn.Alike SameUnpruned Q (withPrune now x) (withPrune now' y) := by
  rintro s t ⟨hst, hpol⟩
  have hpol' : t.retentionPolicy = none := (congrArg Store.retentionPolicy hst).symm.trans hpol
  have hx' : (x s).2.retentionPolicy = none := (congrArg (·.2.2.2) (hx s)).trans hpol
  have hy' : (y t).2.retentionPolicy = none := (congrArg (·.2.2.2) (hy t)).trans hpol'
  rw [withPrune_none hx', withPrune_none hy']
  obtain ⟨hout, hst'⟩ := h s t hst
  exact ⟨hout, hst', hx'⟩

private theorem keeps_transaction {α : Type} {x : Sql α} (hx : Txn.Always Store.KeepsSettings x) :
    Txn.Always Store.KeepsSettings (transaction x) := by
  refine hx.atomically fun s s' h => ?_
  rw [h.rollback]
  exact keeps_refl s

private theorem alike_complete (item : TaskRecord × IoBudget) (now now' : Int) :
    Txn.Alike SameUnpruned SameReport (completeWithRecordAndResolve item.1 item.2 now)
      (completeWithRecordAndResolve item.1 item.2 now') :=
  alike_withPrune (alike_completeAndResolveTx item.1 item.2 now now')
    (keeps_transaction fun s => keeps_completeAndResolve _ s)
      (keeps_transaction fun s => keeps_completeAndResolve _ s)

private theorem alike_fail (item : FailureItem) (backoff : FailBackoff) (now now' : Int) :
    Txn.Alike SameUnpruned (fun _ _ => True)
      (failWithRecord item.task item.error item.retryable 0 item.metrics backoff now)
      (failWithRecord item.task item.error item.retryable 0 item.metrics backoff now') := by
  have hkeep : ∀ now, Txn.Always Store.KeepsSettings
      (failWithRecordTx item.task item.error item.retryable 0 item.metrics backoff now) := by
    intro now
    refine keeps_transaction ?_
    rw [failInner_terminal]
    exact keeps_bind (keeps_insertFailed item) fun _ => Txn.Always.modify fun _ => rfl
  exact alike_withPrune (alike_failWithRecordTx _ _ _ _ _ _ _) (hkeep now) (hkeep now')

private theorem unblockedIds_of_sameReport {as bs : List (Int × Option (Int × Int) × List Int)}
    (h : List.Forall₂ SameReport as bs) : unblockedIds as = unblockedIds bs := by
  induction h with
  | nil => rfl
  | cons hab _ ih =>
    rw [unblockedIds, unblockedIds, List.map_cons, List.map_cons, List.flatten_cons, List.flatten_cons, hab.2.2]
    exact congrArg _ ih

/-- A bracket and a prune around a loop that kept the settings. -/
private theorem completeBatch_eq {items : List (TaskRecord × IoBudget)} {now : Int} {s' : Store}
    {r : Except StoreError (List (Int × Option (Int × Int) × List Int))} (h : completeBatchTx items now s = (r, s'))
    (hp : s'.retentionPolicy = none) : completeBatchWithResolve items now s = (r, s') := by
  rw [completeBatchWithResolve]
  split
  · rename_i hempty
    rw [List.isEmpty_iff] at hempty
    rw [hempty] at h
    exact h
  · rw [withPrune_none, h]
    rw [h]
    exact hp

private theorem failBatch_eq {items : List FailureItem} {now : Int} {s' : Store} {r : Except StoreError Unit}
    (h : failBatchTx items now s = (r, s')) (hp : s'.retentionPolicy = none) : failBatch items now s = (r, s') := by
  rw [failBatch]
  split
  · rename_i hempty
    rw [List.isEmpty_iff] at hempty
    rw [hempty] at h
    exact h
  · rw [withPrune_none, h]
    rw [h]
    exact hp

/-- Completions as a batch and one at a time. -/
private theorem completeBatch_refines (hs : s.Schema) (hp : s.retentionPolicy = none) (now : Int)
    (calls : List ((TaskRecord × IoBudget) × Int)) (hn : (calls.map (·.1.1.id)).Nodup)
    (hrun : s.RunningOrAbsent (calls.map (·.1.1.id))) :
    (∃ results results' s', completeBatchWithResolve (calls.map Prod.fst) now s = (.ok results, s') ∧
      (completeEach calls s).1 = results'.map .ok ∧ s'.SameUntimed (completeEach calls s).2 ∧
      ((∀ call ∈ calls, call.2 = now) → s' = (completeEach calls s).2) ∧
      (unblockedIds results).Perm (unblockedIds results') ∧ (unblockedIds results).Nodup) ∨
    ((∃ e, .error e ∈ (completeEach calls s).1) ∧
      ∃ e, completeBatchWithResolve (calls.map Prod.fst) now s = (.error e, s)) := by
  have hmap : (calls.map Prod.fst).map (·.1.id) = calls.map (·.1.1.id) := List.map_map
  have hb : s.NoneBlocked ((calls.map Prod.fst).map (·.1.id)) := by
    intro r hr hid hst
    rw [hrun r hr (hmap ▸ hid)] at hst
    cases hst
  -- the same calls, all at the time of the batch
  have hnow := Txn.each_map (fun item : TaskRecord × IoBudget => completeWithRecordAndResolve item.1 item.2 now)
    Prod.fst calls s
  have hstart : SameUnpruned s s := ⟨rfl, hp⟩
  obtain ⟨houts, hend, hpol⟩ := Txn.Alike.each
    (fun call (_ : call ∈ calls) => alike_complete call.1 call.2 now) hstart
  have hsame : (∀ call ∈ calls, call.2 = now) → (completeEach calls s).2 =
      (Txn.each (fun call : (TaskRecord × IoBudget) × Int => completeWithRecordAndResolve call.1.1 call.1.2 now)
          calls s).2 := by
    intro hall
    refine congrArg Prod.snd (Txn.each_congr (fun call hcall => ?_) s)
    rw [hall call hcall]
  rcases each_complete now (calls.map Prod.fst) hp with ⟨results, hloop, hres⟩ | ⟨⟨e, s', hloop⟩, e', hres⟩
  · rw [hnow] at hloop hres
    rcases completeBatchTx_loop now hs.ids (hmap ▸ hn) hb with
      ⟨results₁, results₂, s', hl, htx, hperm⟩ | ⟨⟨e, s', hl⟩, _⟩
    · rw [hloop] at hl
      cases hl
      rw [hres] at houts
      obtain ⟨results', hok, hrep⟩ := SameOutcome.all_ok houts
      have hpol' := (congrArg Store.retentionPolicy hend).symm.trans hpol
      refine .inl ⟨results₂, results', _, completeBatch_eq htx hpol', hok, hend.symm, fun hall =>
        (hsame hall).symm, ?_, ?_⟩
      · rw [unblockedIds_of_sameReport hrep]
        exact hperm
      · exact hperm.nodup_iff.2 (mapList_unblocks hs hloop).1
    · rw [hloop] at hl
      cases hl
  · rw [hnow] at hres
    rcases completeBatchTx_loop now hs.ids (hmap ▸ hn) hb with ⟨_, _, _, hl, _⟩ | ⟨_, e₂, htx⟩
    · rw [hloop] at hl
      cases hl
    · exact .inr ⟨⟨e', SameOutcome.error_mem houts hres⟩, e₂, completeBatch_eq htx hp⟩

/-- Failures as a batch and one at a time. -/
private theorem failBatch_refines (hp : s.retentionPolicy = none) (hflag : s.hasTags = false → s.taskTags = [])
    (now : Int) (calls : List ((FailureItem × FailBackoff) × Int)) (hn : (calls.map (·.1.1.task.id)).Nodup) :
    (∃ s', failBatch (calls.map (·.1.1)) now s = (.ok (), s') ∧ (∀ r ∈ (failEach calls s).1, r = .ok ()) ∧
      s'.SameUntimed (failEach calls s).2 ∧ ((∀ call ∈ calls, call.2 = now) → s' = (failEach calls s).2)) ∨
    ((∃ e, .error e ∈ (failEach calls s).1) ∧ ∃ e, failBatch (calls.map (·.1.1)) now s = (.error e, s)) := by
  have hmap : (calls.map (·.1.1)).map (·.task.id) = calls.map (·.1.1.task.id) := List.map_map
  have hnow := Txn.each_map (fun call : FailureItem × FailBackoff =>
    failWithRecord call.1.task call.1.error call.1.retryable 0 call.1.metrics call.2 now) Prod.fst calls s
  have hstart : SameUnpruned s s := ⟨rfl, hp⟩
  obtain ⟨houts, hend, hpol⟩ := Txn.Alike.each
    (fun call (_ : call ∈ calls) => alike_fail call.1.1 call.1.2 call.2 now) hstart
  have hsame : (∀ call ∈ calls, call.2 = now) → (failEach calls s).2 =
      (Txn.each (fun call : (FailureItem × FailBackoff) × Int => failWithRecord call.1.1.task call.1.1.error
        call.1.1.retryable 0 call.1.1.metrics call.1.2 now) calls s).2 := by
    intro hall
    refine congrArg Prod.snd (Txn.each_congr (fun call hcall => ?_) s)
    rw [hall call hcall]
  have hrounds : Txn.mapList (fun call : FailureItem × FailBackoff => failOnce now call.1) (calls.map Prod.fst) s =
      Txn.mapList (failOnce now) (calls.map (·.1.1)) s := by
    rw [Txn.mapList_map, Txn.mapList_map]
  rcases each_fail now hp (calls.map Prod.fst) with ⟨us, hloop, hres⟩ | ⟨⟨e, s', hloop⟩, e', hres⟩
  · rw [hnow] at hres
    rw [hrounds, hnow] at hloop
    rcases failBatchTx_loop now (hmap ▸ hn) hflag with ⟨us', s', hl, htx⟩ | ⟨⟨e, s', hl⟩, _⟩
    · rw [hloop] at hl
      cases hl
      rw [hres] at houts
      obtain ⟨us'', hok, _⟩ := SameOutcome.all_ok houts
      have hpol' := (congrArg Store.retentionPolicy hend).symm.trans hpol
      refine .inl ⟨_, failBatch_eq htx hpol', ?_, hend.symm, fun hall => (hsame hall).symm⟩
      intro r hr
      rw [failEach, hok] at hr
      obtain ⟨u, _, rfl⟩ := List.mem_map.1 hr
      rfl
    · rw [hloop] at hl
      cases hl
  · rw [hnow] at hres
    rw [hrounds] at hloop
    rcases failBatchTx_loop now (hmap ▸ hn) hflag with ⟨_, _, hl, _⟩ | ⟨_, e₂, htx⟩
    · rw [hloop] at hl
      cases hl
    · exact .inr ⟨⟨e', SameOutcome.error_mem houts hres⟩, e₂, failBatch_eq htx hp⟩

/-- A store that keeps its history, and two tasks that run in it, the first with a tag. -/
private def unpruned : Store := { openMemory with retentionPolicy := none }

private def taggedA : TaskSubmission := { TaskSubmission.new "a" with tags := ⟨[("k", "v")], by decide⟩ }

private def dispatchBoth : List Action :=
  [.submitDirect taggedA 0, .submitDirect (TaskSubmission.new "b") 0, .claimTask 1 0, .claimTask 2 0]

private def bothRunning : Store := execAll sampleSha256 unpruned dispatchBoth

/-- Their completions, at different times. -/
private def completions (s : Store) : List ((TaskRecord × IoBudget) × Int) :=
  s.tasks.map fun r => ((rowToTaskRecord r, {}), r.id)

/-- A task and a tagged one complete, their history rows are pruned and the tag of the second one stays; then the
two tasks start. -/
private def orphaningRun : List Action :=
  [.submitDirect (.new "c") 0, .submitDirect taggedA 0, .claimTask 1 0, .claimTask 2 0, .complete 1 {} 0,
    .complete 2 {} 0, .pruneHistoryByCount 0] ++ dispatchBoth

private def orphanedTag : Store := execAll sampleSha256 unpruned orphaningRun

end Calls

end Taskmill
