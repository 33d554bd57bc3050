import Taskmill.Rows

/-!
# The aging clock

The age of a task leaves out the time it was paused: `pause_duration_ms`, and while it is paused the time since
`paused_at_ms` (`src/scheduler/aging.rs`).  `Timeline` keeps beside the store how long the row with an id and a
creation time really was in the status `paused`, and `Timeline.Exact` says that the columns tell the same.

The columns go wrong when a pause ends without being added: `recover_running` closes the open pauses of rows that stay
paused, and a paused row that is superseded, retried or requeued becomes pending with its `paused_at_ms` left behind.
-/

namespace Taskmill

open Transact

/-! ### Time spent paused -/

/-- What the columns say at time `t` about the time spent paused. -/
def TaskRow.pausedMs (r : TaskRow) (t : Int) : Int :=
  r.pauseDurationMs + if r.status = .paused then (r.pausedAtMs.map (t - ·)).getD 0 else 0

/-- The store, the time of the last step, and for an id and a creation time how long such a row was paused until
then. -/
structure Timeline where
  store : Store
  clock : Int
  spent : Int → Int → Int

/-- A row with this id and creation time is paused. -/
def Timeline.isPaused (σ : Timeline) (id createdAt : Int) : Bool :=
  σ.store.tasks.any fun r => r.id == id && r.createdAt == createdAt && r.status == .paused

/-- The time spent paused until `t`, if nothing happens before. -/
def Timeline.pausedFor (σ : Timeline) (id createdAt t : Int) : Int :=
  σ.spent id createdAt + if σ.isPaused id createdAt then t - σ.clock else 0

def Timeline.step (sha256 : List UInt8 → String) (σ : Timeline) (x : Int × Action) : Timeline where
  store := x.2.exec sha256 σ.store
  clock := x.1
  spent := fun id createdAt => σ.pausedFor id createdAt x.1

/-- A new store, in which nothing was ever paused. -/
structure Timeline.Start (σ : Timeline) : Prop where
  fresh : σ.store.Fresh
  none : ∀ id createdAt, σ.spent id createdAt = 0

/-- The columns tell the time spent paused: it is not negative and lies within the life of the row, and it grows
with the time while the row is paused, so that the row does not age. -/
structure Timeline.Exact (σ : Timeline) : Prop where
  told : ∀ r ∈ σ.store.tasks, ∀ t, σ.clock ≤ t → r.pausedMs t = σ.pausedFor r.id r.createdAt t
  nonneg : ∀ r ∈ σ.store.tasks, ∀ t, σ.clock ≤ t → 0 ≤ r.pausedMs t
  within : ∀ r ∈ σ.store.tasks, ∀ t, σ.clock ≤ t → r.pausedMs t ≤ t - r.createdAt
  frozen : ∀ r ∈ σ.store.tasks, r.status = .paused → ∀ t, σ.clock ≤ t →
    t - r.createdAt - r.pausedMs t = σ.clock - r.createdAt - r.pausedMs σ.clock

/-! ### Steps at one time -/

def RowUpdate.times : RowUpdate → List Int
  | .requeueForRetry _ _ _ now | .pause _ _ now | .resume _ now | .resumeSole _ _ now | .pausePendingInGroup _ now
  | .pausePendingByTypePrefix _ now | .setRunningForFinalize _ now => [now]
  | _ => []

/-- The times a step reads from the clock. -/
def Action.times : Action → List Int
  | .update u => u.times
  | .processSubmitBatch _ batch => batch.map (·.2)
  | .submitDirect _ now | .submitChunk _ _ now _ | .claimTask _ now | .popById _ now | .popNextBatch _ _ now
  | .complete _ _ now | .completeWithRecord _ _ now | .completeBatch _ now | .resolveDependents _ now
  | .fail _ _ _ _ _ _ now | .failWithRecord _ _ _ _ _ _ now | .failBatch _ now | .failDependents _ now
  | .cancelToHistory _ now | .cancelToHistoryWithRecord _ now | .cancelChildren _ _ now | .expireTasks now
  | .expireSingle _ now | .pauseGroupState _ _ now | .pruneHistoryByAge _ now | .maybePrune now
  | .recoverRunning now => [now]
  | .resumeGroupState _ | .delete _ | .deleteHistory _ | .pruneHistoryByCount _ => []

/-- The times do not decrease, and a step happens at its time. -/
def Timeline.Timely (σ : Timeline) (x : Int × Action) : Prop := σ.clock ≤ x.1 ∧ ∀ t ∈ x.2.times, t = x.1

/-- The submission does not supersede a paused task. -/
def TaskSubmission.SparesPaused (sha256 : List UInt8 → String) (sub : TaskSubmission) (s : Store) : Prop :=
  sub.onDuplicate = .supersede → ∀ r ∈ s.tasks, r.key = sub.effectiveKey sha256 → r.status ≠ .paused

/-- The requeue of a completed task does not find it paused. -/
def Store.RequeuesUnpaused (s : Store) (ids : List Int) : Prop :=
  ∀ r ∈ s.tasks, r.id ∈ ids → r.requeue = true → r.status ≠ .paused

/-- No pause is cut off: a recovery finds no paused row, and a paused row is neither superseded nor retried nor
requeued. -/
def Action.SparesPauses (sha256 : List UInt8 → String) (s : Store) : Action → Prop
  | .update (.requeueForRetry id _ _ _) => ∀ r ∈ s.tasks, r.id = id → r.status ≠ .paused
  | .submitDirect sub _ => sub.SparesPaused sha256 s
  | .processSubmitBatch skipRequeue batch =>
    Along (fun σ m => (submitOne sha256 m.1 skipRequeue m.2 σ).2) (fun σ m => m.1.SparesPaused sha256 σ) s batch
  | .submitChunk skipRequeue last now chunk =>
    Along (fun s item => (submitItem sha256 skipRequeue last now item s).2)
      (fun σ item => last item.1 (item.2.effectiveKey sha256) = true → item.2.SparesPaused sha256 σ) s chunk
  | .complete id _ _ => s.RequeuesUnpaused [id]
  | .completeWithRecord task _ _ => s.RequeuesUnpaused [task.id]
  | .completeBatch items _ => s.RequeuesUnpaused (items.map (·.1.id))
  | .fail id _ retryable maxRetries _ _ _ =>
    ∀ r, s.taskById id = some r → (rowToTaskRecord r).willRetry retryable maxRetries = true → r.status ≠ .paused
  | .failWithRecord task _ retryable maxRetries _ _ _ =>
    task.willRetry retryable maxRetries = true → ∀ r ∈ s.tasks, r.id = task.id → r.status ≠ .paused
  | .recoverRunning _ => ∀ r ∈ s.tasks, r.status ≠ .paused
  | _ => True

/-! ### One step -/

/-- The columns of the row agree with the time spent at `now`; a blocked row has no requeue to come. -/
structure TaskRow.Accounted (spent : Int → Int → Int) (now : Int) (r : TaskRow) : Prop where
  created : r.createdAt ≤ now
  running : r.status = .paused → ∃ since, r.pausedAtMs = some since ∧
    r.pauseDurationMs + (now - since) = spent r.id r.createdAt
  stopped : r.status ≠ .paused → r.pausedAtMs = none ∧ r.pauseDurationMs = spent r.id r.createdAt
  idle : r.status = .blocked → r.requeue = false

section Rows

variable {spent : Int → Int → Int} {now : Int} {r : TaskRow}

/-- A row that is created now. -/
private theorem accounted_new (hnew : ∀ id, spent id now = 0) (hcreated : r.createdAt = now)
    (hstatus : r.status ≠ .paused) (hat : r.pausedAtMs = none) (hduration : r.pauseDurationMs = 0)
    (hrequeue : r.requeue = false) : r.Accounted spent now := by
  refine ⟨by omega, fun h => absurd h hstatus, fun _ => ⟨hat, ?_⟩, fun _ => hrequeue⟩
  rw [hcreated, hnew, hduration]

/-- A change that keeps the columns and the pause. -/
private theorem TaskRow.Accounted.same {r' : TaskRow} (h : r.Accounted spent now) (hid : r'.id = r.id)
    (hcreated : r'.createdAt = r.createdAt) (hstatus : r'.status = .paused ↔ r.status = .paused)
    (hat : r'.pausedAtMs = r.pausedAtMs) (hduration : r'.pauseDurationMs = r.pauseDurationMs)
    (hidle : r'.status = .blocked → r'.requeue = false) : r'.Accounted spent now := by
  refine ⟨by rw [hcreated]; exact h.created, fun hp => ?_, fun hp => ?_, hidle⟩
  · rw [hat, hduration, hid, hcreated]
    exact h.running (hstatus.1 hp)
  · rw [hat, hduration, hid, hcreated]
    exact h.stopped fun hr => hp (hstatus.2 hr)

/-- A pause starts now, or goes on. -/
private theorem TaskRow.Accounted.pauseFor (h : r.Accounted spent now) (reason : PauseReasons) :
    (r.pauseFor reason now).Accounted spent now := by
  refine ⟨h.created, fun _ => ?_, fun hp => absurd rfl hp, fun hb => (nomatch hb)⟩
  by_cases hr : r.status = .paused
  · obtain ⟨since, hsince, htold⟩ := h.running hr
    exact ⟨since, by simp [TaskRow.pauseFor, hsince], htold⟩
  · obtain ⟨hnone, htold⟩ := h.stopped hr
    refine ⟨now, by simp [TaskRow.pauseFor, hnone], ?_⟩
    show r.pauseDurationMs + (now - now) = spent r.id r.createdAt
    omega

/-- A pause ends now, and its time is added. -/
private theorem TaskRow.Accounted.resume (h : r.Accounted spent now) (hr : r.status = .paused) :
    (r.resume now).Accounted spent now := by
  refine ⟨h.created, fun hp => (nomatch hp), fun _ => ⟨rfl, ?_⟩, fun hb => (nomatch hb)⟩
  obtain ⟨since, hsince, htold⟩ := h.running hr
  show r.pauseDurationMs + (r.pausedAtMs.map (now - ·)).getD 0 = spent r.id r.createdAt
  rw [hsince]
  exact htold

/-- A row that is not paused becomes pending, running or waiting. -/
private theorem TaskRow.Accounted.move {r' : TaskRow} (h : r.Accounted spent now) (hr : r.status ≠ .paused)
    (hid : r'.id = r.id) (hcreated : r'.createdAt = r.createdAt)
    (hstatus : r'.status ≠ .paused ∧ r'.status ≠ .blocked) (hat : r'.pausedAtMs = r.pausedAtMs)
    (hduration : r'.pauseDurationMs = r.pauseDurationMs) : r'.Accounted spent now :=
  h.same hid hcreated (iff_of_false hstatus.1 hr) hat hduration fun hb => absurd hb hstatus.2

end Rows

section Step

variable {sha256 : List UInt8 → String} {spent : Int → Int → Int} {now : Int} {s : Store}

private theorem accounted_submission (hnew : ∀ id, spent id now = 0) {sub : TaskSubmission}
    (hrows : s.Rows (TaskRow.Accounted spent now)) (hspares : sub.SparesPaused sha256 s) :
    sub.KeepsRows sha256 (TaskRow.Accounted spent now) now s where
  pending _ _ := accounted_new hnew rfl nofun rfl rfl rfl
  paused _ _ := by
    refine TaskRow.Accounted.pauseFor (accounted_new hnew rfl ?_ rfl rfl rfl) .group
    nofun
  blocked := accounted_new hnew rfl nofun rfl rfl rfl
  upgraded r hr _ _ _ := (hrows r hr).same rfl rfl Iff.rfl rfl rfl (hrows r hr).idle
  requeued r hr _ hst := by
    refine (hrows r hr).same rfl rfl Iff.rfl rfl rfl fun hb => ?_
    have hblocked : r.status = .blocked := hb
    rw [hblocked] at hst
    rcases hst with hst | hst
    · cases hst
    · cases hst
  superseded hdup r hr hkey _ := (hrows r hr).move (hspares hdup r hr hkey) rfl rfl ⟨nofun, nofun⟩ rfl rfl
  replaced _ _ _ _ _ := accounted_new hnew rfl nofun rfl rfl rfl

private theorem accounted_freeRow {r : TaskRow} (h : r.Accounted spent now) (hr : r.status = .blocked) :
    (s.freeRow now r).Accounted spent now := by
  have hpending : { r with status := .pending }.Accounted spent now :=
    h.move (by simp [hr]) rfl rfl ⟨nofun, nofun⟩ rfl rfl
  rw [Store.freeRow]
  split
  · exact hpending.pauseFor .group
  · exact hpending

/-- The rows while the tasks `ids` are completed: none of them is paused with a requeue to come. -/
private def AccountedFor (spent : Int → Int → Int) (now : Int) (ids : List Int) (r : TaskRow) : Prop :=
  r.Accounted spent now ∧ (r.id ∈ ids → r.requeue = true → r.status ≠ .paused)

private theorem accountedFor_completion (hnew : ∀ id, spent id now = 0) {tasks : List TaskRecord} {ids : List Int}
    (hids : tasks.map (·.id) = ids) : CompletionKeepsRows (AccountedFor spent now ids) tasks now s where
  reset r hr hmem hreq inst _ := by
    rw [hids] at hmem
    exact ⟨hr.1.move (hr.2 hmem hreq) rfl rfl ⟨nofun, nofun⟩ rfl rfl, fun _ h => (nomatch h)⟩
  next task _ interval _ id inst _ := by
    have hinstance : { task.nextInstance interval now with id := id, inst := inst }.Accounted spent now :=
      accounted_new hnew rfl nofun rfl rfl rfl
    split
    · exact ⟨hinstance.pauseFor .group, fun _ h => (nomatch h)⟩
    · exact ⟨hinstance, fun _ h => (nomatch h)⟩

private theorem accountedFor_freeing (ids : List Int) : FreeingKeepsRows (AccountedFor spent now ids) now s := by
  intro r hr hst
  refine ⟨accounted_freeRow hr.1 hst, fun _ hreq => ?_⟩
  have hidle : r.requeue = false := hr.1.idle hst
  have hflag : (s.freeRow now r).requeue = r.requeue := by
    rw [Store.freeRow]
    split
    · rfl
    · rfl
  rw [hflag, hidle] at hreq
  cases hreq

private theorem accounted_update (hrows : s.Rows (TaskRow.Accounted spent now)) {u : RowUpdate}
    (htimes : ∀ t ∈ u.times, t = now) (hspares : (Action.update u).SparesPauses sha256 s) {r : TaskRow}
    (hr : r ∈ s.tasks) (hsel : u.selects r = true) :
    (u.change r).Accounted spent now := by
  have h := hrows r hr
  cases u with
  | requeue id =>
    have hrunning : r.status = .running := by simpa [RowUpdate.selects] using (Bool.and_eq_true_iff.1 hsel).2
    exact h.move (by rw [hrunning]; nofun) rfl rfl ⟨nofun, nofun⟩ rfl rfl
  | setRunAfter id runAfter => exact h.same rfl rfl Iff.rfl rfl rfl h.idle
  | incrementRetry id error => exact h.same rfl rfl Iff.rfl rfl rfl h.idle
  | requeueForRetry id error delay now' =>
    have hid : r.id = id := by simpa [RowUpdate.selects] using hsel
    exact h.move (hspares r hr hid) rfl rfl ⟨nofun, nofun⟩ rfl rfl
  | pause id reason now' =>
    obtain rfl : now' = now := htimes now' (List.mem_singleton_self _)
    have hpaused := h.pauseFor reason
    exact hpaused.same rfl rfl Iff.rfl rfl rfl hpaused.idle
  | resume id now' =>
    obtain rfl : now' = now := htimes now' (List.mem_singleton_self _)
    exact h.resume (by simpa using (Bool.and_eq_true_iff.1 hsel).2)
  | resumeSole sel reason now' =>
    obtain rfl : now' = now := htimes now' (List.mem_singleton_self _)
    simp only [RowUpdate.selects, Bool.and_eq_true, beq_iff_eq] at hsel
    exact h.resume hsel.1.2
  | clearBit sel reason => exact h.same rfl rfl Iff.rfl rfl rfl h.idle
  | addGroupBit group => exact h.same rfl rfl Iff.rfl rfl rfl h.idle
  | pausePendingInGroup group now' =>
    obtain rfl : now' = now := htimes now' (List.mem_singleton_self _)
    exact h.pauseFor .group
  | pausePendingByTypePrefix like now' =>
    obtain rfl : now' = now := htimes now' (List.mem_singleton_self _)
    exact h.pauseFor .module
  | setWaiting id memo =>
    have hrunning : r.status = .running := by simpa [RowUpdate.selects] using (Bool.and_eq_true_iff.1 hsel).2
    exact h.move (by rw [hrunning]; nofun) rfl rfl ⟨nofun, nofun⟩ rfl rfl
  | setRunningForFinalize id now' =>
    have hwaiting : r.status = .waiting := by simpa [RowUpdate.selects] using (Bool.and_eq_true_iff.1 hsel).2
    exact h.move (by rw [hwaiting]; nofun) rfl rfl ⟨nofun, nofun⟩ rfl rfl
  | setRecurringPaused id paused => exact h.same rfl rfl Iff.rfl rfl rfl h.idle

private theorem accounted_claim {r : TaskRow} (h : r.Accounted spent now) (hr : r.status = .pending) (now' : Int) :
    (r.claim now').Accounted spent now :=
  h.move (by simp [hr]) rfl rfl ⟨nofun, nofun⟩ rfl rfl

private theorem accounted_retry {r : TaskRow} (h : r.Accounted spent now) (hr : r.status ≠ .paused) (error : String)
    (delay : Duration) (now' : Int) : (r.retry error delay now').Accounted spent now :=
  h.move hr rfl rfl ⟨nofun, nofun⟩ rfl rfl

/-- A step at time `now` that cuts off no pause keeps the columns right. -/
private theorem accounted_exec (hschema : s.Schema) (hnew : ∀ id, spent id now = 0)
    (hrows : s.Rows (TaskRow.Accounted spent now)) {a : Action} (htimes : ∀ t ∈ a.times, t = now)
    (hspares : a.SparesPauses sha256 s) : (a.exec sha256 s).Rows (TaskRow.Accounted spent now) := by
  have hkeep (hk : a.KeepsRows sha256 (TaskRow.Accounted spent now) s) :
      (a.exec sha256 s).Rows (TaskRow.Accounted spent now) :=
    a.rows_exec sha256 hschema hrows hk
  -- completions, with what is known of the completed rows carried along
  have hcomplete (ids : List Int) (hids : s.RequeuesUnpaused ids)
    (hk : a.KeepsRows sha256 (AccountedFor spent now ids) s) :
      (a.exec sha256 s).Rows (TaskRow.Accounted spent now) := by
    have hrows' : s.Rows (AccountedFor spent now ids) := fun r hr => ⟨hrows r hr, hids r hr⟩
    exact fun r hr => (a.rows_exec sha256 hschema hrows' hk r hr).1
  cases a with
  | update u => exact hkeep fun r hr hsel => accounted_update hrows htimes hspares hr hsel
  | submitDirect sub now' =>
    obtain rfl : now' = now := htimes now' (List.mem_singleton_self _)
    exact hkeep (accounted_submission hnew hrows hspares)
  | processSubmitBatch skipRequeue batch =>
    refine hkeep (Along.iff_getElem.2 fun n m hm hσ => ?_)
    have hspared := Along.iff_getElem.1 hspares n m hm
    obtain rfl : m.2 = now := htimes m.2 (List.mem_map_of_mem (List.mem_of_getElem? hm))
    exact ⟨accounted_submission hnew hσ.rows hspared, fun _ => accounted_new hnew rfl nofun rfl rfl rfl⟩
  | submitChunk skipRequeue last now' chunk =>
    obtain rfl : now' = now := htimes now' (List.mem_singleton_self _)
    refine hkeep (Along.iff_getElem.2 fun n item hitem hσ hlast => ?_)
    exact accounted_submission hnew hσ.rows (Along.iff_getElem.1 hspares n item hitem hlast)
  | claimTask id now' => exact hkeep fun r hr _ hst => accounted_claim (hrows r hr) hst now'
  | popById id now' => exact hkeep fun r hr _ hst => accounted_claim (hrows r hr) hst now'
  | popNextBatch limit aging now' =>
    refine hkeep fun r hr hel => accounted_claim (hrows r hr) ?_ now'
    simp only [TaskRow.eligible, TaskRow.due, Bool.and_eq_true, beq_iff_eq] at hel
    exact hel.1.1
  | complete id metrics now' =>
    obtain rfl : now' = now := htimes now' (List.mem_singleton_self _)
    refine hcomplete [id] hspares fun row hrow => accountedFor_completion hnew ?_
    have hid : row.id = id := by simpa using List.find?_some hrow
    rw [← hid]
    rfl
  | completeWithRecord task metrics now' =>
    obtain rfl : now' = now := htimes now' (List.mem_singleton_self _)
    exact hcomplete [task.id] hspares (accountedFor_completion hnew rfl)
  | completeBatch items now' =>
    obtain rfl : now' = now := htimes now' (List.mem_singleton_self _)
    exact hcomplete _ hspares ⟨accountedFor_completion hnew (by rw [List.map_map]; rfl), accountedFor_freeing _⟩
  | resolveDependents id now' =>
    obtain rfl : now' = now := htimes now' (List.mem_singleton_self _)
    exact hkeep fun r hr hst => accounted_freeRow hr hst
  | failDependents id now' =>
    obtain rfl : now' = now := htimes now' (List.mem_singleton_self _)
    exact hkeep fun r hr hst => accounted_freeRow hr hst
  | fail id error retryable maxRetries metrics backoff now' =>
    exact hkeep fun r hr hretry => accounted_retry (hrows r (List.mem_of_find?_eq_some hr))
      (hspares r hr hretry) _ _ now'
  | failWithRecord task error retryable maxRetries metrics backoff now' =>
    exact hkeep fun hretry r hr hid => accounted_retry (hrows r hr) (hspares hretry r hr hid) _ _ now'
  | recoverRunning now' =>
    refine hkeep ⟨fun r hr _ => ?_, fun r hr hst _ => absurd hst (hspares r hr), fun r hr _ _ _ => ?_⟩
    · exact (hrows r hr).move (hspares r hr) rfl rfl ⟨nofun, nofun⟩ rfl rfl
    · exact (hrows r hr).move (hspares r hr) rfl rfl ⟨nofun, nofun⟩ rfl rfl
  | _ => exact hkeep trivial

end Step

/-! ### Runs -/

/-- The columns agree with the time spent, and no row was paused before it was created. -/
structure Timeline.Kept (σ : Timeline) : Prop where
  schema : σ.store.Schema
  rows : σ.store.Rows (TaskRow.Accounted σ.spent σ.clock)
  bound : ∀ id createdAt, 0 ≤ σ.spent id createdAt ∧ σ.spent id createdAt ≤ max 0 (σ.clock - createdAt)

section Runs

variable {sha256 : List UInt8 → String} {σ : Timeline}

private theorem Timeline.Kept.isPaused_iff (h : σ.Kept) {r : TaskRow} (hr : r ∈ σ.store.tasks) :
    σ.isPaused r.id r.createdAt = true ↔ r.status = .paused := by
  unfold Timeline.isPaused
  simp only [List.any_eq_true, Bool.and_eq_true, beq_iff_eq]
  constructor
  · rintro ⟨r', hr', ⟨hid, _⟩, hst⟩
    rw [← h.schema.eq_of_id hr' hr hid]
    exact hst
  · intro hst
    exact ⟨r, hr, ⟨rfl, rfl⟩, hst⟩

/-- What the columns say, at any time before the next step. -/
private theorem Timeline.Kept.pausedMs_eq (h : σ.Kept) {r : TaskRow} (hr : r ∈ σ.store.tasks) (t : Int) :
    r.pausedMs t = σ.pausedFor r.id r.createdAt t := by
  unfold TaskRow.pausedMs Timeline.pausedFor
  by_cases hst : r.status = .paused
  · obtain ⟨since, hsince, htold⟩ := (h.rows r hr).running hst
    rw [if_pos hst, if_pos ((h.isPaused_iff hr).2 hst), hsince]
    show r.pauseDurationMs + (t - since) = σ.spent r.id r.createdAt + (t - σ.clock)
    omega
  · obtain ⟨_, htold⟩ := (h.rows r hr).stopped hst
    have hidle : ¬ σ.isPaused r.id r.createdAt = true := fun hp => hst ((h.isPaused_iff hr).1 hp)
    rw [if_neg hst, if_neg hidle, htold]

private theorem Timeline.Kept.pausedFor_bound (h : σ.Kept) {t : Int} (ht : σ.clock ≤ t) (id createdAt : Int) :
    0 ≤ σ.pausedFor id createdAt t ∧ σ.pausedFor id createdAt t ≤ max 0 (t - createdAt) := by
  have hbound := h.bound id createdAt
  unfold Timeline.pausedFor
  split
  · -- the paused row was there at the last step
    rename_i hpaused
    obtain ⟨r, hr, hrow⟩ := List.any_eq_true.1 hpaused
    simp only [Bool.and_eq_true, beq_iff_eq] at hrow
    have hcreated : r.createdAt ≤ σ.clock := (h.rows r hr).created
    rw [hrow.1.2] at hcreated
    omega
  · omega

private theorem Timeline.Kept.exact (h : σ.Kept) : σ.Exact where
  told r hr t _ := h.pausedMs_eq hr t
  nonneg r hr t ht := by
    rw [h.pausedMs_eq hr]
    exact (h.pausedFor_bound ht _ _).1
  within r hr t ht := by
    have hcreated : r.createdAt ≤ σ.clock := (h.rows r hr).created
    have hbound := (h.pausedFor_bound ht r.id r.createdAt).2
    rw [h.pausedMs_eq hr]
    omega
  frozen r hr hst t _ := by
    have hpaused : σ.isPaused r.id r.createdAt = true := (h.isPaused_iff hr).2 hst
    rw [h.pausedMs_eq hr, h.pausedMs_eq hr]
    simp only [Timeline.pausedFor, hpaused, if_true]
    omega

/-- Time passes until the next step. -/
private theorem Timeline.Kept.wait (h : σ.Kept) {now : Int} (hnow : σ.clock ≤ now) :
    σ.store.Rows (TaskRow.Accounted (fun id createdAt => σ.pausedFor id createdAt now) now) := by
  intro r hr
  have hold := h.rows r hr
  have htold := h.pausedMs_eq hr now
  refine ⟨Int.le_trans hold.created hnow, fun hst => ?_, fun hst => ?_, hold.idle⟩
  · obtain ⟨since, hsince, _⟩ := hold.running hst
    refine ⟨since, hsince, ?_⟩
    rw [TaskRow.pausedMs, if_pos hst, hsince] at htold
    exact htold
  · refine ⟨(hold.stopped hst).1, ?_⟩
    rw [TaskRow.pausedMs, if_neg hst, Int.add_zero] at htold
    exact htold

private theorem Timeline.Kept.step (h : σ.Kept) {x : Int × Action} (htimely : σ.Timely x)
    (hspares : x.2.SparesPauses sha256 σ.store) : (σ.step sha256 x).Kept where
  schema := h.schema.steps (x.2.steps sha256 σ.store)
  rows := by
    refine accounted_exec h.schema (fun id => ?_) (h.wait htimely.1) htimely.2 hspares
    -- a row created now was not paused before
    have hbound := h.pausedFor_bound htimely.1 id x.1
    omega
  bound id createdAt := h.pausedFor_bound htimely.1 id createdAt

end Runs

/-- In every run with no recovery while a row is paused, and in which no paused row is superseded, retried or
requeued, the columns tell the time spent paused. -/
theorem aging_clock_exact (sha256 : List UInt8 → String) (σ : Timeline)
    (h : Runs Timeline.Start (Timeline.step sha256) (fun σ x => σ.Timely x ∧ x.2.SparesPauses sha256 σ.store) σ) :
    σ.Exact := by
  have hkept : σ.Kept := by
    refine h.invariant (I := Timeline.Kept) (fun σ hstart => ⟨hstart.fresh.schema, ?_, ?_⟩) fun σ x hσ hx =>
      hσ.step hx.1 hx.2
    · intro r hr
      rw [hstart.fresh.tasks] at hr
      cases hr
    · intro id createdAt
      rw [hstart.none]
      omega
  exact hkept.exact

/-- A task is preempted, its group is paused as well, and both pauses end. -/
private def overlappingPauses : List (Int × Action) :=
  [(0, .submitDirect { TaskSubmission.new "a" with groupKey := some "g" } 0), (5, .claimTask 1 5),
    (10, .update (.pause 1 .preemption 10)), (20, .update (.addGroupBit "g")),
    (30, .update (.clearBit (.byId 1) .preemption)), (50, .update (.resumeSole (.group "g") .group 50))]

private def newTimeline : Timeline where
  store := openMemory
  clock := 0
  spent := fun _ _ => 0

theorem overlappingPauses_exact :
    (overlappingPauses.foldl (Timeline.step sampleSha256) newTimeline).store.tasks.map (·.pauseDurationMs) = [40] ∧
      (overlappingPauses.foldl (Timeline.step sampleSha256) newTimeline).Exact := by
  refine ⟨by decide +kernel, aging_clock_exact sampleSha256 _ (Runs.list
    (.start ⟨openMemory_fresh, fun _ _ => rfl⟩) _ ?_)⟩
  exact ⟨⟨⟨by decide, by decide⟩, nofun⟩, ⟨⟨by decide, by decide⟩, trivial⟩, ⟨⟨by decide, by decide⟩, trivial⟩,
    ⟨⟨by decide, by decide⟩, trivial⟩, ⟨⟨by decide, by decide⟩, trivial⟩, ⟨⟨by decide, by decide⟩, trivial⟩, trivial⟩

/-- A restart in the middle of a pause. -/
private def restartRun : List (Int × Action) :=
  [(0, .submitDirect (.new "a") 0), (10, .update (.pause 1 .preemption 10)), (20, .recoverRunning 20),
    (50, .update (.resume 1 50))]

/-- The pause after the restart is not counted. -/
theorem restart_forgets_pause :
    ¬ ∀ (sha256 : List UInt8 → String) (σ : Timeline),
      Runs Timeline.Start (Timeline.step sha256) (fun σ x => σ.Timely x) σ → σ.Exact := by
  intro h
  have hrun : Runs Timeline.Start (Timeline.step sampleSha256) (fun σ x => σ.Timely x)
      (restartRun.foldl (Timeline.step sampleSha256) newTimeline) := by
    refine Runs.list (.start ⟨openMemory_fresh, fun _ _ => rfl⟩) restartRun ?_
    exact ⟨⟨by decide, by decide⟩, ⟨by decide, by decide⟩, ⟨by decide, by decide⟩, ⟨by decide, by decide⟩, trivial⟩
  have hexact := h sampleSha256 _ hrun
  have hwrong : ∃ r ∈ (restartRun.foldl (Timeline.step sampleSha256) newTimeline).store.tasks,
      r.pausedMs 50 ≠ (restartRun.foldl (Timeline.step sampleSha256) newTimeline).pausedFor r.id r.createdAt 50 := by
    decide +kernel
  obtain ⟨r, hr, hne⟩ := hwrong
  exact hne (hexact.told r hr 50 (by decide +kernel))

end Taskmill
