import Taskmill.Rows
import Taskmill.Stale

/-!
# Deadlines from the first attempt

A task with `ttl_from = 'first_attempt'` gets its `expires_at` when it is claimed for the first time
(`src/store/lifecycle/transitions.rs`); `try_dispatch`, `dispatch_fair` and `dispatch_urgent` repeat the computation
on their copy of the record with another reading of the clock, which counts nanoseconds
(`TaskRecord.mirroredExpiry`).  `Attempts` keeps beside the store when each task was first claimed, and the deadline
with which it came into the queue.

A task is followed through its life and through the requeue of its completed row, which starts a new life.  The rows
agree about their deadlines; the copies agree with them only if the clock has not moved on since the first claim.
-/

namespace Taskmill

open Transact

/-- The time at which the step claims tasks. -/
def Action.claimTime : Action → Option Int
  | .claimTask _ now | .popById _ now | .popNextBatch _ _ now => some now
  | _ => none

/-- The row `r'` after a step belongs to the task of the row `r` before it: its life goes on, or it was completed and
requeued. -/
def TaskRow.goesOn (r r' : TaskRow) : Bool :=
  r'.inst == r.inst || (r'.id == r.id && r.requeue && r' == r.resetRequeued r'.inst)

/-- The row of the task before the step. -/
def Store.earlier (s : Store) (r' : TaskRow) : Option TaskRow := s.tasks.find? (·.goesOn r')

/-- The store, and for the lives in it when the task was first claimed and the deadline it came with. -/
structure Attempts where
  store : Store
  first : Nat → Option Int
  initial : Nat → Option Int

def Attempts.step (sha256 : List UInt8 → String) (σ : Attempts) (a : Action) : Attempts where
  store := a.exec sha256 σ.store
  first := fun inst => do
    let r' ← (a.exec sha256 σ.store).tasks.find? (·.inst == inst)
    let r ← σ.store.earlier r'
    (σ.first r.inst).or (if r.status = .pending ∧ r'.status = .running then a.claimTime else none)
  initial := fun inst => do
    let r' ← (a.exec sha256 σ.store).tasks.find? (·.inst == inst)
    match σ.store.earlier r' with
    | some r => σ.initial r.inst
    | none => r'.expiresAt

def Attempts.Start (σ : Attempts) : Prop := σ.store.Fresh

/-- A first-attempt deadline is that of the first claim, any other is the one the task came with. -/
structure TaskRow.DeadlineKept (first initial : Option Int) (r : TaskRow) : Prop where
  firstAttempt : r.ttlFrom = .firstAttempt → ∀ secs, r.ttlSeconds = some secs →
    r.expiresAt = first.map (· + 1000 * secs)
  submission : r.ttlFrom = .submission → r.expiresAt = initial

/-- The TTL starts with the next claim. -/
structure TaskRow.AwaitsAttempt (r : TaskRow) : Prop where
  ttlFrom : r.ttlFrom = .firstAttempt
  unset : r.expiresAt = none
  ttl : r.ttlSeconds.isSome = true

/-- The `expires_at` of the patched copy, to the nanosecond; `TaskRecord.patched` has its milliseconds. -/
def TaskRecord.mirroredExpiry (task : TaskRecord) (reading : Int) : Option Int :=
  if task.ttlFrom = .firstAttempt ∧ task.expiresAt = none then
    task.ttlSeconds.map fun ttl => reading + ttl * 1000000000
  else task.expiresAt.map (· * 1000000)

theorem TaskRecord.patched_mirrors (task : TaskRecord) (started reading : Int) :
    (task.patched ⟨started, reading / 1000000⟩).expiresAt = (task.mirroredExpiry reading).map (· / 1000000) := by
  have hms : ∀ ttl : Int, reading / 1000000 + ttl * 1000 = (reading + ttl * 1000000000) / 1000000 := by
    intro ttl
    omega
  unfold TaskRecord.patched TaskRecord.mirroredExpiry
  dsimp only
  split
  · cases task.ttlSeconds with
    | none => rfl
    | some ttl => exact congrArg some (hms ttl)
  · cases task.expiresAt with
    | none => rfl
    | some t => exact congrArg some (Int.mul_ediv_cancel t (by decide)).symm

/-! ### One step -/

/-- A new row has no deadline from an attempt. -/
def TaskRow.Unattempted (r : TaskRow) : Prop := r.ttlFrom = .firstAttempt → r.expiresAt = none

/-- The id and the TTL columns are the same. -/
structure TaskRow.SameTtl (r r' : TaskRow) : Prop where
  id : r'.id = r.id
  ttlFrom : r'.ttlFrom = r.ttlFrom
  ttlSeconds : r'.ttlSeconds = r.ttlSeconds
  expiresAt : r'.expiresAt = r.expiresAt

/-- A row after a step that claims none; with `completes`, after a completion. -/
structure TaskRow.Follows (s : Store) (completes : Prop) (r' : TaskRow) : Prop where
  kept : r'.inst < s.nextInst →
    ∃ r ∈ s.tasks, r.inst = r'.inst ∧ r.SameTtl r' ∧ (r'.status = .running → r.status ≠ .pending)
  created : s.nextInst ≤ r'.inst →
    r'.Unattempted ∨ completes ∧ ∃ r ∈ s.tasks, r'.id = r.id ∧ r.requeue = true ∧ r' = r.resetRequeued r'.inst
  idle : r'.status = .blocked → r'.requeue = false
  flagged : completes → r'.requeue = true → r' ∈ s.tasks

/-- A row after a claim at `now`. -/
structure TaskRow.FollowsClaim (s : Store) (now : Int) (r' : TaskRow) : Prop where
  kept : r' ∈ s.tasks ∨ ∃ r ∈ s.tasks, r.status = .pending ∧ r' = r.claim now
  idle : r'.status = .blocked → r'.requeue = false

section Rows

variable {s : Store} {completes : Prop} {r : TaskRow}

private theorem follows_self (hs : s.Schema) (hr : r ∈ s.tasks) (hidle : r.status = .blocked → r.requeue = false) :
    r.Follows s completes where
  kept _ := ⟨r, hr, rfl, ⟨rfl, rfl, rfl, rfl⟩, fun h => by rw [h]; nofun⟩
  created h := absurd (hs.inst_lt r hr) (by omega)
  idle := hidle
  flagged _ _ := hr

/-- A row that is inserted, or superseded. -/
private theorem follows_new (hinst : s.nextInst ≤ r.inst) (hnew : r.Unattempted) (hflag : r.requeue = false) :
    r.Follows s completes where
  kept h := absurd h (by omega)
  created _ := .inl hnew
  idle _ := hflag
  flagged _ h := by
    rw [hflag] at h
    cases h

private theorem TaskRow.Follows.change {r' : TaskRow} (h : r.Follows s completes) (hinst : r'.inst = r.inst)
    (httl : r.SameTtl r') (hstatus : r'.status = .running → r.status = .running)
    (hidle : r'.status = .blocked → r'.requeue = false)
    (hflag : completes → r.status = .blocked ∧ r'.requeue = r.requeue) :
    r'.Follows s completes where
  kept hlt := by
    rw [hinst] at hlt
    obtain ⟨r₀, hr₀, hinst₀, hsame, hst⟩ := h.kept hlt
    refine ⟨r₀, hr₀, hinst₀.trans hinst.symm, ⟨?_, ?_, ?_, ?_⟩, fun hr => hst (hstatus hr)⟩
    · exact httl.id.trans hsame.id
    · exact httl.ttlFrom.trans hsame.ttlFrom
    · exact httl.ttlSeconds.trans hsame.ttlSeconds
    · exact httl.expiresAt.trans hsame.expiresAt
  created hle := by
    rw [hinst] at hle
    rcases h.created hle with hnew | ⟨hc, r₀, _, _, _, hreset⟩
    · refine .inl fun hfrom => ?_
      rw [httl.expiresAt]
      exact hnew (httl.ttlFrom.symm.trans hfrom)
    · -- a requeued row is pending, so that its change is no release
      have hblocked := (hflag hc).1
      rw [hreset] at hblocked
      cases hblocked
  idle := hidle
  flagged hc hreq := by
    have hblocked := (hflag hc).1
    rw [(hflag hc).2, h.idle hblocked] at hreq
    cases hreq

private theorem expiresAt_first (sub : TaskSubmission) (now : Int) (h : sub.ttlFrom = .firstAttempt) :
    sub.expiresAt now = none := by
  unfold TaskSubmission.expiresAt
  rw [h]
  cases sub.ttl with
  | none => rfl
  | some ttl => rfl

private theorem nextInstance_first (task : TaskRecord) (interval now : Int) :
    (task.nextInstance interval now).Unattempted := by
  intro h
  have hfrom : task.ttlFrom = .firstAttempt := h
  unfold TaskRecord.nextInstance
  rw [hfrom]
  cases task.ttlSeconds with
  | none => rfl
  | some ttl => rfl

end Rows

section Step

variable {sha256 : List UInt8 → String} {now : Int} {s : Store}

private theorem follows_submission {sub : TaskSubmission} {t : Store} (hrows : t.Rows (TaskRow.Follows s False))
    (hnext : s.nextInst ≤ t.nextInst) : sub.KeepsRows sha256 (TaskRow.Follows s False) now t where
  pending _ _ := follows_new hnext (expiresAt_first sub now) rfl
  paused _ _ := follows_new hnext (expiresAt_first sub now) rfl
  blocked := follows_new hnext (expiresAt_first sub now) rfl
  upgraded r hr _ _ _ := (hrows r hr).change rfl ⟨rfl, rfl, rfl, rfl⟩ id (hrows r hr).idle nofun
  requeued r hr _ hst := by
    refine (hrows r hr).change rfl ⟨rfl, rfl, rfl, rfl⟩ id (fun hb => ?_) nofun
    have hblocked : r.status = .blocked := hb
    rw [hblocked] at hst
    rcases hst with hst | hst
    · cases hst
    · cases hst
  superseded _ r _ _ _ := follows_new hnext (expiresAt_first sub now) rfl
  replaced _ _ _ _ _ := follows_new hnext (expiresAt_first sub now) rfl

private theorem freeRow_cases (t : Store) (now : Int) (r : TaskRow) :
    (t.freeRow now r).inst = r.inst ∧ r.SameTtl (t.freeRow now r) ∧
    (t.freeRow now r).requeue = r.requeue ∧
    ((t.freeRow now r).status = .pending ∨ (t.freeRow now r).status = .paused) := by
  rw [Store.freeRow]
  split
  · exact ⟨rfl, ⟨rfl, rfl, rfl, rfl⟩, rfl, .inr rfl⟩
  · exact ⟨rfl, ⟨rfl, rfl, rfl, rfl⟩, rfl, .inl rfl⟩

private theorem follows_freeing {completes : Prop} (t : Store) :
    FreeingKeepsRows (TaskRow.Follows s completes) now t := by
  intro r hr hst
  obtain ⟨hinst, httl, hflag, hstatus⟩ := freeRow_cases t now r
  refine hr.change hinst httl (fun h => ?_) (fun h => ?_) fun _ => ⟨hst, hflag⟩
  · rcases hstatus with hstatus | hstatus
    · rw [hstatus] at h
      cases h
    · rw [hstatus] at h
      cases h
  · rw [hflag]
    exact hr.idle hst

private theorem follows_completion (tasks : List TaskRecord) :
    CompletionKeepsRows (TaskRow.Follows s True) tasks now s where
  reset r hr _ hreq inst hinst :=
    have hmem : r ∈ s.tasks := hr.flagged trivial hreq
    { kept := fun h => absurd h (Nat.not_lt.2 hinst)
      created := fun _ => .inr ⟨trivial, r, hmem, rfl, hreq, rfl⟩
      idle := fun _ => rfl
      flagged := fun _ h => nomatch h }
  next task _ interval _ id inst hinst := by
    split
    · exact follows_new hinst (nextInstance_first task interval now) rfl
    · exact follows_new hinst (nextInstance_first task interval now) rfl

/-- A change of a row of the store itself. -/
private theorem follows_one (hs : s.Schema) {r r' : TaskRow} (hr : r ∈ s.tasks) (hinst : r'.inst = r.inst)
    (httl : r.SameTtl r') (hstatus : r'.status = .running → r.status ≠ .pending)
    (hidle : r'.status = .blocked → r'.requeue = false) : r'.Follows s False where
  kept _ := ⟨r, hr, hinst.symm, httl, hstatus⟩
  created h := by
    rw [hinst] at h
    exact absurd (hs.inst_lt r hr) (by omega)
  idle := hidle
  flagged := nofun

private theorem follows_update (hs : s.Schema) {u : RowUpdate} {r : TaskRow} (hr : r ∈ s.tasks)
    (hidle : r.status = .blocked → r.requeue = false) (hsel : u.selects r = true) : (u.change r).Follows s False := by
  have hpending (h : r.status = .running) : r.status ≠ .pending := by
    rw [h]
    nofun
  cases u with
  | requeue id => exact follows_one hs hr rfl ⟨rfl, rfl, rfl, rfl⟩ nofun nofun
  | setRunAfter id runAfter => exact follows_one hs hr rfl ⟨rfl, rfl, rfl, rfl⟩ hpending hidle
  | incrementRetry id error => exact follows_one hs hr rfl ⟨rfl, rfl, rfl, rfl⟩ hpending hidle
  | requeueForRetry id error delay now => exact follows_one hs hr rfl ⟨rfl, rfl, rfl, rfl⟩ nofun nofun
  | pause id reason now => exact follows_one hs hr rfl ⟨rfl, rfl, rfl, rfl⟩ nofun nofun
  | resume id now => exact follows_one hs hr rfl ⟨rfl, rfl, rfl, rfl⟩ nofun nofun
  | resumeSole sel reason now => exact follows_one hs hr rfl ⟨rfl, rfl, rfl, rfl⟩ nofun nofun
  | clearBit sel reason => exact follows_one hs hr rfl ⟨rfl, rfl, rfl, rfl⟩ hpending hidle
  | addGroupBit group => exact follows_one hs hr rfl ⟨rfl, rfl, rfl, rfl⟩ hpending hidle
  | pausePendingInGroup group now => exact follows_one hs hr rfl ⟨rfl, rfl, rfl, rfl⟩ nofun nofun
  | pausePendingByTypePrefix like now => exact follows_one hs hr rfl ⟨rfl, rfl, rfl, rfl⟩ nofun nofun
  | setWaiting id memo => exact follows_one hs hr rfl ⟨rfl, rfl, rfl, rfl⟩ nofun nofun
  | setRunningForFinalize id now =>
    have hwaiting : r.status = .waiting := by simpa [RowUpdate.selects] using (Bool.and_eq_true_iff.1 hsel).2
    exact follows_one hs hr rfl ⟨rfl, rfl, rfl, rfl⟩ (fun _ => by rw [hwaiting]; nofun) nofun
  | setRecurringPaused id paused => exact follows_one hs hr rfl ⟨rfl, rfl, rfl, rfl⟩ hpending hidle

/-- The blocked rows have no requeue to come. -/
def Store.BlockedIdle (s : Store) : Prop := s.Rows fun r => r.status = .blocked → r.requeue = false

/-- The rows after a step that claims none. -/
theorem follows_exec (sha256 : List UInt8 → String) (hs : s.Schema) (hidle : s.BlockedIdle) {a : Action}
    (hclaim : a.claimTime = none) :
    (a.exec sha256 s).Rows (TaskRow.Follows s True) ∨ (a.exec sha256 s).Rows (TaskRow.Follows s False) := by
  have hself (completes : Prop) : s.Rows (TaskRow.Follows s completes) := fun r hr => follows_self hs hr (hidle r hr)
  have hone (hk : a.KeepsRows sha256 (TaskRow.Follows s False) s) :
      (a.exec sha256 s).Rows (TaskRow.Follows s True) ∨ (a.exec sha256 s).Rows (TaskRow.Follows s False) :=
    .inr (a.rows_exec sha256 hs (hself False) hk)
  have hcomplete (hk : a.KeepsRows sha256 (TaskRow.Follows s True) s) :
      (a.exec sha256 s).Rows (TaskRow.Follows s True) ∨ (a.exec sha256 s).Rows (TaskRow.Follows s False) :=
    .inl (a.rows_exec sha256 hs (hself True) hk)
  have hretry {r : TaskRow} (hr : r ∈ s.tasks) (error : String) (delay : Duration) (now : Int) :
      (r.retry error delay now).Follows s False := follows_one hs hr rfl ⟨rfl, rfl, rfl, rfl⟩ nofun nofun
  cases a with
  | update u => exact hone fun r hr hsel => follows_update hs hr (hidle r hr) hsel
  | submitDirect sub now => exact hone (follows_submission (hself False) (Nat.le_refl _))
  | processSubmitBatch skipRequeue batch =>
    refine hone (Along.iff_getElem.2 fun n m _ hσ => ?_)
    exact ⟨follows_submission hσ.rows hσ.next, fun _ => follows_new hσ.next (expiresAt_first m.1 m.2) rfl⟩
  | submitChunk skipRequeue last now chunk =>
    exact hone (Along.iff_getElem.2 fun n item _ hσ _ => follows_submission hσ.rows hσ.next)
  | claimTask id now => cases hclaim
  | popById id now => cases hclaim
  | popNextBatch limit aging now => cases hclaim
  | complete id metrics now => exact hcomplete fun row _ => follows_completion _
  | completeWithRecord task metrics now => exact hcomplete (follows_completion _)
  | completeBatch items now => exact hcomplete ⟨follows_completion _, follows_freeing s⟩
  | resolveDependents id now => exact hone (follows_freeing s)
  | failDependents id now => exact hone (follows_freeing s)
  | fail id error retryable maxRetries metrics backoff now =>
    exact hone fun r hr _ => hretry (List.mem_of_find?_eq_some hr) _ _ now
  | failWithRecord task error retryable maxRetries metrics backoff now =>
    exact hone fun _ r hr _ => hretry hr _ _ now
  | recoverRunning now =>
    refine hone ⟨fun r hr hst => ?_, fun r hr hst _ => ?_, fun r hr hst _ _ => ?_⟩
    · exact follows_one hs hr rfl ⟨rfl, rfl, rfl, rfl⟩ nofun nofun
    · exact follows_one hs hr rfl ⟨rfl, rfl, rfl, rfl⟩ (fun _ => by rw [hst]; nofun) (hidle r hr)
    · exact follows_one hs hr rfl ⟨rfl, rfl, rfl, rfl⟩ nofun nofun
  | _ => exact hone trivial

/-- The rows after a claim. -/
private theorem followsClaim_exec (sha256 : List UInt8 → String) (hs : s.Schema) (hidle : s.BlockedIdle)
    {a : Action} (hclaim : a.claimTime = some now) :
    (a.exec sha256 s).Rows (TaskRow.FollowsClaim s now) := by
  have hself : s.Rows (TaskRow.FollowsClaim s now) := fun r hr => ⟨.inl hr, hidle r hr⟩
  have hrow {r : TaskRow} (hr : r ∈ s.tasks) (hst : r.status = .pending) : (r.claim now).FollowsClaim s now :=
    ⟨.inr ⟨r, hr, hst, rfl⟩, nofun⟩
  refine a.rows_exec sha256 hs hself ?_
  cases a with
  | claimTask id now' =>
    obtain rfl : now' = now := Option.some.inj hclaim
    exact fun r hr _ hst => hrow hr hst
  | popById id now' =>
    obtain rfl : now' = now := Option.some.inj hclaim
    exact fun r hr _ hst => hrow hr hst
  | popNextBatch limit aging now' =>
    obtain rfl : now' = now := Option.some.inj hclaim
    refine fun r hr hel => hrow hr ?_
    simp only [TaskRow.eligible, TaskRow.due, Bool.and_eq_true, beq_iff_eq] at hel
    exact hel.1.1
  | _ => cases hclaim

end Step

/-! ### Runs -/

/-- The deadlines are kept. -/
structure Attempts.Kept (σ : Attempts) : Prop where
  schema : σ.store.Schema
  idle : σ.store.BlockedIdle
  rows : ∀ r ∈ σ.store.tasks, r.DeadlineKept (σ.first r.inst) (σ.initial r.inst)

section Runs

variable {sha256 : List UInt8 → String} {σ : Attempts} {a : Action} {r r' : TaskRow} {now : Int}

private theorem step_first (hs : (σ.step sha256 a).store.Schema) (hr' : r' ∈ (σ.step sha256 a).store.tasks) :
    (σ.step sha256 a).first r'.inst = (σ.store.earlier r').bind fun r =>
      (σ.first r.inst).or (if r.status = .pending ∧ r'.status = .running then a.claimTime else none) := by
  show ((a.exec sha256 σ.store).tasks.find? (·.inst == r'.inst)).bind _ = _
  have hfind : (a.exec sha256 σ.store).tasks.find? (·.inst == r'.inst) = some r' := hs.find_inst hr'
  rw [hfind]
  rfl

private theorem step_initial (hs : (σ.step sha256 a).store.Schema) (hr' : r' ∈ (σ.step sha256 a).store.tasks) :
    (σ.step sha256 a).initial r'.inst = match σ.store.earlier r' with
      | some r => σ.initial r.inst
      | none => r'.expiresAt := by
  show ((a.exec sha256 σ.store).tasks.find? (·.inst == r'.inst)).bind _ = _
  have hfind : (a.exec sha256 σ.store).tasks.find? (·.inst == r'.inst) = some r' := hs.find_inst hr'
  rw [hfind]
  rfl

theorem earlier_some {s : Store} (h : s.earlier r' = some r) :
    r ∈ s.tasks ∧ (r'.inst = r.inst ∨ r'.id = r.id ∧ r' = r.resetRequeued r'.inst) := by
  unfold Store.earlier at h
  have hgoes := List.find?_some h
  simp only [TaskRow.goesOn, Bool.or_eq_true, Bool.and_eq_true, beq_iff_eq] at hgoes
  exact ⟨List.mem_of_find?_eq_some h, hgoes.imp_right fun hreset => ⟨hreset.1.1, hreset.2⟩⟩

/-- In the same life the earlier row is the one with its number. -/
private theorem earlier_of_inst {s : Store} (hs : s.Schema) (hr : r ∈ s.tasks) (hinst : r.inst = r'.inst)
    (hid : r'.id = r.id) :
    s.earlier r' = some r := by
  cases hfind : s.earlier r' with
  | none =>
    have hnot := List.find?_eq_none.1 hfind r hr
    simp [TaskRow.goesOn, hinst] at hnot
  | some r₀ =>
    obtain ⟨hmem, hsame | ⟨hid₀, _⟩⟩ := earlier_some hfind
    · rw [List.inj_on_of_nodup_map hs.insts hmem hr (hsame.symm.trans hinst.symm)]
    · rw [hs.eq_of_id hmem hr (hid₀.symm.trans hid)]

/-- The step leaves the deadline alone, and does not claim the task. -/
private theorem TaskRow.DeadlineKept.same {first initial : Option Int} (h : r.DeadlineKept first initial)
    (httl : r.SameTtl r') : r'.DeadlineKept first initial where
  firstAttempt hfrom secs hsecs := by
    rw [httl.expiresAt]
    exact h.firstAttempt (httl.ttlFrom.symm.trans hfrom) secs (httl.ttlSeconds.symm.trans hsecs)
  submission hfrom := by
    rw [httl.expiresAt]
    exact h.submission (httl.ttlFrom.symm.trans hfrom)

private theorem TaskRow.DeadlineKept.claim {first initial : Option Int}
    (h : r.DeadlineKept first initial) (now : Int) :
    (r.claim now).DeadlineKept (first.or (some now)) initial where
  firstAttempt hfrom secs hsecs := by
    have hfrom' : r.ttlFrom = .firstAttempt := hfrom
    have hsecs' : r.ttlSeconds = some secs := hsecs
    have hold := h.firstAttempt hfrom' secs hsecs'
    unfold TaskRow.claim
    rw [hfrom', hsecs', hold]
    cases first with
    | none => simp [Int.mul_comm]
    | some t => simp
  submission hfrom := by
    have hfrom' : r.ttlFrom = .submission := hfrom
    have hold := h.submission hfrom'
    unfold TaskRow.claim
    rw [hfrom']
    exact hold

/-- A row that was not claimed in the step. -/
private theorem kept_unclaimed (h : σ.Kept) (hs : (σ.step sha256 a).store.Schema)
    (hr' : r' ∈ (σ.step sha256 a).store.tasks) (hr : r ∈ σ.store.tasks) (hinst : r.inst = r'.inst)
    (httl : r.SameTtl r') (hstatus : r'.status = .running → r.status ≠ .pending) :
    r'.DeadlineKept ((σ.step sha256 a).first r'.inst) ((σ.step sha256 a).initial r'.inst) := by
  have hearlier : σ.store.earlier r' = some r := earlier_of_inst h.schema hr hinst httl.id
  have hnot : ¬ (r.status = .pending ∧ r'.status = .running) := fun hc => hstatus hc.2 hc.1
  rw [step_first hs hr', step_initial hs hr', hearlier]
  simp only [Option.bind_some, if_neg hnot, Option.or_none]
  exact (h.rows r hr).same httl

/-- A row of a new life. -/
private theorem kept_created (h : σ.Kept) (hs : (σ.step sha256 a).store.Schema)
    (hr' : r' ∈ (σ.step sha256 a).store.tasks) (hnew : σ.store.nextInst ≤ r'.inst)
    (hcreated : r'.Unattempted ∨ ∃ r ∈ σ.store.tasks, r'.id = r.id ∧ r.requeue = true ∧
      r' = r.resetRequeued r'.inst) :
    r'.DeadlineKept ((σ.step sha256 a).first r'.inst) ((σ.step sha256 a).initial r'.inst) := by
  rw [step_first hs hr', step_initial hs hr']
  cases hearlier : σ.store.earlier r' with
  | none =>
    refine ⟨fun hfrom secs _ => ?_, fun _ => rfl⟩
    rcases hcreated with hfirst | ⟨r, hr, hid, hreq, hreset⟩
    · exact hfirst hfrom
    · have hnot := List.find?_eq_none.1 hearlier r hr
      simp only [TaskRow.goesOn, hreq, Bool.or_eq_true, Bool.and_eq_true, beq_iff_eq] at hnot
      exact absurd (.inr ⟨⟨hid, trivial⟩, hreset⟩) hnot
  | some r =>
    obtain ⟨hr, hgoes⟩ := earlier_some hearlier
    have hlt := h.schema.inst_lt r hr
    have hreset : r' = r.resetRequeued r'.inst := by
      rcases hgoes with hinst | ⟨_, hreset⟩
      · omega
      · exact hreset
    have hstatus : ¬ (r.status = .pending ∧ r'.status = .running) := by
      rintro ⟨_, hrun⟩
      rw [hreset] at hrun
      cases hrun
    simp only [Option.bind_some, if_neg hstatus, Option.or_none]
    have httl : r.SameTtl r' := by
      rw [hreset]
      exact ⟨rfl, rfl, rfl, rfl⟩
    exact (h.rows r hr).same httl

theorem Attempts.Kept.step (h : σ.Kept) (sha256 : List UInt8 → String) (a : Action) : (σ.step sha256 a).Kept := by
  have hs : (σ.step sha256 a).store.Schema := h.schema.steps (a.steps sha256 σ.store)
  cases hclaim : a.claimTime with
  | none =>
    have hfollow {completes : Prop} (hrows : (a.exec sha256 σ.store).Rows (TaskRow.Follows σ.store completes)) :
        (σ.step sha256 a).Kept := by
      refine ⟨hs, fun r' hr' => (hrows r' hr').idle, fun r' hr' => ?_⟩
      by_cases hlt : r'.inst < σ.store.nextInst
      · obtain ⟨r, hr, hinst, httl, hstatus⟩ := (hrows r' hr').kept hlt
        exact kept_unclaimed h hs hr' hr hinst httl hstatus
      · have hnew : σ.store.nextInst ≤ r'.inst := by omega
        exact kept_created h hs hr' hnew (((hrows r' hr').created hnew).imp_right And.right)
    rcases follows_exec sha256 h.schema h.idle hclaim with hrows | hrows
    · exact hfollow hrows
    · exact hfollow hrows
  | some now =>
    have hrows := followsClaim_exec sha256 h.schema h.idle hclaim
    refine ⟨hs, fun r' hr' => (hrows r' hr').idle, fun r' hr' => ?_⟩
    rcases (hrows r' hr').kept with hr | ⟨r, hr, hst, rfl⟩
    · exact kept_unclaimed h hs hr' hr rfl ⟨rfl, rfl, rfl, rfl⟩ fun hrun => by rw [hrun]; nofun
    · have hearlier : σ.store.earlier (r.claim now) = some r := earlier_of_inst h.schema hr rfl rfl
      have hfirst := step_first hs hr'
      have hinitial := step_initial hs hr'
      rw [hearlier] at hfirst hinitial
      rw [hfirst, hinitial]
      simp only [Option.bind_some, hclaim]
      rw [if_pos ⟨hst, rfl⟩]
      exact (h.rows r hr).claim now

theorem Attempts.Kept.run (h : σ.Kept) (sha256 : List UInt8 → String) (actions : List Action) :
    (actions.foldl (Attempts.step sha256) σ).Kept := by
  induction actions generalizing σ with
  | nil => exact h
  | cons a actions ih => exact ih (h.step sha256 a)

theorem Attempts.Start.kept (h : σ.Start) : σ.Kept where
  schema := Store.Fresh.schema h
  idle r hr := by rw [h.tasks] at hr; cases hr
  rows r hr := by rw [h.tasks] at hr; cases hr

/-- What the later rows of a life keep: the id, the TTL columns, and the deadline unless the first claim is to
come. -/
private structure TaskRow.KeepsTtl (r r' : TaskRow) : Prop where
  id : r'.id = r.id
  ttlFrom : r'.ttlFrom = r.ttlFrom
  ttlSeconds : r'.ttlSeconds = r.ttlSeconds
  expiresAt : ¬ r.AwaitsAttempt → r'.expiresAt = r.expiresAt

private theorem TaskRow.KeepsTtl.trans {r₁ : TaskRow} (h : r.KeepsTtl r₁) (h' : r₁.KeepsTtl r') : r.KeepsTtl r' where
  id := h'.id.trans h.id
  ttlFrom := h'.ttlFrom.trans h.ttlFrom
  ttlSeconds := h'.ttlSeconds.trans h.ttlSeconds
  expiresAt hnot := by
    have hexp := h.expiresAt hnot
    refine (h'.expiresAt fun hwait => hnot ⟨?_, ?_, ?_⟩).trans hexp
    · exact h.ttlFrom.symm.trans hwait.ttlFrom
    · exact hexp.symm.trans hwait.unset
    · rw [← h.ttlSeconds]
      exact hwait.ttl

private theorem TaskRow.SameTtl.keeps (h : r.SameTtl r') : r.KeepsTtl r' :=
  ⟨h.id, h.ttlFrom, h.ttlSeconds, fun _ => h.expiresAt⟩

private theorem keepsTtl_claim (r : TaskRow) (now : Int) : r.KeepsTtl (r.claim now) where
  id := rfl
  ttlFrom := rfl
  ttlSeconds := rfl
  expiresAt hnot := by
    unfold TaskRow.claim
    dsimp only
    split
    · rename_i ttl hfrom httl hexp
      exact absurd ⟨hfrom, hexp, by rw [httl]; rfl⟩ hnot
    · rfl

/-- One step keeps the TTL of the lives that go on. -/
private theorem keepsTtl_step (h : σ.Kept) (hr' : r' ∈ (σ.step sha256 a).store.tasks)
    (hold : r'.inst < σ.store.nextInst) :
    ∃ r ∈ σ.store.tasks, r.inst = r'.inst ∧ r.KeepsTtl r' := by
  cases hclaim : a.claimTime with
  | none =>
    have hkept {completes : Prop} (hrows : (a.exec sha256 σ.store).Rows (TaskRow.Follows σ.store completes)) :
        ∃ r ∈ σ.store.tasks, r.inst = r'.inst ∧ r.KeepsTtl r' := by
      obtain ⟨r, hr, hinst, httl, _⟩ := (hrows r' hr').kept hold
      exact ⟨r, hr, hinst, httl.keeps⟩
    rcases follows_exec sha256 h.schema h.idle hclaim with hrows | hrows
    · exact hkept hrows
    · exact hkept hrows
  | some now =>
    rcases (followsClaim_exec sha256 h.schema h.idle hclaim r' hr').kept with hr | ⟨r, hr, _, rfl⟩
    · exact ⟨r', hr, rfl, rfl, rfl, rfl, fun _ => rfl⟩
    · exact ⟨r, hr, rfl, keepsTtl_claim r now⟩

/-- So does a run. -/
private theorem keepsTtl_run (actions : List Action) {σ : Attempts} (h : σ.Kept)
    (hr' : r' ∈ (actions.foldl (Attempts.step sha256) σ).store.tasks) (hold : r'.inst < σ.store.nextInst) :
    ∃ r ∈ σ.store.tasks, r.inst = r'.inst ∧ r.KeepsTtl r' := by
  induction actions generalizing σ with
  | nil => exact ⟨r', hr', rfl, rfl, rfl, rfl, fun _ => rfl⟩
  | cons a actions ih =>
    have hle : σ.store.nextInst ≤ (σ.step sha256 a).store.nextInst := (a.steps sha256 σ.store).nextInst_le
    obtain ⟨r₁, hr₁, hinst₁, hkeeps₁⟩ := ih (h.step sha256 a) hr' (Nat.lt_of_lt_of_le hold hle)
    obtain ⟨r, hr, hinst, hkeeps⟩ := keepsTtl_step h hr₁ (by rw [hinst₁]; exact hold)
    exact ⟨r, hr, hinst.trans hinst₁, hkeeps.trans hkeeps₁⟩

private theorem mirroredExpiry_populateTags (s : Store) (task : TaskRecord) (reading : Int) :
    (s.populateTags task).mirroredExpiry reading = task.mirroredExpiry reading := by
  obtain ⟨tags, htags⟩ := s.populateTags_eq task
  rw [htags]
  rfl

/-- A copy that was read before the first claim needs the reading of this claim, any other copy has the deadline. -/
private theorem mirror_iff {row : TaskRow} {first initial : Option Int} (hrow : row.DeadlineKept first initial)
    (hkeeps : r.KeepsTtl row) (reading : Int) :
    (rowToTaskRecord r).mirroredExpiry reading = row.expiresAt.map (· * 1000000) ↔
      (r.AwaitsAttempt → first.map (· * 1000000) = some reading) := by
  have hmirror : (rowToTaskRecord r).mirroredExpiry reading =
      if r.ttlFrom = .firstAttempt ∧ r.expiresAt = none then r.ttlSeconds.map fun ttl => reading + ttl * 1000000000
      else r.expiresAt.map (· * 1000000) := rfl
  rw [hmirror]
  by_cases hwait : r.AwaitsAttempt
  · obtain ⟨secs, hsecs⟩ := Option.isSome_iff_exists.1 hwait.ttl
    have hexp := hrow.firstAttempt (hkeeps.ttlFrom.trans hwait.ttlFrom) secs (hkeeps.ttlSeconds.trans hsecs)
    rw [if_pos ⟨hwait.ttlFrom, hwait.unset⟩, hsecs, hexp]
    cases first with
    | none => exact iff_of_false nofun fun h => nomatch h hwait
    | some t =>
      simp only [Option.map_some, Option.some.injEq]
      constructor
      · intro heq _
        omega
      · intro h
        have hreading := h hwait
        omega
  · have hsame := hkeeps.expiresAt hwait
    refine iff_of_true ?_ fun h => absurd h hwait
    rw [hsame]
    split
    · rename_i hunset
      have hnone : r.ttlSeconds = none := by
        by_contra hsome
        exact hwait ⟨hunset.1, hunset.2, Option.isSome_iff_ne_none.2 hsome⟩
      rw [hnone, hunset.2]
      rfl
    · rfl

end Runs

/-- The seconds of a TTL are stored as they are unless they do not fit. -/
theorem TaskSubmission.ttlSeconds_iff (sub : TaskSubmission) {ttl : Duration} (httl : sub.ttl = some ttl) :
    sub.ttlSeconds = some (ttl.asSecs : Int) ↔ ttl.asSecs < 2 ^ 63 := by
  rw [TaskSubmission.ttlSeconds, httl, Option.map_some, Option.some.injEq]
  exact ⟨fun heq => le_asI64_iff.1 (le_of_eq heq.symm), asI64_of_lt⟩

/-- A TTL is stored with its whole seconds if and only if they fit.  In every run a first-attempt deadline is unset
until the first claim of the task and is then that of the first claim, whatever happens to the task, and any other
deadline stays as it was at the submission.  All claims write the same.  And the copy that a dispatcher has read, at
any time before it claims the task, agrees with the row if and only if it was read after the first claim or is
patched with the reading of that claim. -/
theorem first_attempt_deadline (sha256 : List UInt8 → String) (σ : Attempts)
    (h : Runs Attempts.Start (Attempts.step sha256) (fun _ _ => True) σ) :
    (∀ (sub : TaskSubmission) (ttl : Duration), sub.ttl = some ttl →
      (sub.ttlSeconds = some (ttl.asSecs : Int) ↔ ttl.asSecs < 2 ^ 63)) ∧
    (∀ r ∈ σ.store.tasks, r.DeadlineKept (σ.first r.inst) (σ.initial r.inst)) ∧
    (∀ (a : Action) (now : Int), a.claimTime = some now → ∀ r ∈ σ.store.tasks, ∀ r' ∈ (a.exec sha256 σ.store).tasks,
      r'.inst = r.inst → r' = r ∨ r.status = .pending ∧ r' = r.claim now) ∧
    ∀ r ∈ σ.store.tasks, ∀ (actions : List Action) (now reading : Int),
      ∀ r' ∈ (actions.foldl (Attempts.step sha256) σ).store.tasks, r'.inst = r.inst → r'.status = .pending →
        ∃ row ∈ ((actions.foldl (Attempts.step sha256) σ).step sha256 (.claimTask r.id now)).store.tasks,
          row.inst = r.inst ∧ row.status = .running ∧
            ((σ.store.populateTags (rowToTaskRecord r)).mirroredExpiry reading = row.expiresAt.map (· * 1000000) ↔
              (r.AwaitsAttempt →
                (((actions.foldl (Attempts.step sha256) σ).step sha256 (.claimTask r.id now)).first r.inst).map
                  (· * 1000000) = some reading)) := by
  have hkept : σ.Kept := h.invariant (fun σ hstart => Attempts.Start.kept hstart) fun σ a hσ _ => hσ.step sha256 a
  refine ⟨fun sub ttl httl => sub.ttlSeconds_iff httl, hkept.rows, fun a now hclaim r hr r' hr' hinst => ?_,
    fun r hr actions now reading r' hr' hinst hst => ?_⟩
  · rcases (followsClaim_exec sha256 hkept.schema hkept.idle hclaim r' hr').kept with hmem | ⟨r₀, hr₀, hst, rfl⟩
    · exact .inl (List.inj_on_of_nodup_map hkept.schema.insts hmem hr hinst)
    · have heq : r₀ = r := List.inj_on_of_nodup_map hkept.schema.insts hr₀ hr hinst
      rw [← heq]
      exact .inr ⟨hst, rfl⟩
  · have hafter := hkept.run sha256 actions
    obtain ⟨r₀, hr₀, hinst₀, hkeeps⟩ := keepsTtl_run actions hkept hr'
      (by rw [hinst]; exact hkept.schema.inst_lt r hr)
    obtain rfl := List.inj_on_of_nodup_map hkept.schema.insts hr₀ hr (hinst₀.trans hinst)
    have hrow : r'.claim now ∈
        ((actions.foldl (Attempts.step sha256) σ).step sha256 (.claimTask r₀.id now)).store.tasks := by
      refine List.mem_map.2 ⟨r', hr', if_pos ?_⟩
      simp [hkeeps.id, hst]
    have hclaimed := (hafter.step sha256 (.claimTask r₀.id now)).rows _ hrow
    refine ⟨r'.claim now, hrow, hinst, rfl, ?_⟩
    rw [mirroredExpiry_populateTags, mirror_iff hclaimed (hkeeps.trans (keepsTtl_claim r' now))]
    have hlife : (r'.claim now).inst = r₀.inst := hinst
    rw [hlife]

/-- A task with ten seconds from the first attempt fails once, is submitted again while it runs, and completes. -/
private def attempts : List Action :=
  [.submitDirect { TaskSubmission.new "a" with ttl := some ⟨10000000000⟩, ttlFrom := .firstAttempt } 0,
    .claimTask 1 5,
    .fail 1 "e" true 3 {} {} 7, .popNextBatch 1 none 9, .submitDirect (.new "a") 10, .complete 1 {} 11,
      .recoverRunning 12,
    .popById 1 13]

private def newAttempts : Attempts := ⟨openMemory, fun _ => none, fun _ => none⟩

private theorem newAttempts_run (actions : List Action) :
    Runs Attempts.Start (Attempts.step sampleSha256) (fun _ _ => True)
      (actions.foldl (Attempts.step sampleSha256) newAttempts) := by
  have hstart : newAttempts.Start := openMemory_fresh
  exact Runs.list (.start hstart) actions (Along.of_forall fun _ _ => trivial)

theorem attempts_deadline :
    (attempts.foldl (Attempts.step sampleSha256) newAttempts).store.tasks.map (fun r => (r.inst, r.expiresAt)) =
        [(1, some 10005)] ∧
      (attempts.foldl (Attempts.step sampleSha256) newAttempts).first 1 = some 5 ∧
      ∀ r ∈ (attempts.foldl (Attempts.step sampleSha256) newAttempts).store.tasks,
        r.DeadlineKept ((attempts.foldl (Attempts.step sampleSha256) newAttempts).first r.inst)
          ((attempts.foldl (Attempts.step sampleSha256) newAttempts).initial r.inst) :=
  ⟨by decide +kernel, by decide +kernel, (first_attempt_deadline sampleSha256 _ (newAttempts_run attempts)).2.1⟩

/-- The task is waiting for its first claim. -/
private def awaiting : Attempts := (attempts.take 1).foldl (Attempts.step sampleSha256) newAttempts

/-- The claim reads 5 ms, and the copy is patched half a millisecond later: it expires half a millisecond after the
row. -/
theorem later_reading_disagrees :
    awaiting.store.tasks.map (fun r => (rowToTaskRecord r).mirroredExpiry 5500000) = [some 10005500000] ∧
    ((Action.claimTask 1 5).exec sampleSha256 awaiting.store).tasks.map (·.expiresAt) = [some 10005] ∧
    ¬ ∀ (σ : Attempts), Runs Attempts.Start (Attempts.step sampleSha256) (fun _ _ => True) σ →
      ∀ r ∈ σ.store.tasks, ∀ now reading, now * 1000000 ≤ reading →
        ∀ row ∈ ((Action.claimTask r.id now).exec sampleSha256 σ.store).tasks, row.inst = r.inst →
          (σ.store.populateTags (rowToTaskRecord r)).mirroredExpiry reading = row.expiresAt.map (· * 1000000) := by
  refine ⟨by decide +kernel, by decide +kernel, fun hagree => ?_⟩
  have hall := hagree awaiting (newAttempts_run _)
  have hone : awaiting.store.tasks.all (fun r =>
      ((Action.claimTask r.id 5).exec sampleSha256 awaiting.store).tasks.any fun row => row.inst == r.inst &&
        (awaiting.store.populateTags (rowToTaskRecord r)).mirroredExpiry 5500000 != row.expiresAt.map (· * 1000000)) =
      true := by decide +kernel
  have hsome : awaiting.store.tasks ≠ [] := by decide +kernel
  obtain ⟨r, hr⟩ := List.exists_mem_of_ne_nil _ hsome
  obtain ⟨row, hrow, hdiff⟩ := List.any_eq_true.1 (List.all_eq_true.1 hone r hr)
  rw [Bool.and_eq_true, beq_iff_eq, bne_iff_ne] at hdiff
  exact hdiff.2 (hall r hr 5 5500000 (by decide) row hrow hdiff.1)

end Taskmill
