import Taskmill.Endings
import Taskmill.FailureClosure
import Taskmill.FirstAttempt
import Taskmill.Logs

/-!
# Which submission a task comes from

`Origins` keeps beside the store, for every life, the submission that it comes from: the life begins with the
submission, with the requeue of the row of such a life, or as a later instance of its schedule.  Rows and history
rows have the columns that the submission asked for (`origins_sound`), as long as the records that come back with a
step are copies of rows that the store has had (`Origins.Returns`).

A batch is followed submission by submission: what one of them inserts another one may supersede.
-/

namespace Taskmill

open Transact

/-! ### The columns -/

/-- The columns that a task has from its submission. -/
structure Requested where
  taskType : String
  key : String
  label : String
  payload : Option (List UInt8)
  groupKey : Option String
  maxRetries : Option Int
  ttlSeconds : Option Int
  ttlFrom : TtlFrom
  recurringIntervalSecs : Option Int
deriving DecidableEq

def TaskRow.requested (r : TaskRow) : Requested where
  taskType := r.taskType
  key := r.key
  label := r.label
  payload := r.payload
  groupKey := r.groupKey
  maxRetries := r.maxRetries
  ttlSeconds := r.ttlSeconds
  ttlFrom := r.ttlFrom
  recurringIntervalSecs := r.recurringIntervalSecs

/-- How a submission gets its row: with an `INSERT`, in the row of a task that it supersedes, or in place of one. -/
inductive Arrival where
  | inserted
  | inPlace (old : TaskRow)
  | replaced
deriving DecidableEq

def Store.arrival (s : Store) (key : String) : Arrival :=
  match s.taskByKey key with
  | none => .inserted
  | some old =>
    match old.status with
    | .pending | .paused | .blocked => .inPlace old
    | .running | .waiting => .replaced

/-- The submission, whether this is a later instance of its schedule, and when it was submitted or this instance
created. -/
structure Origin where
  sub : TaskSubmission
  arrival : Arrival
  later : Bool
  base : Int
deriving DecidableEq

def Origin.requested (sha256 : List UInt8 → String) (o : Origin) : Requested :=
  match o.arrival with
  | .inserted => (o.sub.newRow (o.sub.effectiveKey sha256) o.base).requested
  | .inPlace old => (o.sub.supersedeRow 0 o.base old).requested
  | .replaced => (o.sub.baseRow (o.sub.effectiveKey sha256) o.base).requested

/-- The deadline that is stored if the TTL runs from the submission. -/
def Origin.deadline (o : Origin) : Option Int :=
  if o.later then o.sub.ttlSeconds.map (o.base + · * 1000) else o.sub.expiresAt o.base

/-- The row is that of a task with this origin. -/
structure TaskRow.From (sha256 : List UInt8 → String) (o : Origin) (r : TaskRow) : Prop where
  requested : r.requested = o.requested sha256
  key : r.key = o.sub.effectiveKey sha256
  deadline : r.ttlFrom = .submission → r.expiresAt = o.deadline

/-! ### The system -/

/-- The rows that a step is given by its caller. -/
def Action.records : Action → List TaskRow
  | .completeWithRecord task .. | .failWithRecord task .. | .cancelToHistoryWithRecord task _ => [task.toTaskRow]
  | .completeBatch items _ => items.map (·.1.toTaskRow)
  | .failBatch items _ => items.map (·.task.toTaskRow)
  | .cancelChildren _ read _ => read
  | _ => []

/-- When the step completes tasks. -/
def Action.completedAt : Action → Option Int
  | .complete _ _ now | .completeWithRecord _ _ now | .completeBatch _ now => some now
  | _ => none

/-- The store, the rows that it has had, and where the lives come from. -/
structure Origins where
  store : Store
  rows : List TaskRow
  origin : Nat → Option Origin

namespace Origins

/-- One submission. -/
def submit (sha256 : List UInt8 → String) (skipRequeue : Bool) (σ : Origins)
    (m : TaskSubmission × Int) : Origins where
  store := (submitOne sha256 m.1 skipRequeue m.2 σ.store).2
  rows := σ.rows ++ (submitOne sha256 m.1 skipRequeue m.2 σ.store).2.tasks
  origin := fun life =>
    if life = σ.store.nextInst then
      some { sub := m.1, arrival := σ.store.arrival (m.1.effectiveKey sha256), later := false, base := m.2 }
    else σ.origin life

/-- Any other step.  A new life is that of a requeued row, or a later instance of one of the completed tasks. -/
def act (sha256 : List UInt8 → String) (σ : Origins) (a : Action) : Origins where
  store := a.exec sha256 σ.store
  rows := σ.rows ++ (a.exec sha256 σ.store).tasks
  origin := fun life =>
    if life < σ.store.nextInst then σ.origin life
    else do
      let r' ← (a.exec sha256 σ.store).tasks.find? (·.inst == life)
      match σ.store.earlier r' with
      | some r => σ.origin r.inst
      | none =>
        let source ← (σ.store.tasks ++ a.records).find? (·.requested == r'.requested)
        let o ← σ.origin source.inst
        some { o with later := true, base := r'.createdAt }

def step (sha256 : List UInt8 → String) (σ : Origins) (a : Action) : Origins :=
  match a with
  | .submitDirect sub now =>
    match (submitDirect sha256 sub now σ.store).1 with
    | .ok _ => σ.submit sha256 (!σ.store.hasRunning) (sub, now)
    | .error _ => σ.act sha256 a
  | .processSubmitBatch skipRequeue batch => batch.foldl (submit sha256 skipRequeue) σ
  | .submitChunk skipRequeue last now chunk =>
    match (submitChunk sha256 skipRequeue last now chunk σ.store).1 with
    | .ok _ =>
      ((chunk.filter fun item => last item.1 (item.2.effectiveKey sha256)).map fun item => (item.2, now)).foldl
        (submit sha256 skipRequeue) σ
    | .error _ => σ.act sha256 a
  | _ => σ.act sha256 a

structure Start (σ : Origins) : Prop where
  fresh : σ.store.Fresh
  rows : σ.rows = []

/-- The records that come back with a step are copies of rows that the store has had. -/
def Returns (σ : Origins) (a : Action) : Prop :=
  ∀ task ∈ a.records, ∃ r ∈ σ.rows, r.inst = task.inst ∧ r.requested = task.requested

end Origins

/-! ### The rows after a step -/

/-- The row has what the other one has from its submission. -/
structure TaskRow.Carries (r r' : TaskRow) : Prop where
  requested : r'.requested = r.requested
  deadline : r.ttlFrom = .submission → r'.expiresAt = r.expiresAt

/-- The row is the next instance of the task with the other one, which was completed at `now`. -/
structure TaskRow.NextOf (r : TaskRow) (now : Int) (r' : TaskRow) : Prop where
  requested : r'.requested = r.requested
  created : r'.createdAt = now
  runAfter : ∃ interval, r.recurringIntervalSecs = some interval ∧ r'.runAfter = some (now + interval * 1000)
  deadline : r.ttlFrom = .submission → r'.expiresAt = r.ttlSeconds.map (now + · * 1000)

/-- A row after a step that submits nothing. -/
structure TaskRow.Comes (s : Store) (sources : List TaskRow) (completed : Option Int) (r' : TaskRow) : Prop where
  kept : r'.inst < s.nextInst → ∃ r ∈ s.tasks, r.inst = r'.inst ∧ r.Carries r'
  born : s.nextInst ≤ r'.inst →
    (∃ r ∈ s.tasks, r'.id = r.id ∧ r.requeue = true ∧ r' = r.resetRequeued r'.inst) ∨
      ∃ r ∈ sources, ∃ now, completed = some now ∧ r.NextOf now r'
  idle : r'.status = .blocked → r'.requeue = false

section Rows

variable {sha256 : List UInt8 → String} {s : Store} {r r' : TaskRow} {now : Int}

theorem TaskRow.Carries.refl (r : TaskRow) : r.Carries r := ⟨rfl, fun _ => rfl⟩

theorem TaskRow.requested_ttlFrom (h : r'.requested = r.requested) : r'.ttlFrom = r.ttlFrom :=
  congrArg Requested.ttlFrom h

theorem TaskRow.Carries.trans {r'' : TaskRow} (h : r.Carries r') (h' : r'.Carries r'') : r.Carries r'' := by
  refine ⟨h'.requested.trans h.requested, fun hfrom => ?_⟩
  have hfrom' : r'.ttlFrom = .submission := (TaskRow.requested_ttlFrom h.requested).trans hfrom
  exact (h'.deadline hfrom').trans (h.deadline hfrom)

/-- A claim only gives a deadline that runs from the first attempt. -/
theorem TaskRow.carries_claim (r : TaskRow) (now : Int) : r.Carries (r.claim now) := by
  refine ⟨rfl, fun hfrom => ?_⟩
  unfold TaskRow.claim
  rw [hfrom]

/-- The rows while tasks are completed; the rows that are marked for a requeue are those of the store itself. -/
private structure TaskRow.ComesMarked (s : Store) (sources : List TaskRow) (completed : Option Int)
    (r' : TaskRow) : Prop
    extends r'.Comes s sources completed where
  marked : r'.requeue = true → r' ∈ s.tasks

private theorem comes_self (hs : s.Schema) (hr : r ∈ s.tasks) (hidle : r.status = .blocked → r.requeue = false)
    (sources : List TaskRow) (completed : Option Int) : r.ComesMarked s sources completed where
  kept _ := ⟨r, hr, rfl, .refl r⟩
  born h := absurd (hs.inst_lt r hr) (by omega)
  idle := hidle
  marked _ := hr

private theorem nextInstance_nextOf {task : TaskRecord} {interval : Int} (hrec : task.recurs = some interval)
    (id : Int) (inst : Nat) :
    task.toTaskRow.NextOf now { task.nextInstance interval now with id := id, inst := inst } := by
  refine ⟨rfl, rfl, ⟨interval, ?_, rfl⟩, fun hfrom => ?_⟩
  · rw [TaskRecord.recurs] at hrec
    split at hrec
    · cases hrec
    · rename_i secs hsecs
      split at hrec
      · cases hrec
        exact hsecs
      · cases hrec
  · show (task.nextInstance interval now).expiresAt = _
    unfold TaskRecord.nextInstance
    rw [hfrom]
    cases task.ttlSeconds with
    | none => rfl
    | some ttl => rfl

private theorem comes_completion (tasks : List TaskRecord) (sources : List TaskRow)
    (hsources : ∀ task ∈ tasks, task.toTaskRow ∈ sources) :
    CompletionKeepsRows (TaskRow.ComesMarked s sources (some now)) tasks now s where
  reset r hr _ hreq inst hinst :=
    { kept := fun h => absurd h (Nat.not_lt.2 hinst)
      born := fun _ => .inl ⟨r, hr.marked hreq, rfl, hreq, rfl⟩
      idle := nofun
      marked := nofun }
  next task htask interval hrec id inst hinst := by
    have hnext : task.toTaskRow.NextOf now { task.nextInstance interval now with id := id, inst := inst } :=
      nextInstance_nextOf hrec id inst
    split
    · exact ⟨⟨fun h => absurd h (Nat.not_lt.2 hinst), fun _ =>
        .inr ⟨_, hsources task htask, now, rfl, hnext.requested,
        hnext.created, hnext.runAfter, hnext.deadline⟩, nofun⟩, nofun⟩
    · exact ⟨⟨fun h => absurd h (Nat.not_lt.2 hinst), fun _ =>
        .inr ⟨_, hsources task htask, now, rfl, hnext⟩, nofun⟩, nofun⟩

/-- A release changes neither what the row has from its submission nor what it may become. -/
private theorem comes_freeing (sources : List TaskRow) (completed : Option Int) :
    FreeingKeepsRows (TaskRow.ComesMarked s sources completed) now s := by
  intro r hr hst
  have hfree : (s.freeRow now r).inst = r.inst ∧ r.Carries (s.freeRow now r) ∧
    (s.freeRow now r).createdAt = r.createdAt ∧
      (s.freeRow now r).runAfter = r.runAfter ∧ (s.freeRow now r).expiresAt = r.expiresAt ∧
      (s.freeRow now r).requeue = r.requeue ∧ (s.freeRow now r).status ≠ .blocked := by
    rw [Store.freeRow]
    split
    · exact ⟨rfl, ⟨rfl, fun _ => rfl⟩, rfl, rfl, rfl, rfl, by rintro ⟨⟩⟩
    · exact ⟨rfl, ⟨rfl, fun _ => rfl⟩, rfl, rfl, rfl, rfl, by rintro ⟨⟩⟩
  obtain ⟨hinst, hcarries, hcreated, hafter, hexpires, hreq, hne⟩ := hfree
  refine ⟨⟨fun hlt => ?_, fun hle => ?_, fun h => absurd h hne⟩, fun h => ?_⟩
  · rw [hinst] at hlt ⊢
    obtain ⟨r₀, hr₀, hinst₀, hcarries₀⟩ := hr.kept hlt
    exact ⟨r₀, hr₀, hinst₀, hcarries₀.trans hcarries⟩
  · rw [hinst] at hle
    rcases hr.born hle with ⟨r₀, _, _, _, hreset⟩ | ⟨source, hsource, done, hdone, hnext⟩
    · -- a requeued row is pending, and is not released
      rw [hreset] at hst
      cases hst
    · refine .inr ⟨source, hsource, done, hdone, hcarries.requested.trans hnext.requested,
        hcreated.trans hnext.created, ?_, fun hfrom => ?_⟩
      · rw [hafter]
        exact hnext.runAfter
      · rw [hexpires]
        exact hnext.deadline hfrom
  · rw [hreq, hr.idle hst] at h
    cases h

/-- A row that is changed. -/
private def TaskRow.Kept (s : Store) (r' : TaskRow) : Prop :=
  (∃ r ∈ s.tasks, r.inst = r'.inst ∧ r.Carries r') ∧ (r'.status = .blocked → r'.requeue = false)

private theorem TaskRow.Kept.comes (hs : s.Schema) (h : r'.Kept s) (sources : List TaskRow) (completed : Option Int) :
    r'.Comes s sources completed where
  kept _ := h.1
  born hle := by
    obtain ⟨r, hr, hinst, _⟩ := h.1
    have hlt := hs.inst_lt r hr
    omega
  idle := h.2

private theorem kept_self (hr : r ∈ s.tasks) (hidle : r.status = .blocked → r.requeue = false) : r.Kept s :=
  ⟨⟨r, hr, rfl, .refl r⟩, hidle⟩

private theorem kept_change (hr : r ∈ s.tasks) (hinst : r'.inst = r.inst) (hcarries : r.Carries r')
    (hidle : r'.status = .blocked → r'.requeue = false) : r'.Kept s := ⟨⟨r, hr, hinst.symm, hcarries⟩, hidle⟩

private theorem kept_freeing : FreeingKeepsRows (TaskRow.Kept s) now s := by
  intro r hr hst
  obtain ⟨r₀, hr₀, hinst, hcarries⟩ := hr.1
  rw [Store.freeRow]
  split
  · exact ⟨⟨r₀, hr₀, hinst, hcarries.trans ⟨rfl, fun _ => rfl⟩⟩, by rintro ⟨⟩⟩
  · exact ⟨⟨r₀, hr₀, hinst, hcarries.trans ⟨rfl, fun _ => rfl⟩⟩, by rintro ⟨⟩⟩

private theorem kept_update (hidle : s.BlockedIdle) (u : RowUpdate) (hr : r ∈ s.tasks) : (u.change r).Kept s := by
  have hsame : (u.change r).inst = r.inst ∧ r.Carries (u.change r) := by
    cases u <;> exact ⟨rfl, rfl, fun _ => rfl⟩
  refine kept_change hr hsame.1 hsame.2 fun hblocked => ?_
  -- no `UPDATE` blocks a row or marks it for a requeue
  have hrow : r.status = .blocked ∧ (u.change r).requeue = r.requeue := by
    cases u <;> first | exact ⟨hblocked, rfl⟩ | cases hblocked
  rw [hrow.2]
  exact hidle r hr hrow.1

/-- The rows after a step that submits nothing. -/
theorem comes_exec (sha256 : List UInt8 → String) (hs : s.Schema) (hidle : s.BlockedIdle) {a : Action}
    (hsub : a.submissions = []) : (a.exec sha256 s).Rows (TaskRow.Comes s (s.tasks ++ a.records) a.completedAt) := by
  have hself : s.Rows (TaskRow.Kept s) := fun r hr => kept_self hr (hidle r hr)
  have hkept (hk : a.KeepsRows sha256 (TaskRow.Kept s) s) :
      (a.exec sha256 s).Rows (TaskRow.Comes s (s.tasks ++ a.records) a.completedAt) :=
    fun r hr => (a.rows_exec sha256 hs hself hk r hr).comes hs _ _
  have hmarked (hk : a.KeepsRows sha256 (TaskRow.ComesMarked s (s.tasks ++ a.records) a.completedAt) s) :
      (a.exec sha256 s).Rows (TaskRow.Comes s (s.tasks ++ a.records) a.completedAt) :=
    fun r hr => (a.rows_exec sha256 hs (fun r hr => comes_self hs hr (hidle r hr) _ _) hk r hr).toComes
  have hclaim {r : TaskRow} (hr : r ∈ s.tasks) (now : Int) : (r.claim now).Kept s :=
    kept_change hr rfl (r.carries_claim now) nofun
  have hretry {r : TaskRow} (hr : r ∈ s.tasks) (error : String) (delay : Duration) (now : Int) :
      (r.retry error delay now).Kept s :=
    kept_change hr rfl ⟨rfl, fun _ => rfl⟩ nofun
  cases a with
  | update u => exact hkept fun r hr _ => kept_update hidle u hr
  | submitDirect sub now => cases hsub
  | processSubmitBatch skipRequeue batch =>
    obtain rfl : batch = [] := List.map_eq_nil_iff.1 hsub
    exact hkept trivial
  | submitChunk skipRequeue last now chunk =>
    obtain rfl : chunk = [] := List.map_eq_nil_iff.1 hsub
    exact hkept trivial
  | claimTask id now => exact hkept fun r hr _ _ => hclaim hr now
  | popById id now => exact hkept fun r hr _ _ => hclaim hr now
  | popNextBatch limit aging now => exact hkept fun r hr _ => hclaim hr now
  | complete id metrics now =>
    refine hmarked fun row hrow => comes_completion _ _ fun task htask => ?_
    rw [List.mem_singleton.1 htask]
    exact List.mem_append_left _ (List.mem_of_find?_eq_some hrow)
  | completeWithRecord task metrics now =>
    refine hmarked (comes_completion _ _ fun task' htask => ?_)
    rw [List.mem_singleton.1 htask]
    exact List.mem_append_right _ (List.mem_singleton_self _)
  | completeBatch items now =>
    refine hmarked ⟨comes_completion _ _ fun task htask => ?_, comes_freeing _ _⟩
    obtain ⟨item, hitem, rfl⟩ := List.mem_map.1 htask
    exact List.mem_append_right _ (List.mem_map.2 ⟨item, hitem, rfl⟩)
  | resolveDependents id now => exact hkept kept_freeing
  | failDependents id now => exact hkept kept_freeing
  | fail id error retryable maxRetries metrics backoff now =>
    exact hkept fun r hr _ => hretry (List.mem_of_find?_eq_some hr) error _ now
  | failWithRecord task error retryable maxRetries metrics backoff now =>
    exact hkept fun _ r hr _ => hretry hr error _ now
  | recoverRunning now =>
    refine hkept ⟨fun r hr _ => ?_, fun r hr hst _ => ?_, fun r hr _ _ _ => ?_⟩
    · exact kept_change hr rfl ⟨rfl, fun _ => rfl⟩ nofun
    · exact kept_change hr rfl ⟨rfl, fun _ => rfl⟩ (hidle r hr)
    · exact kept_change hr rfl ⟨rfl, fun _ => rfl⟩ nofun
  | _ => exact hkept trivial

/-- A row after a submission. -/
structure TaskRow.Arrives (sha256 : List UInt8 → String) (s : Store) (o : Origin) (r' : TaskRow) : Prop where
  comes : (∃ r ∈ s.tasks, r.inst = r'.inst ∧ r.Carries r') ∨ r'.inst = s.nextInst ∧ r'.From sha256 o
  idle : r'.status = .blocked → r'.requeue = false

/-- The rows after a submission. -/
private theorem submitOne_arrives (hs : s.Schema) (hidle : s.BlockedIdle) (sub : TaskSubmission)
    (skipRequeue : Bool) :
    (submitOne sha256 sub skipRequeue now s).2.Rows (TaskRow.Arrives sha256 s
      { sub := sub, arrival := s.arrival (sub.effectiveKey sha256), later := false, base := now }) := by
  have hself : s.Rows (TaskRow.Arrives sha256 s
      { sub := sub, arrival := s.arrival (sub.effectiveKey sha256), later := false, base := now }) :=
    fun r hr => ⟨.inl ⟨r, hr, rfl, .refl r⟩, hidle r hr⟩
  cases hk : s.taskByKey (sub.effectiveKey sha256) with
  | none =>
    have harrival : s.arrival (sub.effectiveKey sha256) = .inserted := by rw [Store.arrival, hk]
    rw [harrival] at hself ⊢
    refine submitOne_fresh_rows hself hk (fun _ _ => ?_) (fun _ _ => ?_) ?_ fun _ => ?_
    · exact ⟨.inr ⟨rfl, rfl, rfl, fun _ => rfl⟩, nofun⟩
    · exact ⟨.inr ⟨rfl, rfl, rfl, fun _ => rfl⟩, nofun⟩
    · exact ⟨.inr ⟨rfl, rfl, rfl, fun _ => rfl⟩, fun _ => rfl⟩
    · exact ⟨.inr ⟨rfl, rfl, rfl, fun _ => rfl⟩, nofun⟩
  | some old =>
    have hold {r : TaskRow} (hr : r ∈ s.tasks) (hkey : r.key = sub.effectiveKey sha256) : r = old := by
      have hmem : old ∈ s.tasks := List.mem_of_find?_eq_some hk
      have hkey' : old.key = sub.effectiveKey sha256 := by simpa using List.find?_some hk
      exact List.inj_on_of_nodup_map hs.keys hr hmem (hkey.trans hkey'.symm)
    refine submitOne_duplicate_rows hself hs hk (fun r hr _ hst _ => ?_) (fun r hr _ hst => ?_)
      (fun _ r hr hkey hst => ?_) fun _ r hr hkey hst => ?_
    · exact ⟨.inl ⟨r, hr, rfl, rfl, fun _ => rfl⟩, hidle r hr⟩
    · refine ⟨.inl ⟨r, hr, rfl, rfl, fun _ => rfl⟩, fun hblocked => ?_⟩
      have hblocked' : r.status = .blocked := hblocked
      rw [hblocked'] at hst
      rcases hst with hst | hst
      · cases hst
      · cases hst
    · have harrival : s.arrival (sub.effectiveKey sha256) = .inPlace r := by
        obtain rfl := hold hr hkey
        rw [Store.arrival, hk]
        dsimp only
        rcases hst with hst | hst | hst
        · rw [hst]
        · rw [hst]
        · rw [hst]
      rw [harrival]
      exact ⟨.inr ⟨rfl, rfl, hkey, fun _ => rfl⟩, nofun⟩
    · have harrival : s.arrival (sub.effectiveKey sha256) = .replaced := by
        obtain rfl := hold hr hkey
        rw [Store.arrival, hk]
        dsimp only
        rcases hst with hst | hst
        · rw [hst]
        · rw [hst]
      rw [harrival]
      exact ⟨.inr ⟨rfl, rfl, rfl, fun _ => rfl⟩, nofun⟩

end Rows

/-! ### The history after a step -/

/-- The copy is one of every row with the same life and the same columns. -/
theorem TaskHistoryRow.Copies.congr {h : TaskHistoryRow} {r r' : TaskRow} (hcopy : h.Copies r)
    (hinst : r'.inst = r.inst) (hreq : r'.requested = r.requested) : h.Copies r' where
  inst := hcopy.inst.trans hinst.symm
  taskType := hcopy.taskType.trans (congrArg Requested.taskType hreq).symm
  key := hcopy.key.trans (congrArg Requested.key hreq).symm
  label := hcopy.label.trans (congrArg Requested.label hreq).symm
  payload := hcopy.payload.trans (congrArg Requested.payload hreq).symm
  groupKey := hcopy.groupKey.trans (congrArg Requested.groupKey hreq).symm
  maxRetries := hcopy.maxRetries.trans (congrArg Requested.maxRetries hreq).symm

section History

variable {sha256 : List UInt8 → String} {s : Store} {now : Int}

private theorem logs_failDependents (hs : s.Schema) (id : Int) :
    s.Logs (fun h => ∃ r ∈ s.tasks, h.Copies r) (failDependents id now s).2 := by
  rw [← failDependentsIn_inserted]
  rcases hrun : failDependentsIn .inserted id now s with ⟨e | result, s'⟩
  · have htables : s.rollback s' = s' := (failDependentsIn_error hrun).1
    show s.Logs _ s'
    rw [← htables]
    exact .of_eq rfl
  · obtain ⟨entries, hhistory, hlogged⟩ := (failDependentsIn_ok hs hrun).logged
    intro h hh
    have hh' : h ∈ s'.taskHistory := hh
    rw [hhistory] at hh'
    rcases List.mem_append.1 hh' with hh' | hh'
    · exact .inl hh'
    · obtain ⟨_, _, r, hr, _, _, _, _, _, rfl⟩ := exists_of_forall₂ hlogged.flip hh'
      exact .inr ⟨r, hr, historyRow_copies ..⟩

/-- A step that submits nothing writes copies of rows of the store, or of the records it is given. -/
private theorem logs_copies (sha256 : List UInt8 → String) (hs : s.Schema) {a : Action} (hsub : a.submissions = []) :
    s.Logs (fun h => ∃ r ∈ s.tasks ++ a.records, h.Copies r) (a.exec sha256 s) := by
  have hown {r : TaskRow} (hr : r ∈ s.tasks) {h : TaskHistoryRow} (hcopy : h.Copies r) :
      ∃ r ∈ s.tasks ++ a.records, h.Copies r := ⟨r, List.mem_append_left _ hr, hcopy⟩
  have hgiven {r : TaskRow} (hr : r ∈ a.records) {h : TaskHistoryRow} (hcopy : h.Copies r) :
      ∃ r ∈ s.tasks ++ a.records, h.Copies r := ⟨r, List.mem_append_right _ hr, hcopy⟩
  cases a with
  | submitDirect sub now => cases hsub
  | processSubmitBatch skipRequeue batch =>
    obtain rfl : batch = [] := List.map_eq_nil_iff.1 hsub
    exact .of_eq rfl
  | submitChunk skipRequeue last now chunk =>
    obtain rfl : chunk = [] := List.map_eq_nil_iff.1 hsub
    exact logs_transaction logs_pure s
  | complete id metrics now =>
    refine logs_transaction_at ?_
    split
    · exact .of_eq rfl
    · rename_i row hrow
      exact logs_bind (logs_completeInner fun h _ hcopy => hown (List.mem_of_find?_eq_some hrow) hcopy)
        (fun _ => logs_pure) s
  | completeWithRecord task metrics now =>
    exact logs_transaction (fun s => logs_completeInner
      (fun _ _ hcopy => hgiven (List.mem_singleton_self _) hcopy) s) s
  | completeBatch items now =>
    exact logs_completeBatchTx (fun item hitem _ _ hcopy => hgiven (List.mem_map.2 ⟨item, hitem, rfl⟩) hcopy) s
  | fail id error retryable maxRetries metrics backoff now =>
    refine logs_transaction_at ?_
    split
    · exact .of_eq rfl
    · rename_i row hrow
      exact logs_failInner (fun h _ hcopy => hown (List.mem_of_find?_eq_some hrow) hcopy) s
  | failWithRecord task error retryable maxRetries metrics backoff now =>
    exact logs_transaction (logs_failInner fun _ _ hcopy => hgiven (List.mem_singleton_self _) hcopy) s
  | failBatch items now =>
    exact logs_failBatchTx (fun item hitem _ _ hcopy => hgiven (List.mem_map.2 ⟨item, hitem, rfl⟩) hcopy) s
  | failDependents id now =>
    refine (logs_failDependents hs id).mono ?_
    rintro h ⟨r, hr, hcopy⟩
    exact hown hr hcopy
  | cancelToHistory id now =>
    refine logs_transaction_at ?_
    split
    · exact .of_eq rfl
    · rename_i row hrow
      exact logs_bind (logs_cancelInner fun h _ hcopy => hown (List.mem_of_find?_eq_some hrow) hcopy)
        (fun _ => logs_pure) s
  | cancelToHistoryWithRecord task now =>
    exact logs_transaction (logs_cancelInner fun _ _ hcopy => hgiven (List.mem_singleton_self _) hcopy) s
  | cancelChildren parent read now => exact logs_cancelChildrenTx (fun r hr _ _ hcopy => hgiven hr hcopy) s
  | expireTasks now =>
    refine (expireTasksTx_expiring s).logs.mono ?_
    rintro h ⟨r, hr, _, _, hcopy⟩
    exact hown hr hcopy
  | expireSingle id now =>
    refine (expireSingle_expiring id s).logs.mono ?_
    rintro h ⟨r, hr, _, _, hcopy⟩
    exact hown hr hcopy
  | deleteHistory historyId => exact logs_filter rfl
  | pruneHistoryByAge days now => exact logs_filter rfl
  | pruneHistoryByCount keep => exact logs_filter rfl
  | maybePrune now => exact logs_maybePrune s now
  | delete id => exact .of_eq rfl
  | _ => exact .of_eq (Action.sameLives_exec sha256 hs rfl).history

end History

/-! ### Runs -/

/-- What holds along the runs. -/
structure Origins.Sound (sha256 : List UInt8 → String) (σ : Origins) : Prop where
  schema : σ.store.Schema
  idle : σ.store.BlockedIdle
  rows : ∀ r ∈ σ.store.tasks, r ∈ σ.rows
  lives : ∀ r ∈ σ.rows, r.inst < σ.store.nextInst
  known : ∀ r ∈ σ.rows, ∃ o, σ.origin r.inst = some o ∧ r.From sha256 o
  history : ∀ h ∈ σ.store.taskHistory, ∃ r ∈ σ.rows, h.Copies r

section Runs

variable {sha256 : List UInt8 → String} {σ σ' : Origins} {a : Action} {r r' : TaskRow}

theorem Origins.Start.sound (h : σ.Start) : σ.Sound sha256 where
  schema := h.fresh.schema
  idle r hr := by rw [h.fresh.tasks] at hr; cases hr
  rows r hr := by rw [h.fresh.tasks] at hr; cases hr
  lives r hr := by rw [h.rows] at hr; cases hr
  known r hr := by rw [h.rows] at hr; cases hr
  history row hrow := by rw [h.fresh.taskHistory] at hrow; cases hrow

theorem TaskRow.From.carried {o : Origin} (h : r.From sha256 o) (hcarries : r.Carries r') : r'.From sha256 o where
  requested := hcarries.requested.trans h.requested
  key := (congrArg Requested.key hcarries.requested).trans h.key
  deadline hfrom := by
    have hfrom' : r.ttlFrom = .submission := (TaskRow.requested_ttlFrom hcarries.requested).symm.trans hfrom
    rw [hcarries.deadline hfrom', h.deadline hfrom']

/-- More rows, each of a life that goes on or of a new one. -/
private theorem Origins.Sound.extend (h : σ.Sound sha256) (hs' : σ'.store.Schema)
    (hnext : σ.store.nextInst ≤ σ'.store.nextInst) (hidle : σ'.store.BlockedIdle)
    (hrows : σ'.rows = σ.rows ++ σ'.store.tasks) (hold : ∀ life < σ.store.nextInst, σ'.origin life = σ.origin life)
    (harrive : ∀ r' ∈ σ'.store.tasks, (∃ r ∈ σ.store.tasks, r.inst = r'.inst ∧ r.Carries r') ∨
      ∃ o, σ'.origin r'.inst = some o ∧ r'.From sha256 o)
    (hlogs : σ.store.Logs (fun h => ∃ r ∈ σ.rows, h.Copies r) σ'.store) : σ'.Sound sha256 where
  schema := hs'
  idle := hidle
  rows r hr := by
    rw [hrows]
    exact List.mem_append_right _ hr
  lives r hr := by
    rw [hrows] at hr
    rcases List.mem_append.1 hr with hr | hr
    · exact Nat.lt_of_lt_of_le (h.lives r hr) hnext
    · exact hs'.inst_lt r hr
  known r' hr' := by
    rw [hrows] at hr'
    rcases List.mem_append.1 hr' with hr' | hr'
    · rw [hold _ (h.lives r' hr')]
      exact h.known r' hr'
    · rcases harrive r' hr' with ⟨r, hr, hinst, hcarries⟩ | hnew
      · obtain ⟨o, ho, hfrom⟩ := h.known r (h.rows r hr)
        rw [← hinst, hold _ (h.schema.inst_lt r hr)]
        exact ⟨o, ho, hfrom.carried hcarries⟩
      · exact hnew
  history row hrow := by
    rw [hrows]
    have hin : ∃ r ∈ σ.rows, row.Copies r := by
      rcases hlogs row hrow with hrow | hcopy
      · exact h.history row hrow
      · exact hcopy
    obtain ⟨r, hr, hcopy⟩ := hin
    exact ⟨r, List.mem_append_left _ hr, hcopy⟩

theorem Origins.Sound.submit (h : σ.Sound sha256) (skipRequeue : Bool) (m : TaskSubmission × Int) :
    (σ.submit sha256 skipRequeue m).Sound sha256 := by
  have hsteps : Steps true σ.store (submitOne sha256 m.1 skipRequeue m.2 σ.store).2 := steps_submitOne σ.store
  have harrives : (submitOne sha256 m.1 skipRequeue m.2 σ.store).2.Rows (TaskRow.Arrives sha256 σ.store
      { sub := m.1, arrival := σ.store.arrival (m.1.effectiveKey sha256), later := false, base := m.2 }) :=
    submitOne_arrives h.schema h.idle m.1 skipRequeue
  refine h.extend (h.schema.steps hsteps) hsteps.nextInst_le (fun r hr => (harrives r hr).idle) rfl
    (fun life hlt => ?_) (fun r' hr' => ?_) (logs_submitOne fun r hr row _ hcopy => ⟨r, h.rows r hr, hcopy⟩)
  · exact if_neg (Nat.ne_of_lt hlt)
  · rcases (harrives r' hr').comes with hkept | ⟨hinst, hfrom⟩
    · exact .inl hkept
    · exact .inr ⟨_, if_pos hinst, hfrom⟩

/-- The TTL is that of the submission, however it has got its row. -/
theorem Origin.requested_ttl (sha256 : List UInt8 → String) (o : Origin) :
    (o.requested sha256).ttlSeconds = o.sub.ttlSeconds ∧ (o.requested sha256).ttlFrom = o.sub.ttlFrom := by
  unfold Origin.requested
  cases o.arrival with
  | inserted => exact ⟨rfl, rfl⟩
  | inPlace old => exact ⟨rfl, rfl⟩
  | replaced => exact ⟨rfl, rfl⟩

/-- A task and its next instance ask for the same. -/
private theorem TaskRow.From.next {o : Origin} (h : r.From sha256 o) {source : TaskRow}
    (hsource : source.requested = r'.requested) (hreq : r.requested = source.requested)
    (hdeadline : r'.ttlFrom = .submission → r'.expiresAt = r'.ttlSeconds.map (r'.createdAt + · * 1000)) :
    r'.From sha256 { o with later := true, base := r'.createdAt } := by
  have hsame : r'.requested = r.requested := hsource.symm.trans hreq.symm
  refine ⟨?_, (congrArg Requested.key hsame).trans h.key, fun hfrom => ?_⟩
  · rw [hsame, h.requested]
    unfold Origin.requested
    cases o.arrival with
    | inserted => rfl
    | inPlace old => rfl
    | replaced => rfl
  · have hcolumn : r'.requested.ttlSeconds = (o.requested sha256).ttlSeconds := by rw [hsame, h.requested]
    have httl : r'.ttlSeconds = o.sub.ttlSeconds := hcolumn.trans (o.requested_ttl sha256).1
    rw [hdeadline hfrom, httl]
    rfl

/-- The origin of a row in a new life. -/
private theorem act_origin (hs' : (σ.act sha256 a).store.Schema) (hr' : r' ∈ (σ.act sha256 a).store.tasks)
    (hnew : σ.store.nextInst ≤ r'.inst) :
    (σ.act sha256 a).origin r'.inst = match σ.store.earlier r' with
      | some r => σ.origin r.inst
      | none => ((σ.store.tasks ++ a.records).find? (·.requested == r'.requested)).bind fun source =>
          (σ.origin source.inst).bind fun o => some { o with later := true, base := r'.createdAt } := by
  have hlt : ¬ r'.inst < σ.store.nextInst := Nat.not_lt.2 hnew
  have hfind : (a.exec sha256 σ.store).tasks.find? (·.inst == r'.inst) = some r' := hs'.find_inst hr'
  show (if r'.inst < σ.store.nextInst then _ else _) = _
  rw [if_neg hlt, hfind]
  rfl

/-- What the records that come back belong to. -/
private theorem Origins.Returns.source (hreturns : σ.Returns a) (h : σ.Sound sha256) {source : TaskRow}
    (hsource : source ∈ σ.store.tasks ++ a.records) :
    ∃ r ∈ σ.rows, r.inst = source.inst ∧ r.requested = source.requested := by
  rcases List.mem_append.1 hsource with hsource | hsource
  · exact ⟨source, h.rows source hsource, rfl, rfl⟩
  · exact hreturns source hsource

private theorem Origins.Sound.act_of (h : σ.Sound sha256) (hreturns : σ.Returns a)
    (hcomes : (a.exec sha256 σ.store).Rows (TaskRow.Comes σ.store (σ.store.tasks ++ a.records) a.completedAt))
    (hlogs : σ.store.Logs (fun h => ∃ r ∈ σ.store.tasks ++ a.records, h.Copies r) (a.exec sha256 σ.store)) :
    (σ.act sha256 a).Sound sha256 := by
  have hsteps : Steps a.submits σ.store (a.exec sha256 σ.store) := a.steps sha256 σ.store
  have hs' : (a.exec sha256 σ.store).Schema := h.schema.steps hsteps
  refine h.extend hs' hsteps.nextInst_le (fun r hr => (hcomes r hr).idle) rfl (fun life hlt => if_pos hlt)
    (fun r' hr' => ?_) (hlogs.mono fun row ⟨source, hsource, hcopy⟩ => ?_)
  · by_cases hlt : r'.inst < σ.store.nextInst
    · exact .inl ((hcomes r' hr').kept hlt)
    · have hnew : σ.store.nextInst ≤ r'.inst := Nat.not_lt.1 hlt
      right
      rw [act_origin hs' hr' hnew]
      cases hearlier : σ.store.earlier r' with
      | some r =>
        obtain ⟨hr, hgoes⟩ := earlier_some hearlier
        have hreset : r' = r.resetRequeued r'.inst := by
          rcases hgoes with hinst | ⟨_, hreset⟩
          · have hlt' := h.schema.inst_lt r hr
            omega
          · exact hreset
        have hcarries : r.Carries r' := by
          rw [hreset]
          exact ⟨rfl, fun _ => rfl⟩
        obtain ⟨o, ho, hfrom⟩ := h.known r (h.rows r hr)
        exact ⟨o, ho, hfrom.carried hcarries⟩
      | none =>
        rcases (hcomes r' hr').born hnew with ⟨r, hr, hid, hreq, hreset⟩ | ⟨source, hsource, now, _, hnext⟩
        · have hnot := List.find?_eq_none.1 hearlier r hr
          simp only [TaskRow.goesOn, hreq, Bool.or_eq_true, Bool.and_eq_true, beq_iff_eq] at hnot
          exact absurd (.inr ⟨⟨hid, trivial⟩, hreset⟩) hnot
        · obtain ⟨found, hfound, hsame, hmem⟩ :
            ∃ found, (σ.store.tasks ++ a.records).find? (·.requested == r'.requested) =
              some found ∧ found.requested = r'.requested ∧ found ∈ σ.store.tasks ++ a.records := by
            cases hfind : (σ.store.tasks ++ a.records).find? (·.requested == r'.requested) with
            | none => exact absurd (List.find?_eq_none.1 hfind source hsource) (by simp [hnext.requested])
            | some found => exact ⟨found, rfl, by simpa using List.find?_some hfind, List.mem_of_find?_eq_some hfind⟩
          obtain ⟨r, hr, hinst, hreq⟩ := hreturns.source h hmem
          obtain ⟨o, ho, hfrom⟩ := h.known r hr
          have hdeadline : r'.ttlFrom = .submission → r'.expiresAt = r'.ttlSeconds.map (r'.createdAt + · * 1000) := by
            intro hfrom'
            have hseconds : r'.ttlSeconds = source.ttlSeconds := congrArg Requested.ttlSeconds hnext.requested
            rw [hseconds, hnext.created]
            exact hnext.deadline ((TaskRow.requested_ttlFrom hnext.requested).symm.trans hfrom')
          rw [hfound]
          dsimp only [Option.bind_some]
          rw [← hinst, ho]
          exact ⟨_, rfl, hfrom.next hsame hreq hdeadline⟩
  · obtain ⟨r, hr, hinst, hreq⟩ := hreturns.source h hsource
    exact ⟨r, hr, hcopy.congr hinst hreq⟩

private theorem Origins.Sound.act (h : σ.Sound sha256) (hreturns : σ.Returns a) (hsub : a.submissions = []) :
    (σ.act sha256 a).Sound sha256 :=
  h.act_of hreturns (comes_exec sha256 h.schema h.idle hsub) (logs_copies sha256 h.schema hsub)

/-- A submission that fails leaves the tables as they were. -/
private theorem Origins.Sound.act_failed (h : σ.Sound sha256) (hreturns : σ.Returns a)
    (hsame : (a.exec sha256 σ.store).tasks = σ.store.tasks)
    (hhistory : (a.exec sha256 σ.store).taskHistory = σ.store.taskHistory) : (σ.act sha256 a).Sound sha256 := by
  refine h.act_of hreturns (fun r hr => ?_) (.of_eq hhistory)
  rw [hsame] at hr
  exact (kept_self hr (h.idle r hr)).comes h.schema _ _

/-- The submissions of a batch, one after the other. -/
private def submittedAll (sha256 : List UInt8 → String) (skipRequeue : Bool) (batch : List (TaskSubmission × Int))
    (s : Store) : Store :=
  batch.foldl (fun s m => (submitOne sha256 m.1 skipRequeue m.2 s).2) s

private theorem submitEach_submitted (skipRequeue : Bool) (batch : List (TaskSubmission × Int)) (s : Store) :
    (submitEach sha256 skipRequeue batch s).2 = submittedAll sha256 skipRequeue batch s := by
  induction batch generalizing s with
  | nil => rfl
  | cons m batch ih => exact ih _

private theorem submitChunk_submitted {skipRequeue : Bool} {last : Nat → String → Bool} {now : Int}
    {chunk : List (Nat × TaskSubmission)} {s s' : Store} {outcomes : List SubmitOutcome}
    (h : Txn.mapList (submitItem sha256 skipRequeue last now) chunk s = (.ok outcomes, s')) :
    s' = submittedAll sha256 skipRequeue
      ((chunk.filter fun item => last item.1 (item.2.effectiveKey sha256)).map fun item => (item.2, now)) s := by
  induction chunk generalizing s outcomes with
  | nil =>
    cases h
    rfl
  | cons item chunk ih =>
    obtain ⟨outcome, s₁, h₁, h⟩ := Txn.bind_ok h
    obtain ⟨rest, s₂, h₂, h⟩ := Txn.bind_ok h
    cases h
    rw [ih h₂]
    unfold submitItem at h₁
    by_cases hlast : last item.1 (item.2.effectiveKey sha256) = true
    · rw [if_pos hlast] at h₁
      rw [List.filter_cons, if_pos hlast, List.map_cons, submittedAll, submittedAll, List.foldl_cons, h₁]
    · rw [if_neg hlast] at h₁
      cases h₁
      rw [List.filter_cons, if_neg hlast]

private theorem foldl_submit (skipRequeue : Bool) (batch : List (TaskSubmission × Int)) (σ : Origins) :
    (batch.foldl (Origins.submit sha256 skipRequeue) σ).store = submittedAll sha256 skipRequeue batch σ.store := by
  induction batch generalizing σ with
  | nil => rfl
  | cons m batch ih => exact ih _

private theorem Origins.Sound.foldl_submit (h : σ.Sound sha256) (skipRequeue : Bool)
    (batch : List (TaskSubmission × Int)) :
    (batch.foldl (Origins.submit sha256 skipRequeue) σ).Sound sha256 := by
  induction batch generalizing σ with
  | nil => exact h
  | cons m batch ih => exact ih (h.submit skipRequeue m)

/-- The store takes its own step. -/
theorem Origins.step_store (sha256 : List UInt8 → String) (σ : Origins) (a : Action) :
    (σ.step sha256 a).store = a.exec sha256 σ.store := by
  cases a with
  | submitDirect sub now =>
    unfold Origins.step
    dsimp only
    rcases hrun : submitDirect sha256 sub now σ.store with ⟨e | outcome, s'⟩
    · rfl
    · have hone : submitOne sha256 sub (!σ.store.hasRunning) now σ.store = (.ok outcome, s') := transaction_ok hrun
      show (submitOne sha256 sub (!σ.store.hasRunning) now σ.store).2 = (submitDirect sha256 sub now σ.store).2
      rw [hone, hrun]
  | processSubmitBatch skipRequeue batch =>
    show (batch.foldl (Origins.submit sha256 skipRequeue) σ).store = _
    rw [Taskmill.foldl_submit]
    exact (submitEach_submitted _ batch σ.store).symm
  | submitChunk skipRequeue last now chunk =>
    unfold Origins.step
    dsimp only
    rcases hrun : submitChunk sha256 skipRequeue last now chunk σ.store with ⟨e | outcomes, s'⟩
    · rfl
    · dsimp only
      rw [Taskmill.foldl_submit, ← submitChunk_submitted (transaction_ok hrun)]
      show s' = (submitChunk sha256 skipRequeue last now chunk σ.store).2
      rw [hrun]
  | _ => rfl

theorem Origins.Sound.step (h : σ.Sound sha256) (hreturns : σ.Returns a) : (σ.step sha256 a).Sound sha256 := by
  cases a with
  | submitDirect sub now =>
    unfold Origins.step
    dsimp only
    rcases hrun : submitDirect sha256 sub now σ.store with ⟨e | outcome, s'⟩
    · obtain ⟨s₁, _, hrolled⟩ := transaction_error hrun
      have hexec : (Action.submitDirect sub now).exec sha256 σ.store = σ.store.rollback s₁ :=
        (congrArg Prod.snd hrun).trans hrolled
      exact h.act_failed hreturns (by rw [hexec]; rfl) (by rw [hexec]; rfl)
    · exact h.submit _ _
  | processSubmitBatch skipRequeue batch => exact h.foldl_submit _ batch
  | submitChunk skipRequeue last now chunk =>
    unfold Origins.step
    dsimp only
    rcases hrun : submitChunk sha256 skipRequeue last now chunk σ.store with ⟨e | outcomes, s'⟩
    · obtain ⟨s₁, _, hrolled⟩ := transaction_error hrun
      have hexec : (Action.submitChunk skipRequeue last now chunk).exec sha256 σ.store = σ.store.rollback s₁ :=
        (congrArg Prod.snd hrun).trans hrolled
      exact h.act_failed hreturns (by rw [hexec]; rfl) (by rw [hexec]; rfl)
    · exact h.foldl_submit _ _
  | _ => exact h.act hreturns rfl

end Runs

/-- In every run each row and each history row is that of a known origin. -/
theorem origins_sound {sha256 : List UInt8 → String} {σ : Origins}
    (h : Runs Origins.Start (Origins.step sha256) Origins.Returns σ) : σ.Sound sha256 :=
  h.invariant (fun _ hstart => hstart.sound) fun _ _ hsound hreturns => hsound.step hreturns

end Taskmill
