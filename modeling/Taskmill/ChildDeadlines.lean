import Taskmill.ChildSpawning

/-!
# The deadline of a child

A child without a TTL of its own inherits what is left of the TTL of its parent: in `ChildSpawner::inherit_ttl`, in
`TaskRecord::remaining_ttl` for a batch, and in `SubmitBuilder::submit`, which all compute the same
(`TaskRecord.Spawns.ttl`).  What is left is counted from `created_at` or the latest `started_at` and in the whole
seconds of `ttl_seconds`; the deadline in `expires_at`, which came from the first attempt or from the exact
duration, is not looked at.  The spawner counts from the record that its parent runs with, whose `started_at` may be
later than that of the row.
-/

namespace Taskmill

/-- The column `expires_at` of `submit_one`, where the clock counts nanoseconds. -/
def TaskSubmission.deadline (sub : TaskSubmission) (now : Int) : Option Int :=
  match sub.ttl, sub.ttlFrom with
  | some ttl, .submission => some (delayed ttl now)
  | _, _ => none

/-- No layer of the scheduler sets a TTL. -/
structure SchedulerTtls.Unset (ttls : SchedulerTtls) : Prop where
  typeTtl : ∀ taskType, ttls.typeTtl taskType = none
  defaultTtl : ttls.defaultTtl = none

/-- A child of `parent` for which no layer sets a TTL, as it is handed to the store on one of the three ways. -/
inductive TaskRecord.Spawns (parent : TaskRecord) (now : Int) : TaskSubmission → Prop
  | spawner {modules : List ModuleEntry} {aging : Option AgingConfig} {spawner : ChildSpawner} {sub : TaskSubmission}
    (hspawner : (buildTaskContext parent modules aging).childSpawner = some spawner) (httl : sub.ttl = none) :
    Spawns parent now (spawner.prepare now sub)
  | batch {handle : ModuleHandle} {subs : List TaskSubmission} {ttls : SchedulerTtls} {s : Store} {pid : Int}
    {child : TaskSubmission}
    (hpid : (subs.map fun sub => (handle.submit sub).resolve).head?.bind (·.parentId) = some pid)
    (hparent : s.taskRecordById pid = some parent) (httl : ∀ sub ∈ subs, (handle.submit sub).resolve.ttl = none)
    (hunset : ttls.Unset) (hchild : child ∈ handle.submitBatch subs ttls s now) : Spawns parent now child
  | builder {b : SubmitBuilder} {ttls : SchedulerTtls} {s : Store} {pid : Int} (hpid : b.overrideParentId = some pid)
    (hparent : s.taskRecordById pid = some parent) (httl : b.resolve.ttl = none) (hunset : ttls.Unset) :
    Spawns parent now (b.submit ttls s now)

/-- The deadline in the row of the task. -/
def Store.storedExpiry (s : Store) (id : Int) : Option Int := (s.taskById id).bind (·.expiresAt)

/-- The child is inserted with a deadline, and it is not later than the one in the row of its parent, or than now if
that has passed. -/
def TaskRecord.Bounds (parent : TaskRecord) (s : Store) (insertedAt : Int) (child : TaskSubmission) : Prop :=
  ∃ x, child.deadline insertedAt = some x ∧ ∀ e, s.storedExpiry parent.id = some e → x ≤ max e (insertedAt / 1000000)

/-- The TTL of the parent has started and, in whole seconds, not run out; its end (from the clock if this is behind
the start) and the time until the child is inserted keep within the deadline in the row of the parent. -/
def TaskRecord.EndsInTime (parent : TaskRecord) (s : Store) (now insertedAt : Int) : Prop :=
  ∃ secs start, parent.ttlSeconds = some secs ∧
    ttlStart parent.createdAt parent.startedAt parent.ttlFrom = some start ∧
    let ends := min now (start * 1000000) + (Duration.fromSecs secs).nanos
    now < ends ∧
      ∀ e, s.storedExpiry parent.id = some e → (ends + (insertedAt - now)) / 1000000 ≤ max e (insertedAt / 1000000)

/-! ### A parent with half a second -/

/-- The first task has a TTL of 500 ms and runs. -/
private def halfSecondStore : Store :=
  execAll sampleSha256 openMemory [.submitDirect { TaskSubmission.new "a" with ttl := some ⟨500000000⟩ } 0,
    .claimTask 1 0]

private def halfSecondParent : TaskRecord := (halfSecondStore.taskRecordById 1).get (by decide +kernel)

private def spawnerOf (parent : TaskRecord) : ChildSpawner :=
  ⟨parent.id, parent.parentContext⟩

/-- The column `ttl_seconds` of the parent is zero, and its child has no deadline at all. -/
theorem half_second_not_inherited :
    halfSecondStore.taskRecordById 1 = some halfSecondParent ∧ halfSecondStore.storedExpiry 1 = some 500 ∧
      halfSecondParent.Spawns 0 ((spawnerOf halfSecondParent).prepare 0 (.new "b")) ∧
      ¬halfSecondParent.Bounds halfSecondStore 0 ((spawnerOf halfSecondParent).prepare 0 (.new "b")) := by
  have hspawner : (buildTaskContext halfSecondParent [] none).childSpawner = some (spawnerOf halfSecondParent) := rfl
  refine ⟨by decide +kernel, by decide +kernel, .spawner hspawner rfl, ?_⟩
  rintro ⟨x, hx, _⟩
  have hnone : ((spawnerOf halfSecondParent).prepare 0 (.new "b")).deadline 0 = none := by decide +kernel
  rw [hnone] at hx
  cases hx

/-! ### What is left of a TTL -/

section Remaining

variable {parent : TaskRecord} {now insertedAt : Int} {child sub : TaskSubmission} {remaining : Duration}

theorem Duration.checkedSub_filter (d e : Duration) :
    (d.checkedSub e).filter (fun r => !r.isZero) = if e.nanos < d.nanos then some ⟨d.nanos - e.nanos⟩ else none := by
  unfold Duration.checkedSub
  by_cases hlt : e.nanos < d.nanos
  · have hpos : (Duration.isZero ⟨d.nanos - e.nanos⟩) = false := by
      unfold Duration.isZero
      rw [beq_eq_false_iff_ne]
      exact Nat.sub_ne_zero_of_lt hlt
    rw [if_pos hlt, if_pos hlt.le, Option.filter_some, hpos]
    rfl
  · rw [if_neg hlt]
    by_cases hle : e.nanos ≤ d.nanos
    · have hzero : d.nanos - e.nanos = 0 := by omega
      rw [if_pos hle, hzero]
      rfl
    · rw [if_neg hle]
      rfl

/-- What is left, as the difference between the end of the TTL and the clock. -/
theorem TaskRecord.remainingTtl_eq_some : parent.remainingTtl now = some remaining ↔
    ∃ secs start, parent.ttlSeconds = some secs ∧
      ttlStart parent.createdAt parent.startedAt parent.ttlFrom = some start ∧
      now < min now (start * 1000000) + (Duration.fromSecs secs).nanos ∧
      (remaining.nanos : Int) = min now (start * 1000000) + (Duration.fromSecs secs).nanos - now := by
  unfold TaskRecord.remainingTtl
  cases parent.ttlSeconds with
  | none => simp
  | some secs =>
    cases ttlStart parent.createdAt parent.startedAt parent.ttlFrom with
    | none => simp
    | some start =>
      have helapsed : ((elapsedSince start now).nanos : Int) = now - min now (start * 1000000) := by
        unfold elapsedSince
        dsimp only
        omega
      show ((Duration.fromSecs secs).checkedSub (elapsedSince start now)).filter _ = some remaining ↔ _
      rw [Duration.checkedSub_filter]
      constructor
      · intro h
        split at h
        · cases h
          refine ⟨secs, start, rfl, rfl, by omega, ?_⟩
          dsimp only
          omega
        · cases h
      · rintro ⟨_, _, ⟨⟩, ⟨⟩, hlt, hnanos⟩
        obtain ⟨nanos⟩ := remaining
        dsimp only at hnanos
        rw [if_pos (by omega), Option.some.injEq, Duration.mk.injEq]
        omega

/-- All ways hand on what is left of the TTL. -/
theorem TaskRecord.Spawns.inherited (h : parent.Spawns now child) :
    child.ttl = parent.remainingTtl now ∧ (child.ttl.isSome = true → child.ttlFrom = .submission) := by
  have hinherit : ∀ sub : TaskSubmission, sub.ttl = none →
      (ModuleHandle.inherit parent now sub).ttl = parent.remainingTtl now ∧
        ((ModuleHandle.inherit parent now sub).ttl.isSome = true →
            (ModuleHandle.inherit parent now sub).ttlFrom = .submission) := by
    intro sub httl
    rw [ModuleHandle.inherit_eq, httl]
    refine ⟨rfl, fun hsome => ?_⟩
    have hsome : (parent.remainingTtl now).isSome = true := hsome
    simp [hsome]
  have hresolve : ∀ ttls : SchedulerTtls, ttls.Unset → ∀ sub, ttls.resolveTtl sub = sub := by
    intro ttls hunset sub
    rw [SchedulerTtls.resolveTtl_eq, hunset.typeTtl, hunset.defaultTtl]
    simp
  cases h with
  | spawner hspawner httl =>
    rw [ChildSpawner.prepare_eq _ _ _ hspawner]
    exact hinherit _ httl
  | @batch handle subs ttls s pid child hpid hparent httl hunset hchild =>
    unfold ModuleHandle.submitBatch at hchild
    dsimp only at hchild
    rw [hpid] at hchild
    dsimp only at hchild
    rw [hparent, List.map_map, List.map_map, List.mem_map] at hchild
    obtain ⟨sub, hsub, rfl⟩ := hchild
    rw [Function.comp_apply, Function.comp_apply, hresolve ttls hunset]
    exact hinherit _ (httl sub hsub)
  | @builder b ttls s pid hpid hparent httl hunset =>
    unfold SubmitBuilder.submit
    rw [hpid]
    dsimp only
    rw [hparent, hresolve ttls hunset]
    dsimp only
    rw [SubmitBuilder.inherit_eq]
    exact hinherit _ httl

/-- With a clock of whole milliseconds the deadline is the column of the row that is inserted. -/
theorem TaskSubmission.deadline_eq (sub : TaskSubmission) (key : String) (nowMs : Int) :
    sub.deadline (nowMs * 1000000) = (sub.newRow key nowMs).expiresAt := by
  have hcolumn : (sub.newRow key nowMs).expiresAt = sub.expiresAt nowMs := rfl
  rw [hcolumn]
  unfold TaskSubmission.deadline TaskSubmission.expiresAt
  cases sub.ttl with
  | none => rfl
  | some ttl =>
    cases sub.ttlFrom with
    | firstAttempt => rfl
    | submission =>
      show some (delayed ttl (nowMs * 1000000)) = some (nowMs + ttl.asMillis)
      unfold delayed Duration.asMillis
      rw [Option.some.injEq]
      omega

end Remaining

/-- A child gets a deadline within the stored one of its parent exactly where the end of its parent's TTL, counted
anew in whole seconds, is within it.  The parent is the record that the way has in hand, the store is the one into
which the child is inserted. -/
theorem child_bounded_iff (parent : TaskRecord) (s : Store) (now insertedAt : Int) (child : TaskSubmission)
    (h : parent.Spawns now child) : parent.Bounds s insertedAt child ↔ parent.EndsInTime s now insertedAt := by
  obtain ⟨httl, hfrom⟩ := h.inherited
  cases hremaining : parent.remainingTtl now with
  | none =>
    refine iff_of_false ?_ ?_
    · rintro ⟨x, hx, _⟩
      unfold TaskSubmission.deadline at hx
      rw [httl, hremaining] at hx
      cases hx
    · rintro ⟨secs, start, hsecs, hstart, hlt, _⟩
      have hsome : parent.remainingTtl now =
          some ⟨(min now (start * 1000000) + (Duration.fromSecs secs).nanos - now).toNat⟩ :=
        TaskRecord.remainingTtl_eq_some.2 ⟨secs, start, hsecs, hstart, hlt, by dsimp only; omega⟩
      rw [hremaining] at hsome
      cases hsome
  | some remaining =>
    obtain ⟨secs, start, hsecs, hstart, hlt, hnanos⟩ := TaskRecord.remainingTtl_eq_some.1 hremaining
    have hdeadline : child.deadline insertedAt = some (delayed remaining insertedAt) := by
      unfold TaskSubmission.deadline
      rw [hfrom (by rw [httl, hremaining]; rfl), httl, hremaining]
    have hdelayed : delayed remaining insertedAt =
        (min now (start * 1000000) + (Duration.fromSecs secs).nanos + (insertedAt - now)) / 1000000 := by
      unfold delayed
      rw [hnanos]
      congr 1
      omega
    constructor
    · rintro ⟨x, hx, hle⟩
      rw [hdeadline] at hx
      cases hx
      refine ⟨secs, start, hsecs, hstart, hlt, fun e he => ?_⟩
      rw [← hdelayed]
      exact hle e he
    · rintro ⟨secs', start', hsecs', hstart', _, hle⟩
      rw [hsecs] at hsecs'
      rw [hstart] at hstart'
      cases hsecs'
      cases hstart'
      refine ⟨_, hdeadline, fun e he => ?_⟩
      rw [hdelayed]
      exact hle e he

/-- A parent with a TTL of 100 seconds that runs in its first attempt. -/
private def hundredSecondsStore : Store :=
  execAll sampleSha256 openMemory
    [.submitDirect { TaskSubmission.new "a" with ttl := some (.fromSecs 100), ttlFrom := .firstAttempt } 0,
      .claimTask 1 5000]

private def hundredSecondsParent : TaskRecord := (hundredSecondsStore.taskRecordById 1).get (by decide +kernel)

/-- It spawns a child ten seconds later. -/
private def hundredSecondsChild : TaskSubmission := (spawnerOf hundredSecondsParent).prepare 15000000000 (.new "b")

/-- It passes its deadline on. -/
theorem first_attempt_inherited :
    hundredSecondsParent.Bounds hundredSecondsStore 15000000000 hundredSecondsChild ∧
      ∀ key, (hundredSecondsChild.newRow key 15000).expiresAt = hundredSecondsStore.storedExpiry 1 := by
  have hspawner : (buildTaskContext hundredSecondsParent [] none).childSpawner =
    some (spawnerOf hundredSecondsParent) := rfl
  have hexpires : hundredSecondsStore.storedExpiry hundredSecondsParent.id = some 105000 := by decide +kernel
  refine ⟨(child_bounded_iff hundredSecondsParent hundredSecondsStore 15000000000 15000000000 hundredSecondsChild
    (.spawner hspawner rfl)).2 ⟨100, 5000, by decide +kernel, by decide +kernel, by decide +kernel, fun e he => ?_⟩,
    fun key => ?_⟩
  · rw [hexpires] at he
    cases he
    decide +kernel
  · rw [← TaskSubmission.deadline_eq]
    decide +kernel

end Taskmill
