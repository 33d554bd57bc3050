import Taskmill.FirstAttempt
import Taskmill.Origins

/-!
# Durations in whole seconds

The TTL and the interval of a submission are stored in whole seconds; only the deadline that runs from the
submission is computed from the duration itself (`src/store/submit/mod.rs`).  The first claim, and `complete_inner`
for the next instance, compute with the seconds.

So the deadlines after a first claim, those of later instances, and the times of later instances are what was asked
for if and only if nothing was lost (`stored_durations_iff`).  `Durations` follows the store together with the
submissions and the first claims of its tasks.
-/

namespace Taskmill

open Transact

/-- The store with the submissions and with the first claims of its tasks. -/
structure Durations where
  origins : Origins
  attempts : Attempts

namespace Durations

def store (τ : Durations) : Store := τ.origins.store

def step (sha256 : List UInt8 → String) (τ : Durations) (a : Action) : Durations :=
  ⟨τ.origins.step sha256 a, τ.attempts.step sha256 a⟩

structure Start (τ : Durations) : Prop where
  origins : τ.origins.Start
  same : τ.attempts.store = τ.store

def Returns (τ : Durations) (a : Action) : Prop := τ.origins.Returns a

end Durations

/-- There are no milliseconds beside the whole seconds, and these fit in their column. -/
def Duration.WholeSeconds (d : Duration) : Prop := d.asMillis = 1000 * d.asSecs ∧ d.asSecs < 2 ^ 63

/-- The interval that is stored is not shorter than the one of the submission: that is a whole number of seconds
that fits in the column or, if the submission has got the row of another task, which keeps its schedule, not longer
than the other task's. -/
def Origin.KeepsInterval (o : Origin) (interval : Duration) : Prop :=
  match o.arrival with
  | .inPlace old => ∀ secs ∈ old.recurringIntervalSecs, (interval.nanos : Int) ≤ secs * 1000000000
  | .inserted | .replaced => interval.nanos % 1000000000 = 0 ∧ interval.asSecs < 2 ^ 63

/-- The row does not start before the interval after `now` has passed. -/
def TaskRow.Waits (r : TaskRow) (now : Int) (interval : Duration) : Prop :=
  ∃ t, r.runAfter = some t ∧ now * 1000000 + interval.nanos ≤ t * 1000000

/-! ### Runs -/

/-- What holds along the runs. -/
structure Durations.Sound (sha256 : List UInt8 → String) (τ : Durations) : Prop where
  origins : τ.origins.Sound sha256
  attempts : τ.attempts.Kept
  same : τ.attempts.store = τ.store

section Runs

variable {sha256 : List UInt8 → String} {τ : Durations} {a : Action} {o : Origin} {r r' : TaskRow} {d : Duration}

theorem Durations.Start.sound (h : τ.Start) : τ.Sound sha256 where
  origins := h.origins.sound
  attempts := by
    have hstart : τ.attempts.Start := by
      rw [Attempts.Start, h.same]
      exact h.origins.fresh
    exact hstart.kept
  same := h.same

theorem Durations.Sound.step (h : τ.Sound sha256) (hreturns : τ.Returns a) : (τ.step sha256 a).Sound sha256 where
  origins := h.origins.step hreturns
  attempts := h.attempts.step sha256 a
  same := by
    show a.exec sha256 τ.attempts.store = (τ.origins.step sha256 a).store
    rw [Origins.step_store, h.same]
    rfl

/-- The columns of the TTL. -/
private theorem TaskRow.From.ttl (h : r.From sha256 o) (hd : o.sub.ttl = some d) :
    r.ttlSeconds = some (asI64 d.asSecs) ∧ r.ttlFrom = o.sub.ttlFrom := by
  obtain ⟨hseconds, hfrom⟩ := o.requested_ttl sha256
  have hseconds' : r.ttlSeconds = o.sub.ttlSeconds := (congrArg Requested.ttlSeconds h.requested).trans hseconds
  have hfrom' : r.ttlFrom = o.sub.ttlFrom := (congrArg Requested.ttlFrom h.requested).trans hfrom
  rw [hseconds', TaskSubmission.ttlSeconds, hd]
  exact ⟨rfl, hfrom'⟩

/-- The seconds of a duration, cut to the column, are its milliseconds. -/
private theorem wholeSeconds_iff : 1000 * asI64 d.asSecs = d.asMillis ↔ d.WholeSeconds := by
  have hle := asI64_le d.asSecs
  have hge : 1000 * d.asSecs ≤ d.asMillis := by
    unfold Duration.asMillis Duration.asSecs
    omega
  unfold Duration.WholeSeconds
  rw [← le_asI64_iff]
  omega

/-- A deadline from the submission, or from the creation of the instance. -/
private theorem TaskRow.From.deadline_iff (h : r.From sha256 o) (hd : o.sub.ttl = some d)
    (hfrom : o.sub.ttlFrom = .submission) :
    r.expiresAt = some (o.base + d.asMillis) ↔ o.later = false ∨ d.WholeSeconds := by
  rw [h.deadline ((h.ttl hd).2.trans hfrom)]
  unfold Origin.deadline
  cases o.later with
  | false =>
    have hfirst : o.sub.expiresAt o.base = some (o.base + d.asMillis) := by
      unfold TaskSubmission.expiresAt
      rw [hd, hfrom]
    simp [hfirst]
  | true =>
    have hlater : o.sub.ttlSeconds.map (o.base + · * 1000) = some (o.base + asI64 d.asSecs * 1000) := by
      rw [TaskSubmission.ttlSeconds, hd]
      rfl
    simp only [if_true, hlater, Option.some.injEq, Bool.true_eq_false, false_or, ← wholeSeconds_iff]
    omega

/-- A deadline from the first attempt. -/
private theorem TaskRow.From.attempt_iff {first initial : Option Int} (h : r.From sha256 o)
    (hkept : r.DeadlineKept first initial) (hd : o.sub.ttl = some d) (hfrom : o.sub.ttlFrom = .firstAttempt)
    {t : Int} (ht : first = some t) :
    r.expiresAt = some (t + d.asMillis) ↔ d.WholeSeconds := by
  obtain ⟨hseconds, hfrom'⟩ := h.ttl hd
  rw [hkept.firstAttempt (hfrom'.trans hfrom) _ hseconds, ht]
  simp only [Option.map_some, Option.some.injEq, ← wholeSeconds_iff]
  omega

/-- The interval of a submission and the one that its row has got. -/
private theorem Origin.keepsInterval_iff {schedule : RecurringSchedule}
    (hschedule : o.sub.recurring = some schedule) {secs : Int}
    (hsecs : (o.requested sha256).recurringIntervalSecs = some secs) :
    (schedule.interval.nanos : Int) ≤ secs * 1000000000 ↔ o.KeepsInterval schedule.interval := by
  unfold Origin.requested at hsecs
  unfold Origin.KeepsInterval
  cases harrival : o.arrival with
  | inserted =>
    rw [harrival] at hsecs
    have hcolumn : o.sub.recurring.map (fun r => asI64 r.interval.asSecs) = some secs := hsecs
    rw [hschedule] at hcolumn
    obtain rfl : asI64 schedule.interval.asSecs = secs := Option.some.inj hcolumn
    have hle := asI64_le schedule.interval.asSecs
    have hfloor : schedule.interval.asSecs = schedule.interval.nanos / 1000000000 := rfl
    dsimp only
    rw [← le_asI64_iff]
    omega
  | inPlace old =>
    rw [harrival] at hsecs
    have hcolumn : old.recurringIntervalSecs = some secs := hsecs
    simp [hcolumn]
  | replaced =>
    rw [harrival] at hsecs
    cases hsecs

/-- The time of a next instance. -/
private theorem TaskRow.From.waits_iff (h : r'.From sha256 o) {now : Int} (hnext : r.NextOf now r')
    {schedule : RecurringSchedule} (hschedule : o.sub.recurring = some schedule) : r'.Waits now schedule.interval ↔
      o.KeepsInterval schedule.interval := by
  obtain ⟨secs, hsecs, hafter⟩ := hnext.runAfter
  have hstored : (o.requested sha256).recurringIntervalSecs = some secs := by
    rw [← h.requested, hnext.requested]
    exact hsecs
  rw [← Origin.keepsInterval_iff hschedule hstored, TaskRow.Waits, hafter]
  constructor
  · rintro ⟨t, ht, hle⟩
    cases ht
    omega
  · intro hle
    exact ⟨_, rfl, by omega⟩

end Runs

/-- Deadlines and times are those that were asked for if and only if the whole seconds are and fit. -/
theorem stored_durations_iff (sha256 : List UInt8 → String) (τ : Durations)
    (h : Runs Durations.Start (Durations.step sha256) Durations.Returns τ) :
    (∀ r ∈ τ.store.tasks, ∃ o, τ.origins.origin r.inst = some o ∧ ∀ d, o.sub.ttl = some d →
      (o.sub.ttlFrom = .submission → (r.expiresAt = some (o.base + d.asMillis) ↔ o.later = false ∨ d.WholeSeconds)) ∧
      (o.sub.ttlFrom = .firstAttempt → ∀ t, τ.attempts.first r.inst = some t →
        (r.expiresAt = some (t + d.asMillis) ↔ d.WholeSeconds))) ∧
    ∀ a : Action, τ.Returns a → a.submissions = [] →
      ∀ r' ∈ (a.exec sha256 τ.store).tasks, τ.store.nextInst ≤ r'.inst →
      τ.store.earlier r' = none → ∃ o now, (τ.step sha256 a).origins.origin r'.inst = some o ∧
        a.completedAt = some now ∧
        ∀ schedule, o.sub.recurring = some schedule →
          (r'.Waits now schedule.interval ↔ o.KeepsInterval schedule.interval) := by
  have hsound : τ.Sound sha256 := h.invariant (fun _ hstart => hstart.sound) fun _ _ hsound hreturns =>
    hsound.step hreturns
  refine ⟨fun r hr => ?_, fun a hreturns hsub r' hr' hnew hearlier => ?_⟩
  · obtain ⟨o, ho, hfrom⟩ := hsound.origins.known r (hsound.origins.rows r hr)
    have hkept : r.DeadlineKept (τ.attempts.first r.inst) (τ.attempts.initial r.inst) := by
      refine hsound.attempts.rows r ?_
      rw [hsound.same]
      exact hr
    exact ⟨o, ho, fun d hd => ⟨fun hsubmission => hfrom.deadline_iff hd hsubmission,
      fun hattempt t ht => hfrom.attempt_iff hkept hd hattempt ht⟩⟩
  · have hnext := hsound.step (a := a) hreturns
    have hstore : (τ.step sha256 a).origins.store = a.exec sha256 τ.store := Origins.step_store sha256 τ.origins a
    have hin : r' ∈ (τ.step sha256 a).origins.store.tasks := by
      rw [hstore]
      exact hr'
    obtain ⟨o, ho, hfrom⟩ := hnext.origins.known r' (hnext.origins.rows r' hin)
    have hborn := (comes_exec sha256 hsound.origins.schema hsound.origins.idle hsub r' hr').born hnew
    rcases hborn with ⟨r, hr, hid, hreq, hreset⟩ | ⟨source, _, now, hnow, hinstance⟩
    · -- a row that was requeued has an earlier one
      have hnot := List.find?_eq_none.1 hearlier r hr
      simp only [TaskRow.goesOn, hreq, Bool.or_eq_true, Bool.and_eq_true, beq_iff_eq] at hnot
      exact absurd (.inr ⟨⟨hid, trivial⟩, hreset⟩) hnot
    · exact ⟨o, now, ho, hnow, fun schedule hschedule => hfrom.waits_iff hinstance hschedule⟩

/-- Ten seconds from the first attempt, every minute. -/
private def everyMinute : TaskSubmission :=
  { TaskSubmission.new "a" with
    ttl := some ⟨10000000000⟩, ttlFrom := .firstAttempt, recurring := some ⟨⟨60000000000⟩, none, none⟩ }

/-- Every half second. -/
private def everyHalfSecond : TaskSubmission :=
  { TaskSubmission.new "a" with recurring := some ⟨⟨500000000⟩, none, none⟩ }

private def newDurations : Durations := ⟨⟨openMemory, [], fun _ => none⟩, ⟨openMemory, fun _ => none, fun _ => none⟩⟩

/-- The task is submitted and starts at 5. -/
private def startedAt5 (sub : TaskSubmission) : Durations :=
  [Action.submitDirect sub 0, .claimTask 1 5].foldl (Durations.step sampleSha256) newDurations

private theorem returns_nothing {τ : Durations} {a : Action} (h : a.records = []) : τ.Returns a := by
  intro task htask
  rw [h] at htask
  cases htask

private theorem startedAt5_runs (sub : TaskSubmission) :
    Runs Durations.Start (Durations.step sampleSha256) Durations.Returns (startedAt5 sub) :=
  Runs.list (.start ⟨⟨openMemory_fresh, rfl⟩, rfl⟩) _ ⟨returns_nothing rfl, returns_nothing rfl, trivial⟩

/-- Its row, and that of the next instance if it completes at 7. -/
private def startedRow (sub : TaskSubmission) : TaskRow :=
  { (sub.newRow (sampleSha256 [97, 58]) 0).claim 5 with id := 1 }

private def nextRow (sub : TaskSubmission) (secs : Int) : TaskRow :=
  { (rowToTaskRecord (startedRow sub)).nextInstance secs 7 with id := 1, inst := 1 }

theorem minute_kept : (startedAt5 everyMinute).store.tasks = [startedRow everyMinute] ∧
    (startedRow everyMinute).expiresAt = some (5 + 10000) ∧
    ((Action.complete 1 {} 7).exec sampleSha256 (startedAt5 everyMinute).store).tasks = [nextRow everyMinute 60] ∧
    (nextRow everyMinute 60).Waits 7 ⟨60000000000⟩ := by
  have hrows : (startedAt5 everyMinute).store.tasks = [startedRow everyMinute] := by decide +kernel
  have hnext : ((Action.complete 1 {} 7).exec sampleSha256 (startedAt5 everyMinute).store).tasks =
      [nextRow everyMinute 60] := by
    decide +kernel
  have horigin : (startedAt5 everyMinute).origins.origin 0 = some ⟨everyMinute, .inserted, false, 0⟩ := by
    decide +kernel
  have hlater : ((startedAt5 everyMinute).step sampleSha256 (.complete 1 {} 7)).origins.origin 1 =
      some ⟨everyMinute, .inserted, true, 7⟩ := by decide +kernel
  obtain ⟨hdeadlines, hinstances⟩ := stored_durations_iff sampleSha256 _ (startedAt5_runs everyMinute)
  refine ⟨hrows, ?_, hnext, ?_⟩
  · obtain ⟨o, ho, hkept⟩ := hdeadlines (startedRow everyMinute) (by rw [hrows]; exact List.mem_singleton_self _)
    obtain rfl := Option.some.inj (horigin.symm.trans ho)
    exact ((hkept ⟨10000000000⟩ rfl).2 rfl 5 (by decide +kernel)).2 ⟨rfl, by decide⟩
  · obtain ⟨o, now, ho, hnow, hwaits⟩ := hinstances (.complete 1 {} 7) (returns_nothing rfl) rfl
      (nextRow everyMinute 60)
      (by rw [hnext]; exact List.mem_singleton_self _) (by decide +kernel) (by decide +kernel)
    obtain rfl := Option.some.inj (hlater.symm.trans ho)
    cases hnow
    exact (hwaits ⟨⟨60000000000⟩, none, none⟩ rfl).2 ⟨rfl, by decide⟩

/-- The next instance may start at once. -/
theorem half_second_lost : ¬ ∀ (sha256 : List UInt8 → String) (τ : Durations),
    Runs Durations.Start (Durations.step sha256) Durations.Returns τ →
      (∀ r ∈ τ.store.tasks, ∃ o, τ.origins.origin r.inst = some o ∧ ∀ d, o.sub.ttl = some d →
        (o.sub.ttlFrom = .submission → r.expiresAt = some (o.base + d.asMillis)) ∧
        (o.sub.ttlFrom = .firstAttempt → ∀ t, τ.attempts.first r.inst = some t →
          r.expiresAt = some (t + d.asMillis))) ∧
      ∀ a : Action, τ.Returns a → a.submissions = [] →
        ∀ r' ∈ (a.exec sha256 τ.store).tasks, τ.store.nextInst ≤ r'.inst →
        τ.store.earlier r' = none → ∃ o now, (τ.step sha256 a).origins.origin r'.inst = some o ∧
          a.completedAt = some now ∧
          ∀ schedule, o.sub.recurring = some schedule → 0 < schedule.interval.nanos →
            r'.Waits now schedule.interval := by
  intro h
  have hnext : ((Action.complete 1 {} 7).exec sampleSha256 (startedAt5 everyHalfSecond).store).tasks =
      [nextRow everyHalfSecond 0] := by
    decide +kernel
  have hlater : ((startedAt5 everyHalfSecond).step sampleSha256 (.complete 1 {} 7)).origins.origin 1 =
      some ⟨everyHalfSecond, .inserted, true, 7⟩ := by decide +kernel
  obtain ⟨o, now, ho, hnow, hwaits⟩ := (h sampleSha256 _ (startedAt5_runs everyHalfSecond)).2 (.complete 1 {} 7)
    (returns_nothing rfl) rfl
    (nextRow everyHalfSecond 0) (by rw [hnext]; exact List.mem_singleton_self _) (by decide +kernel)
      (by decide +kernel)
  obtain rfl := Option.some.inj (hlater.symm.trans ho)
  cases hnow
  obtain ⟨t, ht, hle⟩ := hwaits ⟨⟨500000000⟩, none, none⟩ rfl (by decide)
  have ht' : t = 7 := by
    have hafter : (nextRow everyHalfSecond 0).runAfter = some 7 := by decide +kernel
    exact Option.some.inj (ht.symm.trans hafter)
  rw [ht'] at hle
  exact absurd hle (by decide)

end Taskmill
