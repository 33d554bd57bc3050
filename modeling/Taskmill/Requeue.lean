import Taskmill.Survival
import Taskmill.WellFormed

/-!
# Duplicates of a running task

A duplicate that is submitted with the `skip` strategy while the task runs marks the row: `requeue` is set, and
`requeue_priority` is the most urgent priority that was asked for.  The mark stays until a completion of the task,
which makes the row pending with that priority instead of deleting it.
-/

namespace Taskmill

open Transact

/-- What `skip_existing` does to the row with the key, after some task has run. -/
def TaskRow.skipped (priority : Priority) (r : TaskRow) : TaskRow :=
  if (r.status = .pending ∨ r.status = .paused) ∧ priority < r.priority then { r with priority := priority }
  else if (r.status = .running ∨ r.status = .paused) ∧
      (!r.requeue || r.requeuePriority.any (priority < ·)) = true then
    { r with requeue := true, requeuePriority := some priority }
  else r

/-- What a submission does to the row of a task whose key it may have. -/
def TaskRow.submitted (sha256 : List UInt8 → String) (sub : TaskSubmission) (r : TaskRow) : TaskRow :=
  if sub.validate.toBool = true ∧ sub.effectiveKey sha256 = r.key then r.skipped sub.priority else r

/-! ### One submission -/

section Submission

variable {sha256 : List UInt8 → String} {sub : TaskSubmission} {now : Int} {s : Store} {r : TaskRow}

/-- An `UPDATE` leaves the changed row in its place. -/
private theorem mem_updateTasks (hr : r ∈ s.tasks) (p : TaskRow → Bool) (f : TaskRow → TaskRow) :
    (if p r then f r else r) ∈ (s.updateTasks p f).tasks := List.mem_map.2 ⟨r, hr, rfl⟩

theorem taskByKey_row (hs : s.Schema) (hr : r ∈ s.tasks) : s.taskByKey r.key = some r := by
  cases hf : s.taskByKey r.key with
  | none => exact absurd (List.find?_eq_none.1 hf r hr) (by simp)
  | some r' =>
    have hkey : r'.key = r.key := by simpa using List.find?_some hf
    rw [List.inj_on_of_nodup_map hs.keys (List.mem_of_find?_eq_some hf) hr hkey]

/-- An `UPDATE` by key reports the row with the key if it selects it. -/
private theorem updateByKey_eq (hs : s.Schema) (hr : r ∈ s.tasks) {p : TaskRow → Bool} (f : TaskRow → TaskRow)
    (hp : ∀ r', p r' = true → r'.key = r.key) :
    updateByKey p f s = (.ok (if p r then some r.id else none), s.updateTasks p f) := by
  have hfind : s.tasks.find? p = if p r then some r else none := by
    cases hf : s.tasks.find? p with
    | none => rw [if_neg (List.find?_eq_none.1 hf r hr)]
    | some r' =>
      have hsel : p r' = true := List.find?_some hf
      obtain rfl : r' = r := List.inj_on_of_nodup_map hs.keys (List.mem_of_find?_eq_some hf) hr (hp r' hsel)
      rw [if_pos hsel]
  rw [updateByKey, hfind]
  split
  · rfl
  · rfl

private theorem skipExisting_row (hs : s.Schema) (hr : r ∈ s.tasks) (priority : Priority) :
    r.skipped priority ∈ (skipExisting r.key priority false s).2.tasks := by
  have hkey {r' : TaskRow} : (r'.key == r.key && (r'.status == .pending || r'.status == .paused) &&
      priority < r'.priority) = true → r'.key = r.key := by
    intro h
    simp only [Bool.and_eq_true, beq_iff_eq] at h
    exact h.1.1
  have hfirst := mem_updateTasks hr
    (fun r' => r'.key == r.key && (r'.status == .pending || r'.status == .paused) && priority < r'.priority)
    fun r' => { r' with priority := priority }
  rw [skipExisting, Txn.bind_of_ok (updateByKey_eq hs hr _ fun _ => hkey), TaskRow.skipped]
  by_cases hup : (r.status = .pending ∨ r.status = .paused) ∧ priority < r.priority
  · have hsel : (r.key == r.key && (r.status == .pending || r.status == .paused) && priority < r.priority) =
        true := by
      simp [hup]
    rw [if_pos hup, if_pos hsel]
    rw [if_pos hsel] at hfirst
    exact hfirst
  · have hsel : ¬ (r.key == r.key && (r.status == .pending || r.status == .paused) && priority < r.priority) =
        true := by
      simpa using hup
    rw [if_neg hup, if_neg hsel]
    rw [if_neg hsel] at hfirst
    -- the row is as it was, and the second statement goes on with it
    have hsecond := mem_updateTasks hfirst
      (fun r' => r'.key == r.key && (r'.status == .running || r'.status == .paused) &&
        (!r'.requeue || r'.requeuePriority.any (priority < ·)))
      fun r' => { r' with requeue := true, requeuePriority := some priority }
    have hrow : (if (r.key == r.key && (r.status == .running || r.status == .paused) &&
          (!r.requeue || r.requeuePriority.any (priority < ·))) = true then
        { r with requeue := true, requeuePriority := some priority } else r) =
        if (r.status = .running ∨ r.status = .paused) ∧
            (!r.requeue || r.requeuePriority.any (priority < ·)) = true then
          { r with requeue := true, requeuePriority := some priority } else r := by
      simp only [beq_self_eq_true, Bool.true_and, Bool.and_eq_true, Bool.or_eq_true, beq_iff_eq]
    rw [hrow] at hsecond
    refine Txn.bind_state (I := fun t : Store => _ ∈ t.tasks) (fun _ _ h => absurd h Txn.ok_ne_error)
      fun requeued s₂ h₂ => ?_
    obtain rfl := (Prod.mk.inj h₂).2
    cases requeued with
    | some id => exact hsecond
    | none => exact hsecond

/-- A submission with another key does not touch the row. -/
theorem submitOne_other (hs : s.Schema) (hr : r ∈ s.tasks) (hkey : sub.effectiveKey sha256 ≠ r.key)
    (skipRequeue : Bool) : r ∈ (submitOne sha256 sub skipRequeue now s).2.tasks := by
  have hspares : sub.Spares sha256 true r s := by
    intro _ r' hr' his hkey'
    obtain rfl := hs.eq_of_id hr' hr his.id
    exact absurd hkey'.symm hkey
  have hnew : r.inst < s.nextInst := hs.inst_lt r hr
  have hrows : s.Rows fun r' => r'.inst = r.inst → r' = r :=
    fun r' hr' hinst => List.inj_on_of_nodup_map hs.insts hr' hr hinst
  have hother (r' : TaskRow) (hr' : r' ∈ s.tasks) (hk : r'.key = sub.effectiveKey sha256) : r'.inst ≠ r.inst := by
    intro hinst
    rw [hrows r' hr' hinst] at hk
    exact hkey hk.symm
  have hkeeps : sub.KeepsRows sha256 (fun r' => r'.inst = r.inst → r' = r) now s :=
    { pending := fun _ _ hinst => absurd hinst (Nat.ne_of_gt hnew)
      paused := fun _ _ hinst => absurd hinst (Nat.ne_of_gt hnew)
      blocked := fun hinst => absurd hinst (Nat.ne_of_gt hnew)
      upgraded := fun r' hr' hk _ _ hinst => absurd hinst (hother r' hr' hk)
      requeued := fun r' hr' hk _ hinst => absurd hinst (hother r' hr' hk)
      superseded := fun _ _ _ _ _ hinst => absurd hinst (Nat.ne_of_gt hnew)
      replaced := fun _ _ _ _ _ hinst => absurd hinst (Nat.ne_of_gt hnew) }
  have hholds : (submitOne sha256 sub skipRequeue now s).2.Holds true r :=
    submitOne_holds hs ⟨r, hr, .refl true r⟩ hspares
  have hall : (submitOne sha256 sub skipRequeue now s).2.Rows fun r' => r'.inst = r.inst → r' = r :=
    submitOne_rows hrows hs hkeeps fun _ hinst => absurd hinst (Nat.ne_of_gt hnew)
  obtain ⟨r', hr', his⟩ := hholds
  rwa [hall r' hr' (his.inst rfl)] at hr'

theorem submitOne_row (hs : s.Schema) (hr : r ∈ s.tasks)
    (hskip : sub.effectiveKey sha256 = r.key → sub.onDuplicate = .skip) :
    r.submitted sha256 sub ∈ (submitOne sha256 sub false now s).2.tasks := by
  by_cases hkey : sub.effectiveKey sha256 = r.key
  · cases hv : sub.validate with
    | error e =>
      rw [submitOne_invalid hv, TaskRow.submitted, if_neg (by rw [hv]; exact fun h => nomatch h.1)]
      exact hr
    | ok u =>
      have hrow : s.taskByKey (sub.effectiveKey sha256) = some r := by
        rw [hkey]
        exact taskByKey_row hs hr
      rw [submitOne_duplicate hv hrow, hskip hkey, hkey, TaskRow.submitted, if_pos ⟨by rw [hv]; rfl, hkey⟩]
      exact skipExisting_row hs hr sub.priority
  · rw [TaskRow.submitted, if_neg fun h => hkey h.2]
    exact submitOne_other hs hr hkey false

end Submission

/-! ### Sequences of submissions -/

/-- The submissions that a step hands to `submit_one` and commits. -/
def Action.processed (sha256 : List UInt8 → String) (s : Store) : Action → List TaskSubmission
  | .submitDirect sub _ => [sub]
  | .processSubmitBatch _ batch => batch.map (·.1)
  | .submitChunk skipRequeue last now chunk =>
    if (Taskmill.submitChunk sha256 skipRequeue last now chunk s).1.toBool then
      (chunk.filter fun item => last item.1 (item.2.effectiveKey sha256)).map (·.2)
    else []
  | _ => []

/-- The step is a submission, and what it submits under the key is submitted with the `skip` strategy.  Coalesced
submissions and chunks read the flag `has_running` before they start. -/
def Action.Duplicates (sha256 : List UInt8 → String) (key : String) (s : Store) (a : Action) : Prop :=
  (match a with
    | .submitDirect _ _ => True
    | .processSubmitBatch skipRequeue _ | .submitChunk skipRequeue _ _ _ => skipRequeue = false
    | _ => False) ∧
  ∀ sub ∈ a.processed sha256 s, sub.effectiveKey sha256 = key → sub.onDuplicate = .skip

/-- The priorities that are asked for under the key in a run. -/
def priorities (sha256 : List UInt8 → String) (key : String) : Store → List Action → List Priority
  | _, [] => []
  | s, a :: actions =>
    ((a.processed sha256 s).filter fun sub => sub.validate.toBool && sub.effectiveKey sha256 == key).map
      (·.priority) ++ priorities sha256 key (a.exec sha256 s) actions

section Sequences

variable {sha256 : List UInt8 → String} {s : Store} {r : TaskRow}

private theorem skipped_key (priority : Priority) (r : TaskRow) : (r.skipped priority).key = r.key := by
  rw [TaskRow.skipped]
  split
  · rfl
  · split
    · rfl
    · rfl

private theorem foldl_skipped_key (ps : List Priority) (r : TaskRow) :
    (ps.foldl (fun r p => r.skipped p) r).key = r.key := by
  induction ps generalizing r with
  | nil => rfl
  | cons p ps ih => exact (ih _).trans (skipped_key p r)

private theorem submitted_key (sub : TaskSubmission) (r : TaskRow) : (r.submitted sha256 sub).key = r.key := by
  rw [TaskRow.submitted]
  split
  · exact skipped_key sub.priority r
  · rfl

/-- Only the priorities of the duplicates matter. -/
private theorem foldl_submitted (subs : List TaskSubmission) {r : TaskRow} {key : String} (hkey : r.key = key) :
    subs.foldl (fun r sub => r.submitted sha256 sub) r =
      ((subs.filter fun sub => sub.validate.toBool && sub.effectiveKey sha256 == key).map (·.priority)).foldl
        (fun r p => r.skipped p) r := by
  induction subs generalizing r with
  | nil => rfl
  | cons sub subs ih =>
    rw [List.foldl_cons, ih ((submitted_key sub r).trans hkey), TaskRow.submitted, hkey]
    by_cases hsel : sub.validate.toBool = true ∧ sub.effectiveKey sha256 = key
    · rw [if_pos hsel, List.filter_cons_of_pos (by simpa using hsel)]
      rfl
    · rw [if_neg hsel, List.filter_cons_of_neg (by simpa using hsel)]

/-- A submission that fails has not reached the row. -/
private theorem submitted_of_error {sub : TaskSubmission} {now : Int} {e : StoreError} {s' : Store} (hs : s.Schema)
    (hr : r ∈ s.tasks) (hskip : sub.effectiveKey sha256 = r.key → sub.onDuplicate = .skip)
    (h : submitOne sha256 sub false now s = (.error e, s')) : r.submitted sha256 sub = r := by
  refine if_neg fun hsub => ?_
  cases hv : sub.validate with
  | error e' =>
    rw [hv] at hsub
    cases hsub.1
  | ok u =>
    have hrow : s.taskByKey (sub.effectiveKey sha256) = some r := by
      rw [hsub.2]
      exact taskByKey_row hs hr
    rw [submitOne_duplicate hv hrow, hskip hsub.2] at h
    obtain ⟨upgraded, s₁, _, h⟩ := (Txn.bind_error h).resolve_left Txn.ok_ne_error
    cases upgraded with
    | some id => cases h
    | none =>
      obtain ⟨requeued, s₂, _, h⟩ := (Txn.bind_error h).resolve_left Txn.ok_ne_error
      cases requeued with
      | some id => cases h
      | none => cases h

private theorem submitEach_row (batch : List (TaskSubmission × Int)) {s : Store} (hs : s.Schema) {r : TaskRow}
    (hr : r ∈ s.tasks) (hskip : ∀ m ∈ batch, m.1.effectiveKey sha256 = r.key → m.1.onDuplicate = .skip) :
    (batch.map (·.1)).foldl (fun r sub => r.submitted sha256 sub) r ∈ (submitEach sha256 false batch s).2.tasks := by
  induction batch generalizing s r with
  | nil => exact hr
  | cons m batch ih =>
    have hone : r.submitted sha256 m.1 ∈ (submitOne sha256 m.1 false m.2 s).2.tasks :=
      submitOne_row hs hr (hskip m (List.mem_cons_self ..))
    refine ih (hs.steps (steps_submitOne s)) hone fun m' hm' => ?_
    rw [submitted_key]
    exact hskip m' (List.mem_cons_of_mem _ hm')

private theorem submitChunk_row {last : Nat → String → Bool} {now : Int}
    (chunk : List (Nat × TaskSubmission)) {s s' : Store} {results : List SubmitOutcome} (hs : s.Schema)
    {r : TaskRow} (hr : r ∈ s.tasks)
    (hskip : ∀ item ∈ chunk, last item.1 (item.2.effectiveKey sha256) = true → item.2.effectiveKey sha256 = r.key →
      item.2.onDuplicate = .skip)
    (h : Txn.mapList (submitItem sha256 false last now) chunk s = (.ok results, s')) :
    ((chunk.filter fun item => last item.1 (item.2.effectiveKey sha256)).map (·.2)).foldl
      (fun r sub => r.submitted sha256 sub) r ∈ s'.tasks := by
  induction chunk generalizing s r results with
  | nil =>
    cases h
    exact hr
  | cons item chunk ih =>
    obtain ⟨result, s₁, h₁, h⟩ := Txn.bind_ok h
    obtain ⟨rest, s₂, h₂, h⟩ := Txn.bind_ok h
    cases h
    have hsteps : Steps true s (submitItem sha256 false last now item s).2 := steps_submitItem item s
    rw [h₁] at hsteps
    rw [submitItem] at h₁
    by_cases hlast : last item.1 (item.2.effectiveKey sha256) = true
    · rw [if_pos hlast] at h₁
      have hone : r.submitted sha256 item.2 ∈ (submitOne sha256 item.2 false now s).2.tasks :=
        submitOne_row hs hr (hskip item (List.mem_cons_self ..) hlast)
      rw [h₁] at hone
      rw [List.filter_cons_of_pos (by simpa using hlast)]
      refine ih (hs.steps hsteps) hone (fun item' hitem' => ?_) h₂
      rw [submitted_key]
      exact hskip item' (List.mem_cons_of_mem _ hitem')
    · rw [if_neg hlast] at h₁
      cases h₁
      rw [List.filter_cons_of_neg (by simpa using hlast)]
      exact ih hs hr (fun item' hitem' => hskip item' (List.mem_cons_of_mem _ hitem')) h₂

/-- What a step that submits does to the row of a task. -/
private theorem exec_row (hs : s.Schema) (hflag : s.hasRunning = true) (hr : r ∈ s.tasks) {a : Action}
    (ha : a.Duplicates sha256 r.key s) :
    (a.processed sha256 s).foldl (fun r sub => r.submitted sha256 sub) r ∈ (a.exec sha256 s).tasks := by
  obtain ⟨hkind, hskip⟩ := ha
  cases a with
  | submitDirect sub now =>
    have hskip : sub.effectiveKey sha256 = r.key → sub.onDuplicate = .skip := hskip sub (List.mem_singleton_self _)
    have hone : r.submitted sha256 sub ∈ (submitOne sha256 sub false now s).2.tasks := submitOne_row hs hr hskip
    rcases h : Taskmill.submitDirect sha256 sub now s with ⟨e | outcome, s'⟩
    · obtain ⟨s₁, hfail, rfl⟩ := transaction_error h
      rw [hflag] at hfail
      rw [Action.exec, h, Action.processed, List.foldl_cons, List.foldl_nil, submitted_of_error hs hr hskip hfail]
      exact hr
    · have hok := transaction_ok h
      rw [hflag, Bool.not_true] at hok
      rw [hok] at hone
      rw [Action.exec, h]
      exact hone
  | processSubmitBatch skipRequeue batch =>
    obtain rfl : skipRequeue = false := hkind
    have hrow := submitEach_row batch hs hr fun m hm => hskip m.1 (List.mem_map_of_mem hm)
    rw [Action.exec, Taskmill.processSubmitBatch]
    exact hrow
  | submitChunk skipRequeue last now chunk =>
    obtain rfl : skipRequeue = false := hkind
    rcases h : Taskmill.submitChunk sha256 false last now chunk s with ⟨e | outcomes, s'⟩
    · obtain ⟨s₁, _, rfl⟩ := transaction_error h
      rw [Action.exec, h, Action.processed, h, if_neg (by rintro ⟨⟩)]
      exact hr
    · rw [Action.processed, h, if_pos (by rfl)] at hskip
      rw [Action.exec, h, Action.processed, h, if_pos (by rfl)]
      refine submitChunk_row chunk hs hr (fun item hitem hlast => ?_) (transaction_ok h)
      exact hskip item.2 (List.mem_map.2 ⟨item, List.mem_filter.2 ⟨hitem, hlast⟩, rfl⟩)
  | _ => exact hkind.elim

private theorem exec_flag {a : Action} {key : String} (ha : a.Duplicates sha256 key s) :
    (a.exec sha256 s).hasRunning = s.hasRunning := by
  cases a with
  | submitDirect sub now =>
    have hflags : Txn.Always Store.FlagsUp (transaction (submitOne sha256 sub (!s.hasRunning) now)) :=
      submitOne_flags.atomically fun _ _ => Store.FlagsUp.rollback
    exact (hflags s).running
  | processSubmitBatch skipRequeue batch =>
    have hall : ∀ (skipRequeue : Bool) (batch : List (TaskSubmission × Int)) (s : Store),
        (submitEach sha256 skipRequeue batch s).2.hasRunning = s.hasRunning := by
      intro skipRequeue batch
      induction batch with
      | nil => exact fun s => rfl
      | cons m batch ih => exact fun s => (ih _).trans (submitOne_flags s).running
    exact hall _ batch s
  | submitChunk skipRequeue last now chunk =>
    have hflags : Txn.Always Store.FlagsUp (submitChunk sha256 skipRequeue last now chunk) :=
      (Txn.Always.mapList .refl .trans (fun item => submitItem_flags) chunk).atomically fun _ _ =>
        Store.FlagsUp.rollback
    exact (hflags s).running
  | _ => exact ha.1.elim

/-- The row of a task after a sequence of submissions. -/
private theorem run_row (actions : List Action) {s : Store} (hs : s.Schema)
    (hflag : s.hasRunning = true) {r : TaskRow} {key : String} (hr : r ∈ s.tasks) (hkey : r.key = key)
    (hrun : Along (fun s a => a.exec sha256 s) (fun s a => a.Duplicates sha256 key s) s actions) :
    (priorities sha256 key s actions).foldl (fun r p => r.skipped p) r ∈ (execAll sha256 s actions).tasks := by
  induction actions generalizing s r with
  | nil => exact hr
  | cons a actions ih =>
    obtain ⟨ha, hrest⟩ := hrun
    have hrow := exec_row hs hflag hr (hkey ▸ ha)
    rw [foldl_submitted _ hkey] at hrow
    rw [priorities, List.foldl_append]
    refine ih (hs.steps (a.steps sha256 s)) ((exec_flag ha).trans hflag) hrow ?_ hrest
    rw [foldl_skipped_key]
    exact hkey

end Sequences

/-! ### The most urgent priority -/

section Minimum

variable {r : TaskRow}

private theorem min_eq (q p : Priority) : min q p = if p < q then p else q := by
  show (if q ≤ p then q else p) = _
  by_cases hlt : p < q
  · have hle : ¬ q ≤ p := by
      rw [UInt8.le_iff_toNat_le]
      rw [UInt8.lt_iff_toNat_lt] at hlt
      omega
    rw [if_neg hle, if_pos hlt]
  · have hle : q ≤ p := by
      rw [UInt8.lt_iff_toNat_lt] at hlt
      rw [UInt8.le_iff_toNat_le]
      omega
    rw [if_pos hle, if_neg hlt]

/-- A duplicate of a running row: the more urgent of the two priorities is kept. -/
private theorem skipped_marked {q : Priority} (p : Priority) (hst : r.status = .running) (hreq : r.requeue = true)
    (hq : r.requeuePriority = some q) :
    r.skipped p = { r with requeue := true, requeuePriority := some (min q p) } := by
  rw [TaskRow.skipped, if_neg (by rw [hst]; rintro ⟨h | h, _⟩ <;> cases h), min_eq]
  by_cases hlt : p < q
  · rw [if_pos hlt, if_pos ⟨.inl hst, by simp [hq, hlt]⟩]
  · rw [if_neg hlt, if_neg fun h => hlt (by simpa [hq, hreq] using h.2), ← hreq, ← hq]

private theorem skipped_unmarked (p : Priority) (hst : r.status = .running) (hreq : r.requeue = false) :
    r.skipped p = { r with requeue := true, requeuePriority := some p } := by
  rw [TaskRow.skipped, if_neg (by rw [hst]; rintro ⟨h | h, _⟩ <;> cases h), if_pos ⟨.inl hst, by simp [hreq]⟩]

/-- All the duplicates of a running row that is marked already. -/
private theorem foldl_skipped_marked (ps : List Priority) {q : Priority} (hst : r.status = .running)
    (hreq : r.requeue = true) (hq : r.requeuePriority = some q) :
    ps.foldl (fun r p => r.skipped p) r = { r with requeue := true, requeuePriority := some (ps.foldl min q) } := by
  induction ps generalizing r q with
  | nil =>
    rw [List.foldl_nil, List.foldl_nil, ← hreq, ← hq]
  | cons p ps ih =>
    rw [List.foldl_cons, List.foldl_cons, skipped_marked p hst hreq hq]
    exact ih hst rfl rfl

/-- All the duplicates of a running row, with the mark that it has. -/
theorem foldl_skipped_running {ps : List Priority} (hps : ps ≠ []) (hst : r.status = .running)
    (hmark : r.requeuePriority.isSome = true ↔ r.requeue = true) :
    ps.foldl (fun r p => r.skipped p) r =
      { r with requeue := true, requeuePriority := (r.requeuePriority.toList ++ ps).min? } := by
  cases hq : r.requeuePriority with
  | none =>
    have hreq : r.requeue = false := by
      rw [hq] at hmark
      simpa using hmark
    cases ps with
    | nil => exact absurd rfl hps
    | cons p ps =>
      rw [List.foldl_cons, skipped_unmarked p hst hreq]
      exact foldl_skipped_marked ps hst rfl rfl
  | some q =>
    have hreq : r.requeue = true := hmark.1 (by rw [hq]; rfl)
    exact foldl_skipped_marked ps hst hreq hq

/-- All the duplicates of a pending row. -/
theorem foldl_skipped_pending (ps : List Priority) (hst : r.status = .pending) :
    ps.foldl (fun r p => r.skipped p) r = { r with priority := ps.foldl min r.priority } := by
  induction ps generalizing r with
  | nil => rfl
  | cons p ps ih =>
    have hone : r.skipped p = { r with priority := min r.priority p } := by
      rw [TaskRow.skipped, min_eq]
      by_cases hlt : p < r.priority
      · rw [if_pos ⟨.inl hst, hlt⟩, if_pos hlt]
      · rw [if_neg fun h => hlt h.2, if_neg hlt, if_neg]
        rw [hst]
        rintro ⟨h | h, _⟩ <;> cases h
    rw [List.foldl_cons, List.foldl_cons, hone]
    exact ih hst

end Minimum

/-! ### The mark stays -/

/-- A row that is to run again with the priority `p`. -/
structure TaskRow.Marked (p : Priority) (r : TaskRow) : Prop where
  requeue : r.requeue = true
  priority : r.requeuePriority = some p
  status : r.status ≠ .blocked

/-- The submissions of a step. -/
def Action.submissions : Action → List TaskSubmission
  | .submitDirect sub _ => [sub]
  | .processSubmitBatch _ batch => batch.map (·.1)
  | .submitChunk _ _ _ chunk => chunk.map (·.2)
  | _ => []

/-- The step neither takes the task with this life out of the queue nor submits its key.  Pauses, preemptions and
resumes in all forms, retries, dispatches and the recovery after a crash are such steps, and so is what happens to
other tasks. -/
def Action.Interrupts (sha256 : List UInt8 → String) (life : Nat) (s : Store) (a : Action) : Prop :=
  ∀ c ∈ s.tasks, c.inst = life →
    a.Spares sha256 true c s ∧ ∀ sub ∈ a.submissions, sub.effectiveKey sha256 ≠ c.key

section Mark

variable {sha256 : List UInt8 → String} {s : Store} {r : TaskRow} {p : Priority}

/-- The property of all rows that says it of the row with this life. -/
private def MarkedLife (life : Nat) (key : String) (p : Priority) (r : TaskRow) : Prop :=
  r.inst = life → r.key = key ∧ r.Marked p

/-- The columns of the mark stay, and the row does not come to be blocked. -/
private theorem MarkedLife.change {life : Nat} {key : String} (h : MarkedLife life key p r) {r' : TaskRow}
    (hinst : r'.inst = r.inst) (hkey : r'.key = r.key) (hreq : r'.requeue = r.requeue)
    (hprio : r'.requeuePriority = r.requeuePriority) (hst : r'.status = r.status ∨ r'.status ≠ .blocked) :
    MarkedLife life key p r' := by
  intro hl
  obtain ⟨hk, hmark⟩ := h (hinst.symm.trans hl)
  refine ⟨hkey.trans hk, hreq.trans hmark.requeue, hprio.trans hmark.priority, ?_⟩
  rcases hst with hst | hst
  · rw [hst]
    exact hmark.status
  · exact hst

private theorem markedLife_update {life : Nat} {key : String} {u : RowUpdate} (h : MarkedLife life key p r) :
    MarkedLife life key p (u.change r) := by
  cases u with
  | setRunAfter id runAfter => exact h.change rfl rfl rfl rfl (.inl rfl)
  | incrementRetry id error => exact h.change rfl rfl rfl rfl (.inl rfl)
  | clearBit sel reason => exact h.change rfl rfl rfl rfl (.inl rfl)
  | addGroupBit group => exact h.change rfl rfl rfl rfl (.inl rfl)
  | setRecurringPaused id paused => exact h.change rfl rfl rfl rfl (.inl rfl)
  | _ => exact h.change rfl rfl rfl rfl (.inr nofun)

private theorem markedLife_submission {life : Nat} {key : String} {sub : TaskSubmission} {now : Int} {σ : Store}
    (hσ : σ.Rows (MarkedLife life key p)) (hlife : life < σ.nextInst) (hkey : sub.effectiveKey sha256 ≠ key) :
    sub.KeepsRows sha256 (MarkedLife life key p) now σ where
  pending _ _ hl := absurd hl (Nat.ne_of_gt hlife)
  paused _ _ hl := absurd hl (Nat.ne_of_gt hlife)
  blocked hl := absurd hl (Nat.ne_of_gt hlife)
  upgraded r hr hk _ _ hl := absurd (hk.symm.trans (hσ r hr hl).1) hkey
  requeued r hr hk _ hl := absurd (hk.symm.trans (hσ r hr hl).1) hkey
  superseded _ _ _ _ _ hl := absurd hl (Nat.ne_of_gt hlife)
  replaced _ _ _ _ _ hl := absurd hl (Nat.ne_of_gt hlife)

private theorem markedLife_completion {life : Nat} {key : String} {tasks : List TaskRecord} {now : Int}
    (hlife : life < s.nextInst) : CompletionKeepsRows (MarkedLife life key p) tasks now s where
  reset r _ _ _ inst hle hl := absurd hl (Nat.ne_of_gt (Nat.lt_of_lt_of_le hlife hle))
  next task _ interval _ id inst hle := by
    have hne : inst ≠ life := Nat.ne_of_gt (Nat.lt_of_lt_of_le hlife hle)
    split
    · exact fun hl => absurd hl hne
    · exact fun hl => absurd hl hne

private theorem markedLife_freeing {life : Nat} {key : String} (now : Int) :
    FreeingKeepsRows (MarkedLife life key p) now s := by
  intro r hr hst
  rw [Store.freeRow]
  split
  · exact fun hl => absurd hst (hr hl).2.status
  · exact fun hl => absurd hst (hr hl).2.status

/-- A step that interrupts the task keeps the mark. -/
private theorem markedLife_exec {life : Nat} {key : String} (hs : s.Schema) (hrows : s.Rows (MarkedLife life key p))
    (hlife : life < s.nextInst) {a : Action} (hkey : ∀ sub ∈ a.submissions, sub.effectiveKey sha256 ≠ key) :
    (a.exec sha256 s).Rows (MarkedLife life key p) := by
  refine a.rows_exec sha256 hs hrows ?_
  have hclaim : ∀ r ∈ s.tasks, ∀ now, MarkedLife life key p (r.claim now) :=
    fun r hr now => (hrows r hr).change rfl rfl rfl rfl (.inr nofun)
  have hretry : ∀ r ∈ s.tasks, ∀ error delay now, MarkedLife life key p (r.retry error delay now) :=
    fun r hr error delay now => (hrows r hr).change rfl rfl rfl rfl (.inr nofun)
  cases a with
  | update u => exact fun r hr _ => markedLife_update (hrows r hr)
  | submitDirect sub now => exact markedLife_submission hrows hlife (hkey sub (List.mem_singleton_self _))
  | processSubmitBatch skipRequeue batch =>
    refine Along.of_mem fun σ m hm hσ => ⟨markedLife_submission hσ.rows (Nat.lt_of_lt_of_le hlife hσ.next) ?_,
      fun _ hl => ?_⟩
    · exact hkey m.1 (List.mem_map_of_mem hm)
    · exact absurd hl (Nat.ne_of_gt (Nat.lt_of_lt_of_le hlife hσ.next))
  | submitChunk skipRequeue last now chunk =>
    refine Along.of_mem fun σ item hitem hσ _ => markedLife_submission hσ.rows (Nat.lt_of_lt_of_le hlife hσ.next) ?_
    exact hkey item.2 (List.mem_map_of_mem hitem)
  | claimTask id now => exact fun r hr _ _ => hclaim r hr now
  | popById id now => exact fun r hr _ _ => hclaim r hr now
  | popNextBatch limit aging now => exact fun r hr _ => hclaim r hr now
  | complete id metrics now => exact fun row _ => markedLife_completion hlife
  | completeWithRecord task metrics now => exact markedLife_completion hlife
  | completeBatch items now => exact ⟨markedLife_completion hlife, markedLife_freeing now⟩
  | resolveDependents id now => exact markedLife_freeing now
  | failDependents id now => exact markedLife_freeing now
  | fail id error retryable maxRetries metrics backoff now =>
    exact fun r hrow _ => hretry r (List.mem_of_find?_eq_some hrow) _ _ _
  | failWithRecord task error retryable maxRetries metrics backoff now => exact fun _ r hr _ => hretry r hr _ _ _
  | recoverRunning now =>
    refine ⟨fun r hr _ => ?_, fun r hr _ _ => ?_, fun r hr _ _ _ => ?_⟩
    · exact (hrows r hr).change rfl rfl rfl rfl (.inr nofun)
    · exact (hrows r hr).change rfl rfl rfl rfl (.inl rfl)
    · exact (hrows r hr).change rfl rfl rfl rfl (.inr nofun)
  | _ => trivial

/-- The mark stays along a run of interruptions. -/
private theorem marked_run (actions : List Action) {s : Store} (hs : s.Schema) {r : TaskRow} (hr : r ∈ s.tasks)
    (hmark : r.Marked p)
    (hrun : Along (fun s a => a.exec sha256 s) (fun s a => a.Interrupts sha256 r.inst s) s actions) :
    ∃ r' ∈ (execAll sha256 s actions).tasks, r'.Is true r ∧ r'.Marked p := by
  induction actions generalizing s r with
  | nil => exact ⟨r, hr, .refl true r, hmark⟩
  | cons a actions ih =>
    obtain ⟨hspares, hkey⟩ := hrun.1 r hr rfl
    have hrows : s.Rows (MarkedLife r.inst r.key p) := by
      intro r' hr' hl
      rw [List.inj_on_of_nodup_map hs.insts hr' hr hl]
      exact ⟨rfl, hmark⟩
    have hnext := markedLife_exec hs hrows (hs.inst_lt r hr) hkey
    obtain ⟨r₁, hr₁, his₁⟩ := a.holds_exec sha256 hs hr hspares
    have hinst : r₁.inst = r.inst := his₁.inst rfl
    have hrest := hrun.2
    rw [← hinst] at hrest
    obtain ⟨r₂, hr₂, his₂, hmark₂⟩ := ih (hs.steps (a.steps sha256 s)) hr₁ (hnext r₁ hr₁ hinst).2 hrest
    exact ⟨r₂, hr₂, ⟨his₂.id.trans his₁.id, his₂.parentId.trans his₁.parentId, fun _ =>
      (his₂.inst rfl).trans hinst⟩, hmark₂⟩

end Mark

/-! ### The completion -/

/-- A row that is about to run again with the priority `p`. -/
structure TaskRow.Requeued (p : Priority) (r : TaskRow) : Prop where
  status : r.status = .pending
  priority : r.priority = p
  requeue : r.requeue = false
  requeuePriority : r.requeuePriority = none
  retryCount : r.retryCount = 0

/-- The step completes the task `id`.  A batch that goes task by task names it once. -/
def Action.Completes (id : Int) : Action → Prop
  | .complete id' _ _ => id' = id
  | .completeWithRecord task _ _ => task.id = id
  | .completeBatch items _ =>
    id ∈ items.map (·.1.id) ∧
      ((items.map (·.1.id)).count id = 1 ∨ ∀ item ∈ items, item.1.recurringIntervalSecs = none)
  | _ => False

/-- The transaction of a completion is committed. -/
def Action.Commits (s : Store) : Action → Prop
  | .complete id metrics now => (completeTx id metrics now s).1.toBool = true
  | .completeWithRecord task metrics now => (completeWithRecordTx task metrics now s).1.toBool = true
  | .completeBatch items now => (completeBatchTx items now s).1.toBool = true
  | _ => False

section Completion

variable {s s' : Store} {r : TaskRow} {p : Priority} {now : Int} {skipTags : Bool}

theorem TaskRow.Marked.reset (h : r.Marked p) (inst : Nat) : (r.resetRequeued inst).Requeued p where
  status := rfl
  priority := by
    show r.requeuePriority.getD r.priority = p
    rw [h.priority]
    rfl
  requeue := rfl
  requeuePriority := rfl
  retryCount := rfl

theorem TaskRow.Requeued.reset (h : r.Requeued p) (inst : Nat) : (r.resetRequeued inst).Requeued p where
  status := rfl
  priority := by
    show r.requeuePriority.getD r.priority = p
    rw [h.requeuePriority]
    exact h.priority
  requeue := rfl
  requeuePriority := rfl
  retryCount := rfl

private theorem mem_resetRequeued_self (hr : r ∈ s.tasks) :
    r.resetRequeued s.nextInst ∈ (s.resetRequeued r.id).tasks :=
  List.mem_map.2 ⟨r, hr, if_pos (by simp)⟩

theorem mem_resetRequeued_of_ne {id : Int} (hr : r ∈ s.tasks) (hid : r.id ≠ id) : r ∈ (s.resetRequeued id).tasks :=
  List.mem_map.2 ⟨r, hr, if_neg (by simpa using hid)⟩

theorem not_deletable (hs : s.Schema) (hr : r ∈ s.tasks) (hreq : r.requeue = true) : s.deletable r.id = false := by
  rw [Store.deletable, List.any_eq_false]
  intro r' hr' hsel
  simp only [Bool.and_eq_true, beq_iff_eq, Bool.not_eq_true'] at hsel
  rw [hs.eq_of_id hr' hr hsel.1, hreq] at hsel
  cases hsel.2

/-- The completion of a row that is marked resets it. -/
private theorem completeInner_marked {task : TaskRecord} {metrics : IoBudget} {result : Option (Int × Int)}
    (hs : s.Schema) (hr : r ∈ s.tasks) (hreq : r.requeue = true) (hid : task.id = r.id)
    (h : completeInner task metrics skipTags now s = (.ok result, s')) : r.resetRequeued s.nextInst ∈ s'.tasks := by
  have hnot : s.deletable task.id = false := by
    rw [hid]
    exact not_deletable hs hr hreq
  have hrow : r.resetRequeued s.nextInst ∈ (s.completeRow skipTags now (task, metrics)).tasks := by
    have hdel : (s.logCompleted skipTags now (task, metrics)).deletable task.id = false := hnot
    have hmem : r ∈ (s.logCompleted skipTags now (task, metrics)).tasks := hr
    rw [Store.completeRow, Store.finishRow, if_neg (by rw [hdel]; rintro ⟨⟩), hid]
    exact mem_resetRequeued_self hmem
  have hlog : ¬ s.LogFails skipTags task.id := by
    intro hf
    obtain ⟨e, s₁, herr⟩ : ∃ e s₁, completeInner task metrics skipTags now s = (.error e, s₁) :=
      completeInner_log_fails hf
    rw [herr] at h
    cases h
  rw [completeInner_apply _ _ _ _ _ hlog] at h
  cases hrec : task.recurs with
  | none =>
    simp only [hrec] at h
    cases h
    exact hrow
  | some interval =>
    simp only [hrec, hnot, Bool.false_eq_true, if_false] at h
    cases h
    exact hrow

/-- The completion of another task leaves the row. -/
theorem completeInner_other {task : TaskRecord} {metrics : IoBudget} {result : Option (Int × Int)}
    (hr : r ∈ s.tasks) (hid : r.id ≠ task.id) (h : completeInner task metrics skipTags now s = (.ok result, s')) :
    r ∈ s'.tasks := by
  have hlog : r ∈ (s.logCompleted skipTags now (task, metrics)).tasks := hr
  have hrow : r ∈ (s.completeRow skipTags now (task, metrics)).tasks := by
    have hkept : r ∈ (s.logCompleted skipTags now (task, metrics)).tasks.filter
        fun r => !(r.id == task.id && !r.requeue) := List.mem_filter.2 ⟨hlog, by simp [hid]⟩
    rw [Store.completeRow, Store.finishRow]
    split
    · split
      · exact hkept
      · exact hkept
    · exact mem_resetRequeued_of_ne hlog hid
  rcases completeInner_cases h with rfl | ⟨interval, _, _, rfl⟩
  · exact hrow
  · have hadd : r ∈ ((s.completeRow skipTags now (task, metrics)).addInstance task (s.tagsOf task.id)
        interval now).tasks :=
      List.mem_append_left _ hrow
    rw [Store.pauseInstance]
    split
    · exact List.mem_map.2 ⟨r, hadd, if_neg (by simpa using Store.id_ne_nextTaskId hrow)⟩
    · exact hadd

/-- The release of dependents concerns blocked rows only. -/
private theorem mem_release_of_not_blocked {ids : List Int} (hr : r ∈ s.tasks) (hst : r.status ≠ .blocked) :
    r ∈ (s.release ids now).tasks :=
  List.mem_map.2 ⟨r, hr, if_neg fun hf => hst (Store.frees_iff.1 hf).1⟩

/-- What holds after `complete_inner` of a row that is not blocked holds after the resolution, too. -/
private theorem completeAndResolve_mem {item : TaskRecord × IoBudget} {result : Int × Option (Int × Int) × List Int}
    (hs : s.Schema) (h : completeAndResolve skipTags now item s = (.ok result, s')) :
    ∃ recurring s₁, completeInner item.1 item.2 skipTags now s = (.ok recurring, s₁) ∧
      ∀ r ∈ s₁.tasks, r.status ≠ .blocked → r ∈ s'.tasks := by
  obtain ⟨recurring, s₁, h₁, h⟩ := Txn.bind_ok h
  have hsteps : Steps false s (completeInner item.1 item.2 skipTags now s).2 := steps_completeInner s
  rw [h₁] at hsteps
  obtain ⟨unblocked, s₂, h₂, h⟩ := Txn.bind_ok h
  rw [resolveDependentsInner_apply (hs.steps hsteps).ids] at h₂
  cases h₂
  cases h
  exact ⟨recurring, s₁, h₁, fun r hr hst => mem_release_of_not_blocked hr hst⟩

/-- The items of other tasks leave the row. -/
private theorem mapList_other {items : List (TaskRecord × IoBudget)} (hid : ∀ item ∈ items, r.id ≠ item.1.id)
    (hst : r.status ≠ .blocked) : Txn.Ensures (fun s : Store => s.Schema ∧ r ∈ s.tasks)
      (Txn.mapList (completeAndResolve skipTags now) items) fun _ s => s.Schema ∧ r ∈ s.tasks := by
  refine Txn.Ensures.mapList fun item hitem => ?_
  intro s hs result s' h
  have hsteps : Steps false s (completeAndResolve skipTags now item s).2 := steps_completeAndResolve item s
  rw [h] at hsteps
  obtain ⟨recurring, s₁, h₁, hkeep⟩ := completeAndResolve_mem hs.1 h
  exact ⟨hs.1.steps hsteps, hkeep r (completeInner_other hs.2 (hid item hitem) h₁) hst⟩

/-- The task is requeued. -/
def Store.Requeues (id : Int) (p : Priority) (s : Store) : Prop := ∃ r ∈ s.tasks, r.id = id ∧ r.Requeued p

/-- One completion of the task, with the resolution of its dependents. -/
private theorem completeAndResolve_requeues {item : TaskRecord × IoBudget}
    {result : Int × Option (Int × Int) × List Int} (hs : s.Schema) (hr : r ∈ s.tasks) (hmark : r.Marked p)
    (hid : item.1.id = r.id) (h : completeAndResolve skipTags now item s = (.ok result, s')) :
    ∃ r' ∈ s'.tasks, r'.id = r.id ∧ r'.status ≠ .blocked ∧ r'.Requeued p := by
  obtain ⟨recurring, s₁, h₁, hkeep⟩ := completeAndResolve_mem hs h
  have hreset := completeInner_marked hs hr hmark.requeue hid h₁
  exact ⟨_, hkeep _ hreset nofun, rfl, nofun, hmark.reset _⟩

/-- A batch that goes task by task and names the task once. -/
private theorem mapList_requeues {items : List (TaskRecord × IoBudget)}
    {results : List (Int × Option (Int × Int) × List Int)} (hs : s.Schema) (hr : r ∈ s.tasks) (hmark : r.Marked p)
    (honce : (items.map (·.1.id)).count r.id = 1)
    (h : Txn.mapList (completeAndResolve skipTags now) items s = (.ok results, s')) : s'.Requeues r.id p := by
  have hmem : r.id ∈ items.map (·.1.id) := List.count_pos_iff.1 (by omega)
  obtain ⟨item, hitem, hid⟩ := List.mem_map.1 hmem
  obtain ⟨before, after, rfl⟩ := List.append_of_mem hitem
  -- the other items are those of other tasks
  have hcount : (before.map (·.1.id)).count r.id = 0 ∧ (after.map (·.1.id)).count r.id = 0 := by
    rw [List.map_append, List.map_cons, List.count_append, List.count_cons, hid] at honce
    simp only [beq_self_eq_true, if_true] at honce
    omega
  have hother {l : List (TaskRecord × IoBudget)} (hl : (l.map (·.1.id)).count r.id = 0) :
      ∀ item ∈ l, r.id ≠ item.1.id := by
    intro x hx heq
    exact List.count_eq_zero.1 hl (List.mem_map.2 ⟨x, hx, heq.symm⟩)
  obtain ⟨rs₁, s₁, rs₂, h₁, h₂, _⟩ := Txn.mapList_append_ok h
  have hs₁ := mapList_other (hother hcount.1) hmark.status s ⟨hs, hr⟩ _ _ h₁
  obtain ⟨result, s₂, hone, h₂⟩ := Txn.bind_ok h₂
  obtain ⟨rs₃, s₃, h₃, h₂⟩ := Txn.bind_ok h₂
  cases h₂
  have hsteps : Steps false s₁ (completeAndResolve skipTags now item s₁).2 := steps_completeAndResolve item s₁
  rw [hone] at hsteps
  obtain ⟨r₂, hr₂, hid₂, hst₂, hreq₂⟩ := completeAndResolve_requeues hs₁.1 hs₁.2 hmark hid hone
  have hafter : ∀ item ∈ after, r₂.id ≠ item.1.id := by
    rw [hid₂]
    exact hother hcount.2
  have hs₃ := mapList_other hafter hst₂ s₂ ⟨hs₁.1.steps hsteps, hr₂⟩ _ _ h₃
  exact ⟨r₂, hs₃.2, hid₂, hreq₂⟩

/-- The resets of the batched path. -/
private theorem foldl_resetRequeued_requeues {id : Int} (ids : List Int) {s : Store} {r : TaskRow} (hr : r ∈ s.tasks)
    (hid : r.id = id) (h : (id ∈ ids ∧ r.Marked p) ∨ r.Requeued p) :
    (ids.foldl Store.resetRequeued s).Requeues id p := by
  induction ids generalizing s r with
  | nil =>
    rcases h with ⟨hmem, _⟩ | h
    · cases hmem
    · exact ⟨r, hr, hid, h⟩
  | cons x ids ih =>
    rw [List.foldl_cons]
    by_cases hx : r.id = x
    · obtain rfl := hx
      refine ih (mem_resetRequeued_self hr) hid (.inr ?_)
      rcases h with ⟨_, h⟩ | h
      · exact h.reset _
      · exact h.reset _
    · refine ih (mem_resetRequeued_of_ne hr hx) hid ?_
      rcases h with ⟨hmem, h⟩ | h
      · refine .inl ⟨(List.mem_cons.1 hmem).resolve_left fun heq => hx (hid.trans heq), h⟩
      · exact .inr h

private theorem completeBatchFast_requeues {items : List (TaskRecord × IoBudget)} {unblocked : List Int}
    (hs : s.Schema) (hr : r ∈ s.tasks) (hmark : r.Marked p) (hmem : r.id ∈ items.map (·.1.id))
    (h : completeBatchFast skipTags now items s = (.ok unblocked, s')) : s'.Requeues r.id p := by
  obtain ⟨_, s₁, h₁, h⟩ := Txn.bind_ok h
  obtain ⟨rows, htags, rfl⟩ := mapList_history (fun _ _ _ _ => insertHistory_leaves) h₁
  have hs₁ : (s.logAll rows htags).Schema := hs.stmt (b := false) (.history s _ _)
  have hr₁ : r ∈ (s.logAll rows htags).tasks := hr
  generalize s.logAll rows htags = s₁ at hs₁ hr₁ h
  obtain ⟨deleted, s₂, h₂, h⟩ := Txn.bind_ok h
  obtain ⟨hdeleted, rfl⟩ := Prod.mk.inj h₂
  have hr₂ : r ∈ (s₁.deleteTasks fun r => (items.map (·.1.id)).contains r.id && !r.requeue).tasks :=
    List.mem_filter.2 ⟨hr₁, by simp [hmark.requeue]⟩
  have hs₂ := hs₁.stmt (b := false) (.delete s₁ fun r => (items.map (·.1.id)).contains r.id && !r.requeue)
  -- the row is not among the deleted ones, so that its id is reset
  have hreset : r.id ∈ (items.map (·.1.id)).filter fun id => !deleted.contains id := by
    refine List.mem_filter.2 ⟨hmem, ?_⟩
    rw [Bool.not_eq_true', ← Bool.not_eq_true, List.contains_iff_mem, ← Except.ok.inj hdeleted]
    intro hdel
    obtain ⟨r', hr', hid⟩ := List.mem_map.1 hdel
    obtain ⟨hr', hsel⟩ := List.mem_filter.1 hr'
    rw [hs₁.eq_of_id hr' hr₁ hid, hmark.requeue] at hsel
    simp at hsel
  obtain ⟨_, s₃, h₃, h⟩ := Txn.bind_ok h
  obtain rfl := (Prod.mk.inj h₃).2
  have hreq₃ := foldl_resetRequeued_requeues _ hr₂ rfl (.inl ⟨hreset, hmark⟩)
  have hs₃ := hs₂.steps (steps_foldl_resetRequeued (b := false)
    ((items.map (·.1.id)).filter fun id => !deleted.contains id) _)
  obtain ⟨_, s₄, h₄, h⟩ := Txn.bind_ok h
  have hs₄ : s₄.Schema ∧ s₄.Requeues r.id p := by
    obtain rfl := (Prod.mk.inj h₄).2
    split
    · exact ⟨hs₃, hreq₃⟩
    · exact ⟨hs₃.stmt (b := false) (.tags _ _), hreq₃⟩
  obtain ⟨dependents, s₅, h₅, h⟩ := Txn.bind_ok h
  obtain ⟨hd, rfl⟩ := Prod.mk.inj h₅
  obtain rfl := Except.ok.inj hd
  have htail := (releaseTail_apply hs₄.1.ids (items.map (·.1.id)) now).symm.trans h
  cases htail
  obtain ⟨r₄, hr₄, hid₄, hreq₄⟩ := hs₄.2
  exact ⟨r₄, mem_release_of_not_blocked hr₄ (by rw [hreq₄.status]; nofun), hid₄, hreq₄⟩

private theorem ok_of_toBool {α : Type} {x : Sql α} (h : (x s).1.toBool = true) : ∃ a s', x s = (.ok a, s') := by
  rcases hx : x s with ⟨e | a, s₁⟩
  · rw [hx] at h
    cases h
  · exact ⟨a, s₁, rfl⟩

/-- A batch takes the path of single tasks or the batched one. -/
private theorem completeBatchTx_requeues {items : List (TaskRecord × IoBudget)}
    {results : List (Int × Option (Int × Int) × List Int)} (hs : s.Schema) (hr : r ∈ s.tasks) (hmark : r.Marked p)
    (hmem : r.id ∈ items.map (·.1.id))
    (hpath : (items.map (·.1.id)).count r.id = 1 ∨ ∀ item ∈ items, item.1.recurringIntervalSecs = none)
    (h : completeBatchTx items now s = (.ok results, s')) : s'.Requeues r.id p := by
  rw [completeBatchTx.eq_def] at h
  split at h
  · cases hmem
  · obtain ⟨result, s₁, h₁, h⟩ := Txn.bind_ok h
    cases h
    obtain ⟨r', hr', hid', _, hreq'⟩ :=
      completeAndResolve_requeues hs hr hmark (List.mem_singleton.1 hmem).symm (transaction_ok h₁)
    exact ⟨r', hr', hid', hreq'⟩
  · split at h
    · rename_i hrec
      refine mapList_requeues hs hr hmark (hpath.resolve_right fun hnone => ?_) (transaction_ok h)
      obtain ⟨item, hitem, hsome⟩ := List.any_eq_true.1 hrec
      rw [hnone item hitem] at hsome
      cases hsome
    · obtain ⟨unblocked, s₁, h₁, h⟩ := Txn.bind_ok h
      cases h
      exact completeBatchFast_requeues hs hr hmark hmem (transaction_ok h₁)

/-- Every completion of the task that commits requeues it. -/
theorem Action.requeues_exec (sha256 : List UInt8 → String) (hs : s.Schema) (hr : r ∈ s.tasks) (hmark : r.Marked p)
    {a : Action} (hc : a.Completes r.id) (hcommit : a.Commits s) : (a.exec sha256 s).Requeues r.id p := by
  cases a with
  | complete id metrics now =>
    obtain rfl : id = r.id := hc
    obtain ⟨u, s', hok⟩ := ok_of_toBool (x := completeTx r.id metrics now) hcommit
    have hbody := transaction_ok hok
    simp only [hs.taskById_eq hr] at hbody
    obtain ⟨result, s₁, h₁, h⟩ := Txn.bind_ok hbody
    cases h
    rw [Action.exec, hok]
    exact ⟨_, completeInner_marked hs hr hmark.requeue rfl h₁, rfl, hmark.reset _⟩
  | completeWithRecord task metrics now =>
    obtain ⟨result, s', hok⟩ := ok_of_toBool (x := completeWithRecordTx task metrics now) hcommit
    rw [Action.exec, hok]
    exact ⟨_, completeInner_marked hs hr hmark.requeue hc (transaction_ok hok), rfl, hmark.reset _⟩
  | completeBatch items now =>
    obtain ⟨results, s', hok⟩ := ok_of_toBool (x := completeBatchTx items now) hcommit
    rw [Action.exec, hok]
    exact completeBatchTx_requeues hs hr hmark hc.1 hc.2 hok
  | _ => exact hc.elim

end Completion

/-- A submission of type `a` with a priority. -/
private def urgent (priority : Priority) : TaskSubmission := { TaskSubmission.new "a" with priority := priority }

/-- A task of type `a` runs. -/
private def runningA : Store := execAll sampleSha256 openMemory [.submitDirect (.new "a") 0, .claimTask 1 0]

private theorem runningA_schema : runningA.Schema := schema_execAll sampleSha256 _ openMemory_fresh.schema

/-- The row of `dispatchedA`. -/
private def runningRow : TaskRow := dispatchedA.toTaskRow

/-- Two duplicates, the second one together with a submission of another type. -/
private def twoDuplicates : List Action :=
  [.submitDirect (urgent 10) 1, .processSubmitBatch false [(.new "b", 2), (urgent 200, 2)]]

/-- A task of type `b` that recurs every minute. -/
private def recurringB : TaskSubmission :=
  { TaskSubmission.new "b" with
    recurring := some { interval := ⟨60000000000⟩, initialDelay := none, maxExecutions := none } }

private def recurringBRecord : TaskRecord :=
  rowToTaskRecord
    { recurringB.newRow (sampleSha256 [98, 58]) 0 with id := 2, status := .running, startedAt := some 0 }

/-- The task of type `a` runs and is marked, and one that recurs runs beside it. -/
private def markedBesideRecurring : Store :=
  execAll sampleSha256 openMemory [.submitDirect (.new "a") 0, .submitDirect recurringB 0, .claimTask 1 0,
    .claimTask 2 0, .submitDirect (urgent 10) 1]

end Taskmill
