import Taskmill.DispatchQueries

/-!
# Aging prevents starvation

`src/docs/priorities-and-preemption.md`: without aging a stream of urgent tasks can keep a task of low priority
waiting.

With aging a task that has waited for the grace period and for one interval per level reaches the ceiling
(`rank_of_aged`), and nothing has a rank below the ceiling.  From then on a batch that leaves the task waiting is
full, and all it takes are tasks with smaller ids (`pops_older`).  No task gets a smaller id while the row is there
(`older_exec`), so that the tasks which can still overtake it are those that were there at the beginning.
-/

namespace Taskmill

open Transact

/-- The grace period, and an interval for each level from the priority to the ceiling. -/
def AgingParams.timeToCeiling (ap : AgingParams) (r : TaskRow) : Int :=
  ap.gracePeriodMs + (r.priority.toNat - ap.maxEffectivePriority) * ap.agingIntervalMs

/-- The task has waited long enough to be promoted to the ceiling. -/
def TaskRow.Aged (r : TaskRow) (ap : AgingParams) : Prop :=
  ap.timeToCeiling r ≤ ap.nowMs - r.createdAt - r.pauseDurationMs

/-- The ids of the tasks that the step claims, if it is a batch. -/
def Action.pops (s : Store) : Action → List Int
  | .popNextBatch limit aging now =>
    match (Taskmill.popNextBatch limit aging now s).1 with
    | .ok records => records.map (·.id)
    | .error _ => []
  | _ => []

/-- How many tasks the step asks for. -/
def Action.asks : Action → Nat
  | .popNextBatch limit _ _ => limit
  | _ => 0

/-- The step is a batch that could take the task, popped with this configuration and not before `ap.nowMs`. -/
def Action.offers (ap : AgingParams) (r : TaskRow) : Action → Bool
  | .popNextBatch _ (some aging) now =>
    ap.nowMs ≤ aging.nowMs && aging == { ap with nowMs := aging.nowMs } && r.eligible now
  | _ => false

/-- All that the batches of a run claim that could take the task. -/
def offeredPops (sha256 : List UInt8 → String) (ap : AgingParams) (r : TaskRow) : Store → List Action → List Int
  | _, [] => []
  | s, a :: actions => (if a.offers ap r then a.pops s else []) ++ offeredPops sha256 ap r (a.exec sha256 s) actions

/-- All that they ask for. -/
def offeredAsks (ap : AgingParams) (r : TaskRow) (actions : List Action) : Nat :=
  ((actions.filter (·.offers ap r)).map Action.asks).sum

/-- The task is left as it is by all steps. -/
def Waits (sha256 : List UInt8 → String) (r : TaskRow) (s : Store) (actions : List Action) : Prop :=
  Along (fun s (a : Action) => a.exec sha256 s) (fun s _ => r ∈ s.tasks) s actions ∧
    r ∈ (execAll sha256 s actions).tasks

/-- The tasks with smaller ids. -/
def Store.older (s : Store) (r : TaskRow) : List Int := s.ids.filter (· < r.id)

theorem Store.mem_older {s : Store} {r : TaskRow} {id : Int} : id ∈ s.older r ↔ id ∈ s.ids ∧ id < r.id := by
  rw [Store.older, List.mem_filter, decide_eq_true_iff]

/-! ### The ceiling -/

section Ceiling

variable {ap : AgingParams} {r x : TaskRow} {clock : Int}

/-- An aged task is at the ceiling, and stays there. -/
theorem rank_of_aged (hinterval : 0 < ap.agingIntervalMs) (haged : r.Aged ap) (hclock : ap.nowMs ≤ clock) :
    r.rank (some { ap with nowMs := clock }) = ap.maxEffectivePriority := by
  unfold TaskRow.rank
  dsimp only
  refine max_eq_right ?_
  rw [max_tdiv hinterval]
  unfold TaskRow.Aged AgingParams.timeToCeiling at haged
  by_cases hlevels : (r.priority.toNat : Int) ≤ ap.maxEffectivePriority
  · have hnonneg : 0 ≤ max (clock - r.createdAt - r.pauseDurationMs - ap.gracePeriodMs) 0 / ap.agingIntervalMs :=
      Int.ediv_nonneg (le_max_right _ _) (le_of_lt hinterval)
    omega
  · have hlong : (r.priority.toNat - ap.maxEffectivePriority) * ap.agingIntervalMs ≤
        max (clock - r.createdAt - r.pauseDurationMs - ap.gracePeriodMs) 0 := by
      refine le_trans ?_ (le_max_left _ _)
      omega
    have hpromotions := (Int.le_ediv_iff_mul_le hinterval).2 hlong
    omega

theorem ceiling_le_rank : ap.maxEffectivePriority ≤ x.rank (some ap) := le_max_right _ _

/-- Only tasks with smaller ids come before an aged one. -/
theorem id_le_of_before (hinterval : 0 < ap.agingIntervalMs) (haged : r.Aged ap) (hclock : ap.nowMs ≤ clock)
    (h : x.before (some { ap with nowMs := clock }) r) : x.id ≤ r.id := by
  have hr := rank_of_aged hinterval haged hclock
  have hx : ap.maxEffectivePriority ≤ x.rank (some { ap with nowMs := clock }) :=
    @ceiling_le_rank { ap with nowMs := clock } x
  unfold TaskRow.before at h
  omega

end Ceiling

/-! ### One batch -/

section Batch

variable {ap : AgingParams} {aging : Option AgingParams} {r : TaskRow} {s : Store} {limit : Nat} {now : Int}

/-- What a batch claims. -/
theorem pops_perm (hs : s.Schema) (limit : Nat) (aging : Option AgingParams) (now : Int) :
    ((Action.popNextBatch limit aging now).pops s).Perm (s.nextIds limit aging now) ∧
      ((Action.popNextBatch limit aging now).exec (fun _ => "") s).tasks =
        (s.claimIds (s.nextIds limit aging now) now).tasks := by
  obtain ⟨batch, single, s', hbatch, hsingle, hperm⟩ := popNextBatch_eq_popNextTimes hs limit aging now
  have htimes := popNextTimes_eq hs limit aging now
  rw [htimes] at hsingle
  cases hsingle
  constructor
  · have hids := hperm.map (·.id)
    rw [List.map_map] at hids
    rw [Action.pops, hbatch]
    exact hids
  · rw [Action.exec, hbatch]

/-- A row that a claim leaves pending is not among the claimed ones. -/
private theorem not_mem_of_pending {ids : List Int} (hpending : r.status = .pending)
    (h : r ∈ (s.claimIds ids now).tasks) :
    r.id ∉ ids := by
  rw [Store.claimIds, Store.noteRunning] at h
  obtain ⟨x, hx, he⟩ := List.mem_map.1 h
  split at he
  · subst he
    cases hpending
  · rename_i hnot
    subst he
    rwa [List.contains_iff_mem] at hnot

/-- A batch that could take the task has the configuration, at some time. -/
private theorem exists_clock (h : (Action.popNextBatch limit aging now).offers ap r = true) :
    ∃ clock, ap.nowMs ≤ clock ∧ aging = some { ap with nowMs := clock } ∧ r.eligible now = true := by
  cases aging with
  | none => cases h
  | some aging =>
    simp only [Action.offers, Bool.and_eq_true, decide_eq_true_eq, beq_iff_eq] at h
    exact ⟨aging.nowMs, h.1.1, congrArg some h.1.2, h.2⟩

/-- A batch that leaves an aged task waiting is full, and takes tasks with smaller ids. -/
theorem pops_older (hinterval : 0 < ap.agingIntervalMs) (haged : r.Aged ap) (hs : s.Schema) (hr : r ∈ s.tasks)
    (hoffers : (Action.popNextBatch limit aging now).offers ap r = true)
    (hleft : r ∈ ((Action.popNextBatch limit aging now).exec (fun _ => "") s).tasks) :
    (∀ id ∈ (Action.popNextBatch limit aging now).pops s, id ∈ s.older r) ∧
      ((Action.popNextBatch limit aging now).pops s).length = limit := by
  obtain ⟨clock, hclock, rfl, heligible⟩ := exists_clock hoffers
  obtain ⟨hperm, htasks⟩ := pops_perm hs limit (some { ap with nowMs := clock }) now
  rw [htasks] at hleft
  have hnot := not_mem_of_pending (TaskRow.pending_of_due (Bool.and_eq_true_iff.1 heligible).1) hleft
  obtain ⟨hbefore, hlong⟩ := Store.before_of_not_taken (Store.mem_ordered.2 ⟨hr, heligible⟩)
    fun htaken => hnot (List.mem_map_of_mem htaken)
  constructor
  · intro id hid
    obtain ⟨x, hx, rfl⟩ := List.mem_map.1 (hperm.subset hid)
    have hle := id_le_of_before hinterval haged hclock (hbefore x hx)
    have hne : x.id ≠ r.id := fun he => hnot (he ▸ List.mem_map_of_mem hx)
    have hmem := (Store.mem_ordered.1 (List.mem_of_mem_take hx)).1
    exact Store.mem_older.2 ⟨List.mem_map_of_mem hmem, by omega⟩
  · rw [hperm.length_eq, Store.nextIds, List.length_map, List.length_take]
    exact min_eq_left (le_of_lt hlong)

end Batch

/-! ### The ids -/

/-- While the life `inst` of the row `i` lasts, the smaller ids are among `ids`. -/
private structure Store.Bounds (i : Int) (inst : Nat) (ids : List Int) (s : Store) : Prop where
  given : inst < s.nextInst
  older : ∀ r ∈ s.tasks, r.inst = inst → r.id = i ∧ ∀ id ∈ s.ids, id < i → id ∈ ids

section Ids

variable {i : Int} {inst : Nat} {ids : List Int} {s s' : Store}

private theorem bounds_stmt {b : Bool} (hst : Stmt b s s') (h : s.Bounds i inst ids) : s'.Bounds i inst ids := by
  cases hst with
  | update p f hf hb =>
    refine ⟨h.given, fun r' hr' hinst => ?_⟩
    rw [s.ids_updateTasks p fun r => (hf r).1]
    obtain ⟨r, hr, rfl⟩ := List.mem_map.1 hr'
    split at hinst
    · rw [if_pos ‹_›, (hf r).1]
      exact h.older r hr ((hf r).2.1.symm.trans hinst)
    · rw [if_neg ‹_›]
      exact h.older r hr hinst
  | renew id f hf hb =>
    refine ⟨Nat.lt_succ_of_lt h.given, fun r' hr' hinst => ?_⟩
    have hids : (s.updateTasks (·.id == id) f).ids = s.ids := s.ids_updateTasks _ fun r => (hf r).1
    obtain ⟨r, hr, rfl⟩ := List.mem_map.1 hr'
    split at hinst
    · -- the row has a new life
      have hgiven := h.given
      rw [(hf r).2.1] at hinst
      omega
    · rw [if_neg ‹_›]
      exact ⟨(h.older r hr hinst).1, hids ▸ (h.older r hr hinst).2⟩
  | delete p =>
    refine ⟨h.given, fun r hr hinst => ?_⟩
    obtain ⟨hid, hids⟩ := h.older r (List.mem_of_mem_filter hr) hinst
    exact ⟨hid, fun id hmem => hids id ((List.filter_sublist.map _).subset hmem)⟩
  | add row hk hb =>
    refine ⟨Nat.lt_succ_of_lt h.given, fun r hr hinst => ?_⟩
    rcases List.mem_append.1 hr with hr | hr
    · obtain ⟨hid, hids⟩ := h.older r hr hinst
      refine ⟨hid, fun id hmem hlt => ?_⟩
      rw [Store.ids, Store.addTask_tasks, List.map_append, List.mem_append] at hmem
      rcases hmem with hmem | hmem
      · exact hids id hmem hlt
      · have hnew : id = s.nextTaskId := by simpa using hmem
        have hold : i < s.nextTaskId := lt_nextRowid (hid ▸ List.mem_map_of_mem hr)
        omega
    · rw [List.mem_singleton] at hr
      subst hr
      have hgiven := h.given
      dsimp only at hinst
      omega
  | _ => exact ⟨h.given, h.older⟩

/-- No task gets a smaller id while the life of the row lasts. -/
theorem older_exec {sha256 : List UInt8 → String} {a : Action} {r : TaskRow} (hs : s.Schema) (hr : r ∈ s.tasks)
    (hleft : r ∈ (a.exec sha256 s).tasks) : ∀ id ∈ (a.exec sha256 s).older r, id ∈ s.older r := by
  have hbounds : s.Bounds r.id r.inst s.ids := by
    refine ⟨hs.inst_lt r hr, fun x hx hinst => ⟨?_, fun id hid _ => hid⟩⟩
    rw [List.inj_on_of_nodup_map hs.insts hx hr hinst]
  have hafter := (a.steps sha256 s).invariant (fun _ _ hst h => bounds_stmt hst h) hbounds
  intro id hid
  obtain ⟨hmem, hlt⟩ := Store.mem_older.1 hid
  exact Store.mem_older.2 ⟨(hafter.older r hleft rfl).2 id hmem hlt, hlt⟩

end Ids

/-! ### Runs -/

section Runs

variable {ap : AgingParams} {r : TaskRow} {s : Store}

private theorem pops_step (sha256 : List UInt8 → String) {a : Action} (hinterval : 0 < ap.agingIntervalMs)
    (haged : r.Aged ap) (hs : s.Schema) (hr : r ∈ s.tasks) (hoffers : a.offers ap r = true)
    (hleft : r ∈ (a.exec sha256 s).tasks) :
    (∀ id ∈ a.pops s, id ∈ s.older r) ∧ (a.pops s).length = a.asks := by
  cases a with
  | popNextBatch limit aging now => exact pops_older hinterval haged hs hr hoffers hleft
  | _ => cases hoffers

end Runs

/-- Aging prevents starvation: as long as an aged task is left waiting, every batch that could take it is full and
takes older tasks, of those that were there at the beginning.  Without retries these batches cannot ask for more
tasks than those. -/
theorem aging_prevents_starvation (sha256 : List UInt8 → String) (ap : AgingParams)
    (hinterval : 0 < ap.agingIntervalMs) (s : Store) (hs : s.Schema) (r : TaskRow) (haged : r.Aged ap)
    (actions : List Action) (hwaits : Waits sha256 r s actions) :
    (∀ id ∈ offeredPops sha256 ap r s actions, id ∈ s.older r) ∧
      (offeredPops sha256 ap r s actions).length = offeredAsks ap r actions ∧
      ((offeredPops sha256 ap r s actions).Nodup → offeredAsks ap r actions ≤ (s.older r).length) := by
  have hall : (∀ id ∈ offeredPops sha256 ap r s actions, id ∈ s.older r) ∧
      (offeredPops sha256 ap r s actions).length = offeredAsks ap r actions := by
    obtain ⟨hsteps, hlast⟩ := hwaits
    induction actions generalizing s with
    | nil => exact ⟨fun _ hid => absurd hid List.not_mem_nil, rfl⟩
    | cons a actions ih =>
      obtain ⟨hr, hrest⟩ := hsteps
      have hs' : (a.exec sha256 s).Schema := hs.steps (a.steps sha256 s)
      have hleft : r ∈ (a.exec sha256 s).tasks := by
        cases actions with
        | nil => exact hlast
        | cons b actions => exact hrest.1
      obtain ⟨holder, hlengths⟩ := ih _ hs' hrest hlast
      have hbefore : ∀ id ∈ offeredPops sha256 ap r (a.exec sha256 s) actions, id ∈ s.older r :=
        fun id hid => older_exec hs hr hleft id (holder id hid)
      rw [offeredPops, offeredAsks]
      cases hoffers : a.offers ap r with
      | true =>
        obtain ⟨hfirst, hlength⟩ := pops_step sha256 hinterval haged hs hr hoffers hleft
        rw [if_pos rfl, List.filter_cons_of_pos hoffers, List.map_cons, List.sum_cons, List.length_append,
          hlength, hlengths]
        refine ⟨fun id hid => ?_, rfl⟩
        exact (List.mem_append.1 hid).elim (hfirst id) (hbefore id)
      | false =>
        rw [if_neg Bool.false_ne_true, List.nil_append, List.filter_cons_of_neg (by simp [hoffers])]
        exact ⟨hbefore, hlengths⟩
  refine ⟨hall.1, hall.2, fun hnodup => ?_⟩
  rw [← hall.2]
  exact (hnodup.subperm hall.1).length_le

/-- The default configuration, when the tasks have waited for eighty-four minutes. -/
private def agedParams : AgingParams := .fromConfig .default 5040000

private def twoTasks : List Action := [.submitDirect (.new "a") 0, .submitDirect (.new "b") 0]

private def agedPair : Store := execAll sampleSha256 openMemory twoTasks

private def pendingB : TaskRow :=
  { (TaskSubmission.new "b").newRow (sampleSha256 [98, 58]) 0 with id := 2, inst := 1 }

/-- An urgent task comes, and a slot is free, after a batch without aging. -/
private def urgentArrives : List Action :=
  [.popNextBatch 0 none 5040000, .submitDirect { TaskSubmission.new "c" with priority := 0 } 5040000,
    .popNextBatch 1 (some agedParams) 5040000]

private theorem pendingB_waits : Waits sampleSha256 pendingB agedPair urgentArrives := by
  have hfirst : pendingB ∈ agedPair.tasks := by decide +kernel
  have hsecond : pendingB ∈ (execAll sampleSha256 agedPair (urgentArrives.take 1)).tasks := by decide +kernel
  have hthird : pendingB ∈ (execAll sampleSha256 agedPair (urgentArrives.take 2)).tasks := by decide +kernel
  have hlast : pendingB ∈ (execAll sampleSha256 agedPair urgentArrives).tasks := by decide +kernel
  exact ⟨⟨hfirst, hsecond, hthird, trivial⟩, hlast⟩

/-- The slot goes to `a`, and not to the urgent task. -/
theorem aged_b_overtaken_once :
    offeredPops sampleSha256 agedParams pendingB agedPair urgentArrives = [1] ∧
      (offeredPops sampleSha256 agedParams pendingB agedPair urgentArrives).length = 1 := by
  have hschema := schema_execAll sampleSha256 twoTasks openMemory_fresh.schema
  have haged : pendingB.Aged agedParams := by
    unfold TaskRow.Aged
    decide +kernel
  exact ⟨by decide +kernel,
    (aging_prevents_starvation sampleSha256 agedParams (by decide +kernel) agedPair hschema pendingB
      haged urgentArrives pendingB_waits).2.1⟩

end Taskmill
