import Taskmill.Scheduler.RunLoop

/-!
# Concurrency limits

The active map, the running rows of a group and the counter of a module stay within `max_concurrency`, the limit of
the group and the cap of the module.  What carries it through a dispatch are reservations: between the moment when a
counter is read and the moment when it goes up, the tasks that the loop is about to start are counted as well
(`RunLoop.Reserved`).  The other parties only ever free slots (`Futures.Shrinks`).

Nothing is reserved for a finalizer, the minimums of fair dispatch are not bounded by the limit of the group, and a
row may change its group after the gate has looked at it; `LoopStep.HasRoom` excludes these.
-/

namespace Taskmill

open Transact

/-! ### Running rows of a group -/

section Rows

variable {sha256 : List UInt8 → String} {s : Store}

/-- A row that runs has run before in the same group. -/
private def GroupRan (s : Store) (r : TaskRow) : Prop :=
  r.status = .running → ∃ r₀ ∈ s.tasks, r₀.id = r.id ∧ r₀.status = .running ∧ r₀.groupKey = r.groupKey

private theorem groupRan_of {r : TaskRow} (h : r.status ≠ .running) : GroupRan s r := fun hrun => absurd hrun h

private theorem groupRan_submission {sub : TaskSubmission} {now : Int} {σ : Store} (hσ : σ.Rows (GroupRan s)) :
    sub.KeepsRows sha256 (GroupRan s) now σ where
  pending _ _ := groupRan_of nofun
  paused _ _ := groupRan_of nofun
  blocked := groupRan_of nofun
  upgraded r hr _ _ _ := hσ r hr
  requeued r hr _ _ := hσ r hr
  superseded _ _ _ _ _ := groupRan_of nofun
  replaced _ _ _ _ _ := groupRan_of nofun

private theorem groupRan_completion (tasks : List TaskRecord) (now : Int) (σ : Store) :
    CompletionKeepsRows (GroupRan s) tasks now σ where
  reset r _ _ _ inst _ := groupRan_of nofun
  next task _ interval _ id inst _ := by
    split
    · exact groupRan_of nofun
    · exact groupRan_of nofun

private theorem groupRan_freeing (now : Int) (σ : Store) : FreeingKeepsRows (GroupRan s) now σ := by
  intro r _ _
  rw [Store.freeRow]
  split
  · exact groupRan_of (by rintro ⟨⟩)
  · exact groupRan_of (by rintro ⟨⟩)

private theorem groupRan_update {u : RowUpdate} (hu : (Action.update u).starts = false) {r : TaskRow}
    (hr : r ∈ s.tasks) :
    GroupRan s (u.change r) := by
  cases u with
  | setRunningForFinalize id now => cases hu
  | incrementRetry id error => exact fun hrun => ⟨r, hr, rfl, hrun, rfl⟩
  | setRecurringPaused id paused => exact fun hrun => ⟨r, hr, rfl, hrun, rfl⟩
  | setRunAfter id runAfter => exact fun hrun => ⟨r, hr, rfl, hrun, rfl⟩
  | clearBit sel reason => exact fun hrun => ⟨r, hr, rfl, hrun, rfl⟩
  | addGroupBit group => exact fun hrun => ⟨r, hr, rfl, hrun, rfl⟩
  | requeue id => exact groupRan_of nofun
  | requeueForRetry id error delay now => exact groupRan_of nofun
  | pause id reason now => exact groupRan_of nofun
  | resume id now => exact groupRan_of nofun
  | resumeSole sel reason now => exact groupRan_of nofun
  | pausePendingInGroup group now => exact groupRan_of nofun
  | pausePendingByTypePrefix like now => exact groupRan_of nofun
  | setWaiting id memo => exact groupRan_of nofun

private theorem groupRan_exec (hs : s.Schema) {a : Action} (ha : a.starts = false) :
    (a.exec sha256 s).Rows (GroupRan s) := by
  have hstart : s.Rows (GroupRan s) := fun r hr hrun => ⟨r, hr, rfl, hrun, rfl⟩
  refine a.rows_exec sha256 hs hstart ?_
  cases a with
  | claimTask id now => cases ha
  | popById id now => cases ha
  | popNextBatch limit aging now => cases ha
  | update u => exact fun r hr _ => groupRan_update ha hr
  | submitDirect sub now => exact groupRan_submission hstart
  | processSubmitBatch skipRequeue batch =>
    exact Along.of_forall fun σ m hσ => ⟨groupRan_submission hσ.rows, fun _ => groupRan_of nofun⟩
  | submitChunk skipRequeue last now chunk => exact Along.of_forall fun σ item hσ _ => groupRan_submission hσ.rows
  | complete id metrics now => exact fun row _ => groupRan_completion _ now s
  | completeWithRecord task metrics now => exact groupRan_completion _ now s
  | completeBatch items now => exact ⟨groupRan_completion _ now s, groupRan_freeing now s⟩
  | resolveDependents id now => exact groupRan_freeing now s
  | failDependents id now => exact groupRan_freeing now s
  | fail id error retryable maxRetries metrics backoff now => exact fun r _ _ => groupRan_of nofun
  | failWithRecord task error retryable maxRetries metrics backoff now => exact fun _ r _ _ => groupRan_of nofun
  | recoverRunning now =>
    refine ⟨fun r _ _ => groupRan_of nofun, fun r _ hst _ => groupRan_of ?_, fun r _ _ _ _ => groupRan_of nofun⟩
    show r.status ≠ .running
    rw [hst]
    nofun
  | _ => trivial

/-- Only claims and finalizers raise the count of a group. -/
theorem Action.runningCount_le (sha256 : List UInt8 → String) (hs : s.Schema) {a : Action} (ha : a.starts = false)
    (group : String) : (a.exec sha256 s).runningCountForGroup group ≤ s.runningCountForGroup group := by
  have hs' : (a.exec sha256 s).Schema := hs.steps (a.steps sha256 s)
  have hran : (a.exec sha256 s).Rows (GroupRan s) := groupRan_exec hs ha
  -- the ids of the rows that run after the step are ids of rows that ran before
  have hids : ((a.exec sha256 s).tasks.filter fun r => r.groupKey == some group && r.status == .running).map (·.id) ⊆
      (s.tasks.filter fun r => r.groupKey == some group && r.status == .running).map (·.id) := by
    intro id hid
    obtain ⟨r, hr, rfl⟩ := List.mem_map.1 hid
    obtain ⟨hr, hsel⟩ := List.mem_filter.1 hr
    simp only [Bool.and_eq_true, beq_iff_eq] at hsel
    obtain ⟨r₀, hr₀, hid₀, hrun, hgroup⟩ := hran r hr hsel.2
    refine List.mem_map.2 ⟨r₀, List.mem_filter.2 ⟨hr₀, ?_⟩, hid₀⟩
    simp [hrun, hgroup, hsel.1]
  have hnodup : (((a.exec sha256 s).tasks.filter fun r => r.groupKey == some group && r.status == .running).map
      (·.id)).Nodup :=
    hs'.ids.sublist (List.filter_sublist.map _)
  have hlength := (hnodup.subperm hids).length_le
  rw [List.length_map, List.length_map] at hlength
  rw [Store.runningCountForGroup, Store.runningCountForGroup, List.countP_eq_length_filter,
    List.countP_eq_length_filter]
  exact hlength

end Rows

/-! ### The other parties -/

/-- Slots have been freed, none has been taken. -/
structure Futures.Shrinks (σ τ : Futures) : Prop where
  active : τ.active.length ≤ σ.active.length
  counter : ∀ module n, τ.moduleRunning.lookup module = some n → ∃ m, σ.moduleRunning.lookup module = some m ∧ n ≤ m
  group : ∀ group, τ.store.runningCountForGroup group ≤ σ.store.runningCountForGroup group

section Shrinks

variable {c : SpawnConfig} {sha256 : List UInt8 → String} {σ τ : Futures} {i : Nat} {f : Future}

private theorem Futures.Shrinks.of_same (ha : τ.active = σ.active) (hm : τ.moduleRunning = σ.moduleRunning)
    (hs : τ.store = σ.store) : σ.Shrinks τ := by
  refine ⟨by rw [ha], fun module n hn => ⟨n, ?_, Int.le_refl n⟩, fun group => by rw [hs]⟩
  rw [← hm]
  exact hn

/-- The store has been written by a step that starts nothing. -/
private theorem Futures.Shrinks.attempt (hs : σ.store.Schema) {a : Action} (ha : a.starts = false) (fault : Bool) :
    σ.Shrinks (σ.attempt fault (a.exec sha256 σ.store)) := by
  cases fault with
  | true => exact .of_same rfl rfl rfl
  | false =>
    refine ⟨Nat.le_refl _, fun module n hn => ⟨n, hn, Int.le_refl n⟩, fun group => ?_⟩
    exact a.runningCount_le sha256 hs ha group

/-- An `UPDATE` that starts nothing; it computes no keys. -/
private theorem Futures.Shrinks.update (hs : σ.store.Schema) {u : RowUpdate} (hu : (Action.update u).starts = false)
    (fault : Bool) : σ.Shrinks (σ.attempt fault (u.exec σ.store)) :=
  @Futures.Shrinks.attempt (fun _ => "") σ hs (.update u) hu fault

private theorem Futures.Shrinks.leave (i : Nat) (f : Future) : σ.Shrinks (σ.leave i f) := by
  refine ⟨List.length_filter_le _ _, fun module n hn => ?_, fun group => Nat.le_refl _⟩
  unfold Futures.leave at hn
  split at hn
  · exact ⟨n, hn, Int.le_refl n⟩
  · rw [lookup_bumpModule, Option.map_eq_some_iff] at hn
    obtain ⟨m, hm, rfl⟩ := hn
    refine ⟨m, hm, ?_⟩
    split
    · omega
    · omega

private theorem Futures.Shrinks.trans {υ : Futures} (h : σ.Shrinks τ) (h' : τ.Shrinks υ) : σ.Shrinks υ := by
  refine ⟨Nat.le_trans h'.active h.active, fun module n hn => ?_, fun group =>
    Nat.le_trans (h'.group group) (h.group group)⟩
  obtain ⟨m, hm, hle⟩ := h'.counter module n hn
  obtain ⟨k, hk, hle'⟩ := h.counter module m hm
  exact ⟨k, hk, Int.le_trans hle hle'⟩

/-- `Shrinks` is about the map, the counters and the store only. -/
private theorem Futures.Shrinks.congr {τ' : Futures} (h : σ.Shrinks τ) (ha : τ'.active = τ.active)
    (hm : τ'.moduleRunning = τ.moduleRunning) (hs : τ'.store = τ.store) : σ.Shrinks τ' :=
  h.trans (.of_same ha hm hs)

private theorem shrinks_step {next : Future → Futures} (h : ∀ f, σ.Shrinks (next f)) : σ.Shrinks (σ.step i next) := by
  rw [Futures.step]
  split
  · exact .of_same rfl rfl rfl
  · exact h _

private theorem shrinks_returns {outcome : Outcome} {metrics : IoBudget} {random : Nat} :
    σ.Shrinks (FutureStep.execReturns c σ i outcome metrics random f) := by
  have hcomplete : σ.Shrinks (σ.complete i f metrics) := (Futures.Shrinks.leave i f).congr rfl rfl rfl
  unfold FutureStep.execReturns
  split
  · split
    · exact .of_same rfl rfl rfl
    · exact hcomplete
  · split
    · exact .leave i f
    · split
      · exact .of_same rfl rfl rfl
      · exact .of_same rfl rfl rfl
      · exact .of_same rfl rfl rfl
  · exact .of_same rfl rfl rfl
  · exact .of_same rfl rfl rfl

private theorem shrinks_failure (hs : σ.store.Schema) {fault : Bool} {random : Nat} {now : Int} :
    σ.Shrinks (FutureStep.execFailure c sha256 σ i fault random now f) := by
  unfold FutureStep.execFailure
  split
  · rename_i error metrics _
    split
    · split
      · exact .of_same rfl rfl rfl
      · rename_i delay _
        have hu : (Action.update (.requeueForRetry f.task.id error.message delay now)).starts = false := rfl
        exact (Futures.Shrinks.update hs hu fault).trans (.leave i f)
    · split
      · exact (Futures.Shrinks.attempt hs rfl fault).trans (.leave i f)
      · exact .of_same rfl rfl rfl
  · exact .of_same rfl rfl rfl

/-- The other parties start nothing. -/
theorem shrinks_exec (hs : σ.store.Schema) {st : FutureStep} (hspawn : st.isSpawn = false)
    (hstore : ∀ a, st = .store a → a.starts = false) : σ.Shrinks (st.exec c sha256 σ) := by
  cases st with
  | store a => exact .attempt hs (hstore a rfl) false
  | spawn task phase => cases hspawn
  | setHandle i =>
    refine shrinks_step fun f => ?_
    split
    · exact .of_same rfl rfl rfl
    · refine ⟨?_, fun module n hn => ⟨n, hn, Int.le_refl n⟩, fun group => Nat.le_refl _⟩
      simp
  | progress i =>
    refine shrinks_step fun f => ?_
    split
    · exact .of_same rfl rfl rfl
    · exact .of_same rfl rfl rfl
  | returns i outcome metrics random => exact shrinks_step fun f => shrinks_returns
  | countChildren i fault =>
    refine shrinks_step fun f => ?_
    split
    · split
      · exact .of_same rfl rfl rfl
      · exact (Futures.Shrinks.leave i f).congr rfl rfl rfl
    · exact .of_same rfl rfl rfl
  | setWaiting i fault =>
    refine shrinks_step fun f => ?_
    split
    · rename_i memo _
      have hu : (Action.update (.setWaiting f.task.id memo)).starts = false := rfl
      exact (Futures.Shrinks.update hs hu fault).trans (.leave i f)
    · exact .of_same rfl rfl rfl
  | retryInline i fault =>
    refine shrinks_step fun f => ?_
    unfold FutureStep.execRetry
    split
    · rename_i error _
      have hu : (Action.update (.incrementRetry f.task.id error.message)).starts = false := rfl
      exact (Futures.Shrinks.update hs hu fault).congr rfl rfl rfl
    · exact .of_same rfl rfl rfl
  | handleFailure i fault random now => exact shrinks_step fun f => shrinks_failure hs
  | cleanUp i =>
    refine shrinks_step fun f => ?_
    split
    · exact .leave i f
    · exact .of_same rfl rfl rfl
  | drainCompletions => exact .of_same rfl rfl rfl
  | completeBatch k fault now =>
    rw [FutureStep.exec]
    split
    · exact .of_same rfl rfl rfl
    · exact (Futures.Shrinks.attempt hs rfl fault).congr rfl rfl rfl
  | drainFailures => exact .of_same rfl rfl rfl
  | failBatch k fault now =>
    rw [FutureStep.exec]
    split
    · exact .of_same rfl rfl rfl
    · exact (Futures.Shrinks.attempt hs rfl fault).congr rfl rfl rfl
  | drain p purpose =>
    exact ⟨List.length_filter_le _ _, fun module n hn => ⟨n, hn, Int.le_refl n⟩, fun group => Nat.le_refl _⟩
  | cancelToken i => exact .of_same rfl rfl rfl
  | settle i fault now =>
    rw [FutureStep.exec]
    split
    · exact .of_same rfl rfl rfl
    · rename_i d _
      have hcarry : σ.Shrinks (σ.carryOut sha256 d fault now) := by
        rw [Futures.carryOut]
        split
        · exact .of_same rfl rfl rfl
        · rename_i a ha
          refine .attempt hs ?_ fault
          cases hp : d.purpose with
          | pause reason =>
            rw [hp] at ha
            cases ha
            rfl
          | cancel =>
            rw [hp] at ha
            cases ha
            rfl
          | delete =>
            rw [hp] at ha
            cases ha
            rfl
          | supersede =>
            rw [hp] at ha
            cases ha
      exact hcarry.congr rfl rfl rfl

end Shrinks

/-! ### Reservations -/

namespace InFlight

def size : InFlight → Nat
  | .nothing => 0
  | .admitted _ => 1
  | .claimed tasks => tasks.length

/-- The tasks that do not run yet and will run in this group. -/
def inGroup (group : String) : InFlight → Nat
  | .admitted task => if task.groupKey = some group then 1 else 0
  | _ => 0

/-- The tasks that will count for this module. -/
def inModule (module : String) : InFlight → Nat
  | .nothing => 0
  | .admitted task => if moduleName task.taskType = some module then 1 else 0
  | .claimed tasks => tasks.countP fun t => moduleName t.1.taskType == some module

end InFlight

/-- The limits hold with the tasks in flight and the slots that the loop still may use. -/
structure RunLoop.Reserved (σ : RunLoop) : Prop where
  max : σ.max ≤ σ.maxConcurrency
  active : σ.futures.active.length + σ.inFlight.size + σ.free ≤ σ.maxConcurrency
  group : ∀ group limit, σ.groupLimits.limitFor group = some limit →
    σ.futures.store.runningCountForGroup group + σ.inFlight.inGroup group + σ.budget (some group) ≤ limit
  module : ∀ module cap n, σ.moduleCaps.lookup module = some cap → σ.futures.moduleRunning.lookup module = some n →
    n + σ.inFlight.inModule module ≤ cap

/-- A limit that is lowered leaves room for what the loop is about to start, fast dispatch is for schedulers without
group limits and module caps, no minimum of fair dispatch is above the limit of its group, the row that is claimed
is in the group that the gate has looked at, and there is room for a finalizer. -/
def LoopStep.HasRoom (σ : RunLoop) : LoopStep → Prop
  | .configure maxConcurrency groupLimits moduleCaps =>
    { σ with maxConcurrency := maxConcurrency, groupLimits := groupLimits, moduleCaps := moduleCaps }.Reserved
  | .allocate _ w _ _ _ =>
    ∀ group min limit, w.minSlots.lookup group = some min → σ.groupLimits.limitFor group = some limit →
    min ≤ limit
  | .pop .. => (∀ group, σ.groupLimits.limitFor group = none) ∧ ∀ module, σ.moduleCaps.lookup module = none
  | .claim .. =>
    ∀ task, σ.inFlight = .admitted task → ∀ r ∈ σ.futures.store.tasks, r.id = task.id → r.status = .pending →
    r.groupKey = task.groupKey
  | .finalize id _ => id ∈ σ.finalizers → ∀ r ∈ σ.futures.store.tasks, r.id = id →
    σ.futures.active.length < σ.maxConcurrency ∧
      (∀ group limit, r.status = .waiting → r.groupKey = some group → σ.groupLimits.limitFor group = some limit →
        σ.futures.store.runningCountForGroup group < limit) ∧
      ∀ module cap n, moduleName r.taskType = some module → σ.moduleCaps.lookup module = some cap →
        σ.futures.moduleRunning.lookup module = some n → n < cap
  | _ => True

section Counting

variable {s : Store} {sel p : TaskRow → Bool} {f : TaskRow → TaskRow} {id : Int}

/-- An `UPDATE` of rows that do not count afterwards. -/
private theorem countP_update_le (h : ∀ r ∈ s.tasks, sel r = true → p (f r) = false) :
    (s.updateTasks sel f).tasks.countP p ≤ s.tasks.countP p := by
  rw [Store.updateTasks_tasks, List.countP_map]
  refine List.countP_mono_left fun r hr hp => ?_
  rw [Function.comp_apply] at hp
  by_cases hsel : sel r = true
  · rw [if_pos hsel, h r hr hsel] at hp
    cases hp
  · rwa [if_neg hsel] at hp

/-- An `UPDATE` of one row. -/
private theorem countP_map_le_succ {tasks : List TaskRow} (hnodup : (tasks.map (·.id)).Nodup)
    (hsel : ∀ r, sel r = true → r.id = id) :
    (tasks.map fun r => if sel r then f r else r).countP p ≤ tasks.countP p + 1 := by
  induction tasks with
  | nil => simp
  | cons r rows ih =>
    rw [List.map_cons, List.nodup_cons] at hnodup
    by_cases hr : sel r = true
    · -- no other row is selected
      have hrest : (rows.map fun r => if sel r then f r else r) = rows := by
        conv_rhs => rw [← List.map_id rows]
        refine List.map_congr_left fun r' hr' => ?_
        rw [if_neg]
        · rfl
        · intro hsel'
          refine hnodup.1 (List.mem_map.2 ⟨r', hr', ?_⟩)
          rw [hsel r' hsel', hsel r hr]
      have hone : (if p (f r) = true then 1 else 0) ≤ 1 := by
        split
        · omega
        · omega
      rw [List.map_cons, if_pos hr, hrest, List.countP_cons, List.countP_cons]
      omega
    · have hih := ih hnodup.2
      rw [List.map_cons, if_neg hr, List.countP_cons, List.countP_cons]
      omega

end Counting

section Gate

variable {σ : RunLoop}

private theorem lookup_toNat (m : StringMap Int) (key : String) :
    (StringMap.toNat m).lookup key = (m.lookup key).map Int.toNat := by
  unfold AList.lookup StringMap.toNat
  dsimp only
  induction m.entries with
  | nil => rfl
  | cons e entries ih =>
    obtain ⟨k, v⟩ := e
    by_cases hk : k = key
    · subst hk
      rw [List.map_cons, List.dlookup_cons_eq, List.dlookup_cons_eq]
      rfl
    · rw [List.map_cons, List.dlookup_cons_ne _ _ (Ne.symm hk), List.dlookup_cons_ne _ _ (Ne.symm hk), ih]

/-- What the gate has looked at. -/
private theorem not_denied {gate : GateConfig} {ctx : GateContext} {limits : GroupLimits} {task : TaskRecord}
    (h : σ.admits gate ctx limits task = true) :
    { gate with groupLimits := limits, moduleCaps := σ.moduleCaps }.denies
      { ctx with
        runningCountForGroup := σ.futures.store.runningCountForGroup
        moduleRunning := StringMap.toNat σ.futures.moduleRunning } task = false := by
  by_contra hdenied
  rw [Bool.not_eq_false] at hdenied
  unfold RunLoop.admits GateConfig.admission at h
  rw [if_pos hdenied] at h
  cases h

theorem admits_group {gate : GateConfig} {ctx : GateContext} {limits : GroupLimits} {task : TaskRecord}
    (h : σ.admits gate ctx limits task = true) {group : String} {limit : Nat} (hgroup : task.groupKey = some group)
    (hlimit : limits.limitFor group = some limit) : σ.futures.store.runningCountForGroup group < limit := by
  have hdenies := not_denied h
  simp only [GateConfig.denies, Bool.or_eq_false_iff] at hdenies
  have hsaturated := hdenies.1.2
  simp only [GateConfig.groupSaturated, hgroup, hlimit, decide_eq_false_iff_not] at hsaturated
  omega

private theorem admits_module {gate : GateConfig} {ctx : GateContext} {limits : GroupLimits} {task : TaskRecord}
    (h : σ.admits gate ctx limits task = true) {module : String} {cap : Nat} {n : Int}
    (hmodule : moduleName task.taskType = some module) (hcap : σ.moduleCaps.lookup module = some cap)
    (hn : σ.futures.moduleRunning.lookup module = some n) : n < cap := by
  have hdenies := not_denied h
  simp only [GateConfig.denies, Bool.or_eq_false_iff] at hdenies
  have hsaturated := hdenies.2
  simp only [GateConfig.moduleSaturated, hmodule, hcap, lookup_toNat, hn, Option.map_some, Option.getD_some,
    decide_eq_false_iff_not] at hsaturated
  omega

end Gate

/-! ### Allocations -/

section Allocation

variable {w : GroupWeights} {caps : GroupLimits} {group : String} {limit : Nat}

private theorem grantMinimums_le (hmin : ∀ min, w.minSlots.lookup group = some min → min ≤ limit) (remaining : Nat)
    (groups : List (Option String × GroupDemand)) :
    ∀ g ∈ grantMinimums w remaining groups, g.1 = some group → g.2.2 ≤ limit := by
  induction groups generalizing remaining with
  | nil => nofun
  | cons head groups ih =>
    intro g hg hgroup
    rw [grantMinimums, List.mem_cons] at hg
    rcases hg with rfl | hg
    · have hslots : w.minSlotsFor head.1 ≤ limit := by
        rw [GroupWeights.minSlotsFor, hgroup, Option.bind_some]
        cases hlookup : w.minSlots.lookup group with
        | none => simp
        | some min => exact hmin min hlookup
      show min (min (w.minSlotsFor head.1) (head.2.running + head.2.pending)) remaining ≤ limit
      omega
    · exact ih _ g hg hgroup

/-- A group gets no more slots than its limit, if its minimum is not above it. -/
private theorem computeAllocation_le (hlimit : caps.limitFor group = some limit)
    (hmin : ∀ min, w.minSlots.lookup group = some min → min ≤ limit) {capacity : Nat}
    {groups : List (Option String × GroupDemand)} {pausedGroups : List String}
    {share : Option String → Nat} {slots : Nat}
    (h : List.lookup (some group) (computeAllocation capacity groups w caps pausedGroups share) = some slots) :
    slots ≤ limit := by
  have hmem : (some group, slots) ∈ computeAllocation capacity groups w caps pausedGroups share := by
    obtain ⟨l₁, l₂, hl, -⟩ := List.lookup_eq_some_iff.1 h
    rw [hl]
    simp
  obtain ⟨g, hg, heq⟩ := List.mem_map.1 hmem
  obtain ⟨hgroup, hslots⟩ := Prod.mk.inj heq
  have hgrant := grantMinimums_le hmin _ _ g hg hgroup
  have hheadroom : caps.headroom g.1 g.2.1 g.2.2 ≤ limit - g.2.2 := by
    rw [GroupLimits.headroom, hgroup, Option.bind_some, hlimit]
    exact Nat.min_le_right _ _
  omega

end Allocation

/-! ### Batches -/

/-- `pop_next_batch` returns at most as many tasks as it is asked for. -/
private theorem popNextBatch_length {s s' : Store} (hs : s.Schema) {limit : Nat}
    {aging : Option AgingParams} {now : Int} {tasks : List TaskRecord}
    (h : popNextBatch limit aging now s = (.ok tasks, s')) : tasks.length ≤ limit := by
  have hrows : ∀ limit, (((s.tasks.filter fun r => (s.nextIds limit aging now).contains r.id).map
      (TaskRow.claim now)).map rowToTaskRecord).length ≤ limit := by
    intro limit
    have hids : (s.tasks.filter fun r => (s.nextIds limit aging now).contains r.id).map (·.id) ⊆
        s.nextIds limit aging now := by
      intro id hid
      obtain ⟨r, hr, rfl⟩ := List.mem_map.1 hid
      exact List.contains_iff_mem.1 (List.mem_filter.1 hr).2
    have hnodup : ((s.tasks.filter fun r => (s.nextIds limit aging now).contains r.id).map (·.id)).Nodup :=
      hs.ids.sublist (List.filter_sublist.map _)
    have hlength := (hnodup.subperm hids).length_le
    have htake : (s.nextIds limit aging now).length ≤ limit := by
      rw [Store.nextIds, List.length_map]
      exact List.length_take_le _ _
    rw [List.length_map] at hlength
    rw [List.length_map, List.length_map]
    omega
  obtain _ | _ | limit := limit
  · cases h
    exact Nat.le_refl 0
  · obtain ⟨hok, -⟩ := Prod.mk.inj h
    obtain rfl := Except.ok.inj hok
    exact Option.length_toList_le
  · obtain ⟨hok, -⟩ := Prod.mk.inj h
    obtain rfl := Except.ok.inj hok
    exact hrows (limit + 2)

/-! ### Steps -/

section Steps

variable {c : SpawnConfig} {sha256 : List UInt8 → String} {σ : RunLoop}

/-- Slots have been freed; the loop stands where it stood. -/
private theorem RunLoop.Reserved.shrink (h : σ.Reserved) {futures : Futures} (hf : σ.futures.Shrinks futures) :
    { σ with futures := futures }.Reserved := by
  refine ⟨h.max, ?_, fun group limit hlimit => ?_, fun module cap n hcap hn => ?_⟩
  · have hactive := hf.active
    have hold := h.active
    show futures.active.length + σ.inFlight.size + σ.free ≤ σ.maxConcurrency
    omega
  · have hgroup := hf.group group
    have hold := h.group group limit hlimit
    show futures.store.runningCountForGroup group + σ.inFlight.inGroup group + σ.budget (some group) ≤ limit
    omega
  · obtain ⟨m, hm, hle⟩ := hf.counter module n hn
    have hold := h.module module cap m hcap hm
    show n + σ.inFlight.inModule module ≤ cap
    omega

/-- The loop gives up what it has not used. -/
private theorem RunLoop.Reserved.rest (h : σ.Reserved) : σ.rest.Reserved := by
  refine ⟨Nat.zero_le _, ?_, fun group limit hlimit => ?_, h.module⟩
  · have hold := h.active
    show σ.futures.active.length + σ.inFlight.size + 0 ≤ σ.maxConcurrency
    omega
  · have hold := h.group group limit hlimit
    show σ.futures.store.runningCountForGroup group + σ.inFlight.inGroup group + 0 ≤ limit
    omega

/-- The tasks in flight give up what they have not used. -/
private theorem RunLoop.Reserved.nothing (h : σ.Reserved) : { σ with inFlight := .nothing }.Reserved := by
  refine ⟨h.max, ?_, fun group limit hlimit => ?_, fun module cap n hcap hn => ?_⟩
  · have hold := h.active
    show σ.futures.active.length + 0 + σ.free ≤ σ.maxConcurrency
    omega
  · have hold := h.group group limit hlimit
    show σ.futures.store.runningCountForGroup group + 0 + σ.budget (some group) ≤ limit
    omega
  · have hold := h.module module cap n hcap hn
    show n + 0 ≤ cap
    omega

private theorem reserved_look (h : σ.Reserved) (dispatched : Nat) :
    ((LoopStep.look dispatched).exec c sha256 σ).Reserved := by
  rw [LoopStep.exec]
  split
  · rename_i hnothing
    refine ⟨h.max, ?_, h.group, h.module⟩
    have hold := h.active
    have hmax := h.max
    show σ.futures.active.length + σ.inFlight.size + (σ.max - (σ.futures.active.length + dispatched)) ≤
      σ.maxConcurrency
    rw [hnothing] at hold ⊢
    show σ.futures.active.length + 0 + (σ.max - (σ.futures.active.length + dispatched)) ≤ σ.maxConcurrency
    omega
  · exact h

private theorem reserved_allocate (h : σ.Reserved) {groups : List (Option String)} {w : GroupWeights}
    {pausedGroups : List String} {share : Option String → Nat} {now : Int}
    (hroom : (LoopStep.allocate groups w pausedGroups share now).HasRoom σ) :
    ((LoopStep.allocate groups w pausedGroups share now).exec c sha256 σ).Reserved := by
  rw [LoopStep.exec]
  split
  · rename_i hnothing
    refine ⟨h.max, h.active, fun group limit hlimit => ?_, h.module⟩
    have hold := h.group group limit hlimit
    rw [hnothing] at hold
    dsimp only
    rw [hnothing]
    cases hslots : List.lookup (some group) (computeAllocation σ.max (groups.map fun group =>
        (group, σ.futures.store.demand now group)) w σ.groupLimits pausedGroups share) with
    | none =>
      simp only [Option.getD_none, Nat.zero_sub]
      omega
    | some slots =>
      have hle := computeAllocation_le hlimit (fun min hmin => hroom group min limit hmin hlimit) hslots
      show σ.futures.store.runningCountForGroup group + 0 +
        (slots - σ.futures.store.runningCountForGroup group) ≤ limit
      have hzero : (InFlight.nothing).inGroup group = 0 := rfl
      omega
  · exact h

private theorem reserved_pop (h : σ.Reserved) (hs : σ.futures.store.Schema) {limit : Nat}
    {aging : Option AgingParams} {now : Int} (hroom : (LoopStep.pop limit aging now).HasRoom σ) :
    ((LoopStep.pop limit aging now).exec c sha256 σ).Reserved := by
  rw [LoopStep.exec]
  split
  · rename_i tasks s hnothing hpop
    refine ⟨h.max, ?_, fun group limit hlimit => ?_, fun module cap n hcap _ => ?_⟩
    · have hlength := popNextBatch_length hs hpop
      have hold := h.active
      show σ.futures.active.length + (tasks.map fun task => (task, ExecutionPhase.execute)).length + 0 ≤
        σ.maxConcurrency
      rw [List.length_map]
      omega
    · have hnone := hroom.1 group
      rw [show σ.groupLimits.limitFor group = some limit from hlimit] at hnone
      cases hnone
    · have hnone := hroom.2 module
      rw [show σ.moduleCaps.lookup module = some cap from hcap] at hnone
      cases hnone
  · exact h

/-- A candidate has passed the gate; `budget` is what is left to the first pass. -/
private theorem reserved_admitted (h : σ.Reserved) (hfree : 0 < σ.free) {task : TaskRecord}
    {budget : Option String → Nat} (hgroup : ∀ group limit, σ.groupLimits.limitFor group = some limit →
      σ.futures.store.runningCountForGroup group + (if task.groupKey = some group then 1 else 0) +
        budget (some group) ≤ limit)
    (hmodule : ∀ module cap n, moduleName task.taskType = some module → σ.moduleCaps.lookup module = some cap →
      σ.futures.moduleRunning.lookup module = some n → n < cap) :
    { σ with free := σ.free - 1, budget := budget, inFlight := .admitted task }.Reserved := by
  refine ⟨h.max, ?_, hgroup, fun module cap n hcap hn => ?_⟩
  · have hold := h.active
    show σ.futures.active.length + 1 + (σ.free - 1) ≤ σ.maxConcurrency
    omega
  · have hold := h.module module cap n hcap hn
    show n + ((if moduleName task.taskType = some module then 1 else 0 : Nat) : Int) ≤ cap
    split
    · rename_i hname
      have hlt := hmodule module cap n hname hcap hn
      omega
    · omega

private theorem reserved_admit (h : σ.Reserved) {task : TaskRecord} {gate : GateConfig} {ctx : GateContext} :
    ((LoopStep.admitCandidate task gate ctx).exec c sha256 σ).Reserved := by
  rw [LoopStep.exec]
  split
  · split
    · rename_i hadmit
      obtain ⟨hfree, hadmit⟩ := hadmit
      refine reserved_admitted h hfree (fun group limit hlimit => ?_) fun module cap n hname hcap hn =>
        admits_module hadmit hname hcap hn
      have hold := h.group group limit hlimit
      split
      · rename_i hgroup
        have hlt := admits_group hadmit hgroup hlimit
        omega
      · omega
    · exact h
  · exact h

private theorem reserved_admitAllocated (h : σ.Reserved) {task : TaskRecord} {gate : GateConfig} {ctx : GateContext} :
    ((LoopStep.admitAllocated task gate ctx).exec c sha256 σ).Reserved := by
  rw [LoopStep.exec]
  split
  · split
    · rename_i hadmit
      obtain ⟨hfree, hbudget, hadmit⟩ := hadmit
      refine reserved_admitted h hfree (fun group limit hlimit => ?_) fun module cap n hname hcap hn =>
        admits_module hadmit hname hcap hn
      have hold := h.group group limit hlimit
      by_cases hgroup : task.groupKey = some group
      · rw [if_pos hgroup, hgroup, Function.update_self]
        rw [hgroup] at hbudget
        omega
      · rw [if_neg hgroup, Function.update_of_ne (Ne.symm hgroup)]
        omega
    · exact h
  · exact h

/-- The claimed row is the one that was admitted, or nothing is claimed. -/
theorem claim_running (hs : σ.futures.store.Schema) {task : TaskRecord}
    (hflight : σ.inFlight = .admitted task) {now : Int} {readings : Readings}
    (hroom : (LoopStep.claim now readings).HasRoom σ) (group : String) :
    (claimTask task.id now σ.futures.store).2.runningCountForGroup group ≤
      σ.futures.store.runningCountForGroup group + σ.inFlight.inGroup group := by
  have htasks : (claimTask task.id now σ.futures.store).2.tasks =
      (σ.futures.store.updateTasks (fun r => r.id == task.id && r.status == .pending) (TaskRow.claim now)).tasks :=
        rfl
  rw [hflight, Store.runningCountForGroup, htasks, Store.runningCountForGroup, InFlight.inGroup]
  by_cases hgroup : task.groupKey = some group
  · have hid : ∀ r : TaskRow, (r.id == task.id && r.status == .pending) = true → r.id = task.id := by
      intro r hsel
      simp only [Bool.and_eq_true, beq_iff_eq] at hsel
      exact hsel.1
    rw [if_pos hgroup, Store.updateTasks_tasks]
    exact countP_map_le_succ hs.ids hid
  · rw [if_neg hgroup]
    refine countP_update_le fun r hr hsel => ?_
    simp only [Bool.and_eq_true, beq_iff_eq] at hsel
    have hsame : r.groupKey = task.groupKey := hroom task hflight r hr hsel.1 hsel.2
    have hkeep : (r.claim now).groupKey = r.groupKey := rfl
    simp [hkeep, hsame, hgroup]

private theorem reserved_claim (h : σ.Reserved) (hs : σ.futures.store.Schema) {now : Int} {readings : Readings}
    (hroom : (LoopStep.claim now readings).HasRoom σ) : ((LoopStep.claim now readings).exec c sha256 σ).Reserved := by
  rw [LoopStep.exec]
  split
  · rename_i task hflight
    have hrunning := claim_running hs hflight hroom
    have hgroups : ∀ group limit, σ.groupLimits.limitFor group = some limit →
        (claimTask task.id now σ.futures.store).2.runningCountForGroup group + 0 + σ.budget (some group) ≤ limit := by
      intro group limit hlimit
      have hold := h.group group limit hlimit
      have hnew := hrunning group
      omega
    split
    · rename_i s hclaim
      rw [hclaim] at hgroups
      refine ⟨h.max, ?_, hgroups, fun module cap n hcap hn => ?_⟩
      · have hold := h.active
        rw [hflight] at hold
        exact hold
      · have hold := h.module module cap n hcap hn
        rw [hflight] at hold
        have hcount : (InFlight.claimed [(task.patched readings, .execute)]).inModule module =
            (InFlight.admitted task).inModule module := by
          show List.countP _ [(task.patched readings, ExecutionPhase.execute)] = _
          rw [List.countP_singleton]
          simp only [InFlight.inModule, beq_iff_eq]
          rfl
        show n + (InFlight.claimed [(task.patched readings, .execute)]).inModule module ≤ cap
        rw [hcount]
        exact hold
    · rename_i s hclaim
      rw [hclaim] at hgroups
      refine ⟨h.max, ?_, hgroups, fun module cap n hcap hn => ?_⟩
      · have hold := h.active
        show σ.futures.active.length + 0 + σ.free ≤ σ.maxConcurrency
        omega
      · have hold := h.module module cap n hcap hn
        show n + 0 ≤ cap
        omega
  · exact h

/-- The next claimed task counts in the map and for its module, or not at all. -/
private theorem reserved_spawn (h : σ.Reserved) (hs : σ.futures.store.Schema) {registered : Bool} {now : Int} :
    ((LoopStep.spawn registered now).exec c sha256 σ).Reserved := by
  rw [LoopStep.exec]
  split
  · rename_i task phase tasks hflight
    have hactive := h.active
    rw [hflight] at hactive
    have hsize : (InFlight.claimed ((task, phase) :: tasks)).size = tasks.length + 1 := rfl
    have hmodules : ∀ module, (InFlight.claimed ((task, phase) :: tasks)).inModule module =
        (InFlight.claimed tasks).inModule module + if moduleName task.taskType = some module then 1 else 0 := by
      intro module
      simp [InFlight.inModule, List.countP_cons]
    have hgroups : ∀ group limit, σ.groupLimits.limitFor group = some limit →
        σ.futures.store.runningCountForGroup group + 0 + σ.budget (some group) ≤ limit := by
      intro group limit hlimit
      have hold := h.group group limit hlimit
      omega
    split
    · refine ⟨h.max, ?_, hgroups, fun module cap n hcap hn => ?_⟩
      · have hkept := List.length_filter_le (fun entry : ActiveTask => !(entry.record.id == task.id)) σ.futures.active
        show (σ.futures.active.filter (fun entry : ActiveTask => !(entry.record.id == task.id)) ++ [_]).length +
          tasks.length + σ.free ≤ σ.maxConcurrency
        rw [List.length_append, List.length_singleton]
        omega
      · have hlookup : (bumpModule σ.futures.moduleRunning task.taskType 1).lookup module = some n := hn
        rw [lookup_bumpModule, Option.map_eq_some_iff] at hlookup
        obtain ⟨m, hm, rfl⟩ := hlookup
        have hold := h.module module cap m hcap hm
        rw [hflight, hmodules] at hold
        show (m + if moduleName task.taskType = some module then 1 else 0) +
          (InFlight.claimed tasks).inModule module ≤ cap
        split at hold
        · rw [if_pos (by assumption)]
          omega
        · rw [if_neg (by assumption)]
          omega
    · have hdropped : { σ with inFlight := .claimed tasks }.Reserved := by
        refine ⟨h.max, ?_, hgroups, fun module cap n hcap hn => ?_⟩
        · show σ.futures.active.length + tasks.length + σ.free ≤ σ.maxConcurrency
          omega
        · have hold := h.module module cap n hcap hn
          rw [hflight, hmodules] at hold
          show n + (InFlight.claimed tasks).inModule module ≤ cap
          omega
      have hfail : (LoopStep.failTask task phase now).starts = false := by
        cases phase with
        | execute => rfl
        | finalize => rfl
      exact hdropped.shrink (.attempt hs hfail false)
  · exact h.nothing
  · exact h

/-- Only the row of the finalizer starts to run. -/
private theorem finalize_running {s : Store} (hs : s.Schema) (id now : Int) (group : String) :
    (s.setRunningForFinalize id now).runningCountForGroup group ≤ s.runningCountForGroup group ∨
      ((s.setRunningForFinalize id now).runningCountForGroup group ≤ s.runningCountForGroup group + 1 ∧
        ∃ r ∈ s.tasks, r.id = id ∧ r.status = .waiting ∧ r.groupKey = some group) := by
  by_cases hrow : ∃ r ∈ s.tasks, r.id = id ∧ r.status = .waiting ∧ r.groupKey = some group
  · refine .inr ⟨?_, hrow⟩
    have hid : ∀ r : TaskRow, (r.id == id && r.status == .waiting) = true → r.id = id := by
      intro r hsel
      simp only [Bool.and_eq_true, beq_iff_eq] at hsel
      exact hsel.1
    exact countP_map_le_succ hs.ids hid
  · refine .inl (countP_update_le fun r hr hsel => ?_)
    simp only [Bool.and_eq_true, beq_iff_eq] at hsel
    by_contra hcounts
    simp only [Bool.and_eq_true, beq_iff_eq, Bool.not_eq_false] at hcounts
    exact hrow ⟨r, hr, hsel.1, hsel.2, hcounts.1⟩

/-- The record of a finalizer is that of its row. -/
private theorem finalize_row {s : Store} {id now : Int} {row : TaskRow}
    (h : (s.setRunningForFinalize id now).taskById id = some row) :
    ∃ r ∈ s.tasks, r.id = id ∧ row.taskType = r.taskType := by
  have hid : row.id = id := by simpa using List.find?_some h
  obtain ⟨r, hr, hrow⟩ := List.mem_map.1 (List.mem_of_find?_eq_some h)
  have hsame : row.id = r.id ∧ row.taskType = r.taskType := by
    rw [← hrow]
    split
    · exact ⟨rfl, rfl⟩
    · exact ⟨rfl, rfl⟩
  exact ⟨r, hr, by rw [← hid, hsame.1], hsame.2⟩

/-- A finalizer takes the room that there is for it. -/
private theorem reserved_finalize (h : σ.Reserved) (hs : σ.futures.store.Schema) {id now : Int}
    (hroom : (LoopStep.finalize id now).HasRoom σ) : ((LoopStep.finalize id now).exec c sha256 σ).Reserved := by
  rw [LoopStep.exec]
  split
  · rename_i hflight
    split
    · rename_i hid
      have hactive := h.active
      rw [hflight] at hactive
      have hgroups : ∀ group limit, σ.groupLimits.limitFor group = some limit →
          (σ.futures.store.setRunningForFinalize id now).runningCountForGroup group + 0 + 0 ≤ limit := by
        intro group limit hlimit
        have hold := h.group group limit hlimit
        rcases finalize_running hs id now group with hle | ⟨hle, r, hr, hrid, hwaiting, hgroup⟩
        · omega
        · have hlt := (hroom hid r hr hrid).2.1 group limit hwaiting hgroup hlimit
          omega
      dsimp only
      cases hrow : (σ.futures.store.setRunningForFinalize id now).taskById id with
      | none =>
        refine ⟨Nat.zero_le _, ?_, hgroups, fun module cap n hcap hn => ?_⟩
        · show σ.futures.active.length + 0 + 0 ≤ σ.maxConcurrency
          omega
        · have hold := h.module module cap n hcap hn
          show n + 0 ≤ cap
          omega
      | some row =>
        obtain ⟨r, hr, hrid, htype⟩ := finalize_row hrow
        obtain ⟨hslot, -, hcaps⟩ := hroom hid r hr hrid
        refine ⟨Nat.zero_le _, ?_, hgroups, fun module cap n hcap hn => ?_⟩
        · show σ.futures.active.length + 1 + 0 ≤ σ.maxConcurrency
          omega
        · have hold := h.module module cap n hcap hn
          have hcount : (InFlight.claimed [(rowToTaskRecord row, .finalize)]).inModule module =
              if moduleName r.taskType = some module then 1 else 0 := by
            show List.countP _ [(rowToTaskRecord row, ExecutionPhase.finalize)] = _
            rw [List.countP_singleton, ← htype]
            simp only [beq_iff_eq]
            rfl
          show n + (InFlight.claimed [(rowToTaskRecord row, .finalize)]).inModule module ≤ cap
          rw [hcount]
          split
          · rename_i hname
            have hlt := hcaps module cap n hname hcap hn
            omega
          · omega
    · exact h
  · exact h

private theorem LoopStep.Single.spawns {st : FutureStep} (h : (LoopStep.other st).Single σ) : st.isSpawn = false := by
  cases st with
  | spawn task phase => exact h
  | _ => rfl

/-- A step that leaves room for what it starts keeps the reservations. -/
private theorem reserved_exec (h : σ.Reserved) (hs : σ.futures.store.Schema) {st : LoopStep} (hsingle : st.Single σ)
    (hroom : st.HasRoom σ) : (st.exec c sha256 σ).Reserved := by
  cases st with
  | other st =>
    refine h.shrink (shrinks_exec hs hsingle.spawns fun a ha => ?_)
    subst ha
    exact hsingle
  | configure maxConcurrency groupLimits moduleCaps => exact hroom
  | finalizerReady id => exact ⟨h.max, h.active, h.group, h.module⟩
  | load =>
    have hrest := h.rest
    exact ⟨Nat.le_refl _, hrest.active, hrest.group, hrest.module⟩
  | look dispatched => exact reserved_look h dispatched
  | allocate groups w pausedGroups share now => exact reserved_allocate h hroom
  | pop limit aging now => exact reserved_pop h hs hroom
  | admitCandidate task gate ctx => exact reserved_admit h
  | admitAllocated task gate ctx => exact reserved_admitAllocated h
  | claim now readings => exact reserved_claim h hs hroom
  | spawn registered now => exact reserved_spawn h hs
  | finalize id now => exact reserved_finalize h hs hroom
  | finish => exact h.rest

/-- The loop writes to the database by the steps of the store. -/
theorem schema_exec (hs : σ.futures.store.Schema) {st : LoopStep}
    (hother : ∀ other, st = .other other → other.isSpawn = false) :
    (st.exec c sha256 σ).futures.store.Schema := by
  have hstep : ∀ a : Action, (a.exec sha256 σ.futures.store).Schema :=
    fun a => hs.steps (a.steps sha256 σ.futures.store)
  cases st with
  | other st => exact (st.wrote_exec c sha256 σ.futures (hother st rfl)).schema hs
  | pop limit aging now =>
    rw [LoopStep.exec]
    split
    · rename_i tasks s _ hpop
      have hexec := hstep (.popNextBatch (min limit σ.free) aging now)
      rw [Action.exec, hpop] at hexec
      exact hexec
    · exact hs
  | claim now readings =>
    rw [LoopStep.exec]
    split
    · rename_i task _
      have hexec := hstep (.claimTask task.id now)
      rw [Action.exec] at hexec
      split
      · rename_i s hclaim
        rw [hclaim] at hexec
        exact hexec
      · rename_i s hclaim
        rw [hclaim] at hexec
        exact hexec
    · exact hs
  | spawn registered now =>
    rw [LoopStep.exec]
    split
    · rename_i task phase tasks _
      split
      · exact hs
      · exact hstep _
    · exact hs
    · exact hs
  | finalize id now =>
    rw [LoopStep.exec]
    split
    · split
      · exact hstep (.update (.setRunningForFinalize id now))
      · exact hs
    · exact hs
  | look dispatched =>
    rw [LoopStep.exec]
    split
    · exact hs
    · exact hs
  | allocate groups w pausedGroups share now =>
    rw [LoopStep.exec]
    split
    · exact hs
    · exact hs
  | admitCandidate task gate ctx =>
    rw [LoopStep.exec]
    split
    · split
      · exact hs
      · exact hs
    · exact hs
  | admitAllocated task gate ctx =>
    rw [LoopStep.exec]
    split
    · split
      · exact hs
      · exact hs
    · exact hs
  | configure maxConcurrency groupLimits moduleCaps => exact hs
  | finalizerReady id => exact hs
  | load => exact hs
  | finish => exact hs

private theorem RunLoop.Start.reserved (h : σ.Start) : σ.Reserved := by
  have hstart : σ.rest = σ := h.rest
  rw [← hstart]
  refine ⟨Nat.zero_le _, ?_, fun group limit _ => ?_, fun module cap n _ hn => ?_⟩
  · show σ.futures.active.length + σ.inFlight.size + 0 ≤ σ.maxConcurrency
    rw [h.futures.active, h.inFlight]
    exact Nat.zero_le _
  · show σ.futures.store.runningCountForGroup group + σ.inFlight.inGroup group + 0 ≤ limit
    rw [Store.runningCountForGroup, h.futures.store.tasks, h.inFlight]
    exact Nat.zero_le _
  · have hzero : n = 0 := h.futures.moduleRunning module n hn
    show n + σ.inFlight.inModule module ≤ cap
    rw [h.inFlight, hzero]
    show (0 : Int) + 0 ≤ cap
    omega

end Steps

/-- In every run with one run loop in which every start finds room, the limits hold in every state. -/
theorem limits_kept (c : SpawnConfig) (sha256 : List UInt8 → String) (σ : RunLoop)
    (h : Runs RunLoop.Start (fun σ st => st.exec c sha256 σ)
      (fun σ st => LoopStep.Single σ st ∧ LoopStep.HasRoom σ st) σ) :
    σ.Limited := by
  have hkept : σ.futures.store.Schema ∧ σ.Reserved := by
    refine h.invariant (I := fun σ => σ.futures.store.Schema ∧ σ.Reserved) (fun σ hstart => ?_) fun σ st hσ hst => ?_
    · exact ⟨hstart.futures.store.schema, hstart.reserved⟩
    · refine ⟨schema_exec hσ.1 fun other hother => ?_, reserved_exec hσ.2 hσ.1 hst.1 hst.2⟩
      subst hother
      exact hst.1.spawns
  obtain ⟨_, hreserved⟩ := hkept
  refine ⟨?_, fun group limit hlimit => ?_, fun module cap n hcap hn => ?_⟩
  · have hactive := hreserved.active
    omega
  · have hgroup := hreserved.group group limit hlimit
    omega
  · have hmodule := hreserved.module module cap n hcap hn
    omega

/-! ### Two runs -/

def loopStart (maxConcurrency : Nat) (groupLimits : GroupLimits) (moduleCaps : StringMap Nat) : RunLoop where
  futures := futuresStart
  maxConcurrency := maxConcurrency
  groupLimits := groupLimits
  moduleCaps := moduleCaps
  finalizers := []
  max := 0
  free := 0
  budget := fun _ => 0
  inFlight := .nothing

theorem loopStart_start (maxConcurrency : Nat) (groupLimits : GroupLimits) (moduleCaps : StringMap Nat) :
    (loopStart maxConcurrency groupLimits moduleCaps).Start := ⟨futuresStart_fresh, rfl, rfl⟩

/-- A gate that only looks at the limits. -/
def plainGate : GateConfig where
  throttles := fun _ => false
  reader := none
  groupLimits := .new
  moduleCaps := ∅
  pausedGroups := []
  typeNext := fun _ => 0
  groupNext := fun _ => 0

def noTokens : GateContext where
  runningCountForGroup := fun _ => 0
  runningIo := {}
  moduleRunning := ∅
  typeRateLimits := ∅
  groupRateLimits := ∅

/-- The record of a pending task. -/
def queuedRecord (sub : TaskSubmission) (id : Int) : TaskRecord :=
  rowToTaskRecord { sub.newRow (sub.effectiveKey sampleSha256) 0 with id := id }

/-- The slow loop starts a task. -/
private def dispatchSlow (task : TaskRecord) : List LoopStep :=
  [.load, .look 0, .admitCandidate task plainGate noTokens, .claim 0 ⟨0, 0⟩, .spawn true 0, .spawn true 0, .finish]

def runLoop (σ : RunLoop) (steps : List LoopStep) : RunLoop :=
  steps.foldl (fun σ st => st.exec threeRetries sampleSha256 σ) σ

/-- A task of a group with one slot and a module with one slot. -/
private def limitedSub : TaskSubmission := { TaskSubmission.new "media::a" with groupKey := some "g" }

private def limitedStart : RunLoop := loopStart 2 (GroupLimits.new.setLimit "g" 1) (AList.insert "media" 1 ∅)

private def limitedRun : List LoopStep :=
  .other (.store (.submitDirect limitedSub 0)) :: dispatchSlow (queuedRecord limitedSub 1)

theorem limitedRun_limited : (runLoop limitedStart limitedRun).futures.store.runningCountForGroup "g" = 1 ∧
    (runLoop limitedStart limitedRun).Limited := by
  refine ⟨by decide +kernel, limits_kept threeRetries sampleSha256 _ (Runs.list (.start (loopStart_start ..))
    limitedRun ?_)⟩
  refine ⟨⟨rfl, trivial⟩, ⟨trivial, trivial⟩, ⟨trivial, trivial⟩, ⟨trivial, trivial⟩, ⟨trivial, ?_⟩,
    ⟨trivial, trivial⟩, ⟨trivial, trivial⟩, ⟨trivial, trivial⟩, trivial⟩
  intro task hflight r hr _ _
  have hgroup : r.groupKey = some "g" := by
    have hrows : ∀ r ∈ (runLoop limitedStart (limitedRun.take 4)).futures.store.tasks, r.groupKey = some "g" := by
      decide +kernel
    exact hrows r hr
  have hadmitted : (runLoop limitedStart (limitedRun.take 4)).inFlight = .admitted (queuedRecord limitedSub 1) := by
    rfl
  obtain rfl : queuedRecord limitedSub 1 = task := InFlight.admitted.inj (hadmitted.symm.trans hflight)
  rw [hgroup]
  rfl

/-- The steps that change no limit and start nothing for other parties. -/
private def LoopStep.plain : LoopStep → Bool
  | .other (.store a) => !a.starts
  | .other st => !st.isSpawn
  | .configure .. => false
  | _ => true

private theorem single_of_plain {σ : RunLoop} {st : LoopStep} (h : st.plain = true) : st.Single σ := by
  cases st with
  | other st =>
    cases st with
    | store a =>
      have hstarts : a.starts = false := by simpa [LoopStep.plain] using h
      exact hstarts
    | spawn task phase => cases h
    | _ => rfl
  | configure maxConcurrency groupLimits moduleCaps => cases h
  | _ => trivial

private def childOfFirst : TaskSubmission := { TaskSubmission.new "b" with parentId := some 1 }

/-- A parent waits for its child, another task takes the slot of the child, and the parent is finalized. -/
private def finalizerRun : List LoopStep :=
  ([.other (.store (.submitDirect (.new "a") 0))] : List LoopStep) ++ dispatchSlow (queuedRecord (.new "a") 1) ++
    ([.other (.store (.submitDirect childOfFirst 0)), .other (.returns 0 (.ok none) {} 0),
      .other (.countChildren 0 false),
      .other (.setWaiting 0 false)] : List LoopStep) ++ dispatchSlow (queuedRecord childOfFirst 2) ++
    ([.other (.store (.submitDirect (.new "c") 0)), .other (.returns 1 (.ok none) {} 0),
      .other (.countChildren 1 false)] : List LoopStep) ++
    dispatchSlow (queuedRecord (.new "c") 3) ++
    ([.other .drainCompletions, .other (.completeBatch 0 false 0), .finalizerReady 1, .finalize 1 0,
      .spawn true 0] : List LoopStep)

/-- With one slot, the finalizer runs beside the task that has taken it. -/
theorem finalizer_exceeds_max_concurrency :
    ¬ ∀ (c : SpawnConfig) (sha256 : List UInt8 → String) (σ : RunLoop),
      Runs RunLoop.Start (fun σ st => st.exec c sha256 σ) LoopStep.Single σ → σ.Limited := by
  intro h
  have hrun : Runs RunLoop.Start (fun σ st => st.exec threeRetries sampleSha256 σ) LoopStep.Single
      (runLoop (loopStart 1 .new ∅) finalizerRun) := by
    refine Runs.list (.start (loopStart_start ..)) finalizerRun (Along.of_mem fun σ st hst => single_of_plain ?_)
    have hplain : finalizerRun.all LoopStep.plain = true := rfl
    exact List.all_eq_true.1 hplain st hst
  have hactive := (h threeRetries sampleSha256 _ hrun).active
  have htwo : (runLoop (loopStart 1 .new ∅) finalizerRun).futures.active.length = 2 := by decide +kernel
  have hone : (runLoop (loopStart 1 .new ∅) finalizerRun).maxConcurrency = 1 := by decide +kernel
  rw [htwo, hone] at hactive
  omega

end Taskmill
