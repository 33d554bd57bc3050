import Taskmill.Scheduler.Admission
import Taskmill.Scheduler.Slots

/-!
# The run loop

The ways in which the run loop starts executions (`src/scheduler/run_loop.rs`): the batches of fast dispatch, the
slow loop, the three passes of fair dispatch with the slots that `compute_allocation` gives to each group
(`src/scheduler/fair.rs`), and the finalizers.  Each of them reads counters first and claims and spawns later; the
other parties of `Futures` go on in between.  There is one run loop: nobody else claims a row or spawns a future.
-/

namespace Taskmill

open Transact

/-! ### The allocation of slots -/

/-- `GroupDemand` -/
structure GroupDemand where
  running : Nat
  pending : Nat

/-- The count of a group in `running_counts_per_group`; tasks without a group form a group, too. -/
def Store.runningIn (s : Store) (group : Option String) : Nat :=
  s.tasks.countP fun r => r.groupKey == group && r.status == .running

/-- The entry of `merge_demand` for a group. -/
def Store.demand (s : Store) (now : Int) (group : Option String) : GroupDemand where
  running := s.runningIn group
  pending := s.tasks.countP fun r => r.groupKey == group && r.status == .pending && r.runAfter.all (· ≤ now)

/-- `min_slots_for`; tasks without a group have no minimum. -/
def GroupWeights.minSlotsFor (w : GroupWeights) (group : Option String) : Nat := (group.bind w.minSlots.lookup).getD 0

/-- The first step of `compute_allocation`: the minimums, as long as there are slots. -/
def grantMinimums (w : GroupWeights) :
    Nat → List (Option String × GroupDemand) → List (Option String × GroupDemand × Nat)
  | _, [] => []
  | remaining, (group, demand) :: rest =>
    let grant := min (min (w.minSlotsFor group) (demand.running + demand.pending)) remaining
    (group, demand, grant) :: grantMinimums w (remaining - grant) rest

/-- What a group still needs after the minimums, within its limit. -/
def GroupLimits.headroom (caps : GroupLimits) (group : Option String) (demand : GroupDemand) (grant : Nat) : Nat :=
  let need := demand.running + demand.pending - grant
  match group.bind caps.limitFor with
  | none => need
  | some limit => min need (limit - grant)

/-- `compute_allocation`.  What the weights give to a group is computed with floating-point numbers, rounded and
bounded by the headroom; `share` is that number before the bound. -/
def computeAllocation (capacity : Nat) (groups : List (Option String × GroupDemand)) (w : GroupWeights)
    (caps : GroupLimits) (pausedGroups : List String) (share : Option String → Nat) : List (Option String × Nat) :=
  (grantMinimums w capacity (groups.filter fun g => !g.1.any pausedGroups.contains)).map fun g =>
    (g.1, g.2.2 + min (share g.1) (caps.headroom g.1 g.2.1 g.2.2))

/-! ### The loop -/

/-- The tasks that the loop is about to start. -/
inductive InFlight where
  | nothing
  /-- a candidate has passed the gate -/
  | admitted (task : TaskRecord)
  /-- rows that run and have no future yet -/
  | claimed (tasks : List (TaskRecord × ExecutionPhase))

structure RunLoop where
  futures : Futures
  maxConcurrency : Nat
  groupLimits : GroupLimits
  moduleCaps : StringMap Nat
  /-- `pending_finalizers` -/
  finalizers : List Int
  /-- `max`, as it was read at the start of a dispatch -/
  max : Nat
  /-- how many tasks may be started since the active tasks were counted -/
  free : Nat
  /-- how many tasks of a group the first pass of fair dispatch may start -/
  budget : Option String → Nat
  inFlight : InFlight

/-- The counters, as the gate reads them. -/
def StringMap.toNat (m : StringMap Int) : StringMap Nat where
  entries := m.entries.map fun e => ⟨e.1, e.2.toNat⟩
  nodupKeys := by
    have hkeys : (m.entries.map fun e : Sigma fun _ : String => Int =>
      (⟨e.1, e.2.toNat⟩ : Sigma fun _ : String => Nat)).keys =
        m.entries.keys := by
      simp [List.keys]
    unfold List.NodupKeys
    rw [hkeys]
    exact m.nodupKeys

namespace RunLoop

variable (σ : RunLoop)

/-- The gate looks at the limits and the counters; pressure, IO, paused groups and rate limits are up to `gate` and
`ctx`. -/
def admits (gate : GateConfig) (ctx : GateContext) (limits : GroupLimits) (task : TaskRecord) : Bool :=
  ({ gate with groupLimits := limits, moduleCaps := σ.moduleCaps }.admission
    { ctx with
      runningCountForGroup := σ.futures.store.runningCountForGroup
      moduleRunning := StringMap.toNat σ.futures.moduleRunning } task).1 == .admitted

/-- No dispatch is under way. -/
def rest : RunLoop := { σ with max := 0, free := 0, budget := fun _ => 0 }

end RunLoop

inductive LoopStep where
  /-- a step of another party -/
  | other (st : FutureStep)
  /-- `set_max_concurrency`, `set_group_limit` and the other calls that change a limit -/
  | configure (maxConcurrency : Nat) (groupLimits : GroupLimits) (moduleCaps : StringMap Nat)
  /-- a parent is ready for its finalize phase -/
  | finalizerReady (id : Int)
  /-- a dispatch starts and reads `max_concurrency` -/
  | load
  /-- the active tasks are counted; fair dispatch adds those it has started -/
  | look (dispatched : Nat)
  /-- fair dispatch computes its slots, for the groups in the order of the hash map -/
  | allocate (groups : List (Option String)) (w : GroupWeights) (pausedGroups : List String)
    (share : Option String → Nat)
      (now : Int)
  /-- `pop_next` and `pop_next_batch` of fast dispatch -/
  | pop (limit : Nat) (aging : Option AgingParams) (now : Int)
  /-- a candidate of the slow loop, the greedy or the urgent pass at the gate -/
  | admitCandidate (task : TaskRecord) (gate : GateConfig) (ctx : GateContext)
  /-- a candidate of the first pass at the gate, which skips the limit of the group -/
  | admitAllocated (task : TaskRecord) (gate : GateConfig) (ctx : GateContext)
  | claim (now : Int) (readings : Readings)
  /-- `spawn_dispatched_task` and the end of `try_dispatch_finalizer` for the next claimed task -/
  | spawn (registered : Bool) (now : Int)
  /-- `try_dispatch_finalizer`, up to its `spawn_task` -/
  | finalize (id now : Int)
  /-- the dispatch is over -/
  | finish

namespace LoopStep

variable (c : SpawnConfig) (sha256 : List UInt8 → String) (σ : RunLoop)

/-- A task without an executor fails. -/
def failTask (task : TaskRecord) (phase : ExecutionPhase) (now : Int) : Action :=
  match phase with
  | .execute => .failWithRecord task s!"no executor registered for type '{task.taskType}'" false 0 {} {} now
  | .finalize => .fail task.id "no executor for finalize" false 0 {} {} now

def exec : LoopStep → RunLoop
  | .other st => { σ with futures := st.exec c sha256 σ.futures }
  | .configure maxConcurrency groupLimits moduleCaps =>
    { σ with maxConcurrency := maxConcurrency, groupLimits := groupLimits, moduleCaps := moduleCaps }
  | .finalizerReady id => { σ with finalizers := id :: σ.finalizers }
  | .load => { σ.rest with max := σ.maxConcurrency }
  | .look dispatched =>
    match σ.inFlight with
    | .nothing => { σ with free := σ.max - (σ.futures.active.length + dispatched) }
    | _ => σ
  | .allocate groups w pausedGroups share now =>
    match σ.inFlight with
    | .nothing =>
      let demand := groups.map fun group => (group, σ.futures.store.demand now group)
      let allocation := computeAllocation σ.max demand w σ.groupLimits pausedGroups share
      { σ with budget := fun group => (List.lookup group allocation).getD 0 - σ.futures.store.runningIn group }
    | _ => σ
  | .pop limit aging now =>
    match σ.inFlight, popNextBatch (min limit σ.free) aging now σ.futures.store with
    | .nothing, (.ok tasks, s) =>
      { σ with
        futures := σ.futures.write s
        free := 0
        inFlight := .claimed (tasks.map fun task => (task, .execute)) }
    | _, _ => σ
  | .admitCandidate task gate ctx =>
    match σ.inFlight with
    | .nothing =>
      if 0 < σ.free ∧ σ.admits gate ctx σ.groupLimits task = true then
        { σ with free := σ.free - 1, budget := fun _ => 0, inFlight := .admitted task }
      else σ
    | _ => σ
  | .admitAllocated task gate ctx =>
    match σ.inFlight with
    | .nothing =>
      if 0 < σ.free ∧ 0 < σ.budget task.groupKey ∧ σ.admits gate ctx .new task = true then
        { σ with
          free := σ.free - 1
          budget := Function.update σ.budget task.groupKey (σ.budget task.groupKey - 1)
          inFlight := .admitted task }
      else σ
    | _ => σ
  | .claim now readings =>
    match σ.inFlight with
    | .admitted task =>
      match claimTask task.id now σ.futures.store with
      | (.ok true, s) =>
        { σ with futures := σ.futures.write s, inFlight := .claimed [(task.patched readings, .execute)] }
      | (_, s) => { σ with futures := σ.futures.write s, inFlight := .nothing }
    | _ => σ
  | .spawn registered now =>
    match σ.inFlight with
    | .claimed ((task, phase) :: tasks) =>
      if registered then { σ with futures := σ.futures.spawn task phase, inFlight := .claimed tasks }
      else
        { σ with
          futures := σ.futures.write ((failTask task phase now).exec sha256 σ.futures.store)
          inFlight := .claimed tasks }
    | .claimed [] => { σ with inFlight := .nothing }
    | _ => σ
  | .finalize id now =>
    match σ.inFlight with
    | .nothing =>
      if id ∈ σ.finalizers then
        let s := σ.futures.store.setRunningForFinalize id now
        { σ.rest with
          futures := σ.futures.write s
          finalizers := σ.finalizers.erase id
          inFlight := .claimed ((s.taskById id).toList.map fun row => (rowToTaskRecord row, .finalize)) }
      else σ
    | _ => σ
  | .finish => σ.rest

end LoopStep

/-- The scheduler has just started. -/
structure RunLoop.Start (σ : RunLoop) : Prop where
  futures : σ.futures.Fresh
  rest : σ.rest = σ
  inFlight : σ.inFlight = .nothing

/-- The three limits. -/
structure RunLoop.Limited (σ : RunLoop) : Prop where
  active : σ.futures.active.length ≤ σ.maxConcurrency
  group : ∀ group limit, σ.groupLimits.limitFor group = some limit →
    σ.futures.store.runningCountForGroup group ≤ limit
  module : ∀ module cap n, σ.moduleCaps.lookup module = some cap →
    σ.futures.moduleRunning.lookup module = some n → n ≤ cap

/-- The steps that make a row run. -/
def Action.starts : Action → Bool
  | .update (.setRunningForFinalize ..) => true
  | a => a.isClaim

/-- One run loop starts the executions, and a limit is not lowered below the count that it limits. -/
def LoopStep.Single (σ : RunLoop) : LoopStep → Prop
  | .other (.store a) => a.starts = false
  | .other st => st.isSpawn = false
  | .configure maxConcurrency groupLimits moduleCaps =>
    { σ with maxConcurrency := maxConcurrency, groupLimits := groupLimits, moduleCaps := moduleCaps }.Limited
  | _ => True

end Taskmill
