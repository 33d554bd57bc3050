import Mathlib
import Taskmill.Dispatchers
import Taskmill.Scheduler.Gate

/-!
# Admission

`DefaultDispatchGate::admit` (`src/scheduler/gate.rs`) at one instant: the pressure and what the resource reader has
measured do not change, and the buckets are not refilled.  The comparisons of floating-point numbers are parameters.
-/

namespace Taskmill

/-- `ResourceSnapshot`, as the gate looks at it -/
structure ResourceSnapshot where
  /-- no disk throughput has been measured -/
  diskIdle : Bool
  netIdle : Bool
  /-- the bytes fit into 80% of the capacity of the budget window -/
  readFits : Int → Bool
  writeFits : Int → Bool
  rxFits : Int → Bool
  txFits : Int → Bool

/-- What the gate is configured with. -/
structure GateConfig where
  /-- `should_throttle` at the current pressure -/
  throttles : Priority → Bool
  /-- `resource_reader` -/
  reader : Option ResourceSnapshot
  groupLimits : GroupLimits
  moduleCaps : StringMap Nat
  pausedGroups : List String
  /-- when a token comes for a task type and for a group that have none left -/
  typeNext : String → Int
  groupNext : String → Int

/-- What the gate reads that a dispatch changes. -/
structure GateContext where
  /-- `running_count_for_group` -/
  runningCountForGroup : String → Nat
  /-- `running_io_totals` and `running_net_io_totals` -/
  runningIo : IoBudget
  moduleRunning : StringMap Nat
  typeRateLimits : RateLimits
  groupRateLimits : RateLimits

/-- `RateLimits::try_acquire` -/
def RateLimits.tryAcquire (limits : RateLimits) (scope : String) : Option Bool × RateLimits :=
  match limits.lookup scope with
  | none => (none, limits)
  | some bucket =>
    if 1 ≤ bucket.available then
      (some true, limits.insert scope { bucket with available := bucket.available - 1 })
    else (some false, limits)

namespace GateConfig

/-- `has_io_headroom` -/
def hasIoHeadroom (g : GateConfig) (ctx : GateContext) (task : TaskRecord) : Bool :=
  match g.reader with
  | none => true
  | some snapshot =>
    snapshot.diskIdle ||
      snapshot.readFits (ctx.runningIo.diskRead + task.expectedIo.diskRead) &&
        snapshot.writeFits (ctx.runningIo.diskWrite + task.expectedIo.diskWrite)

/-- `has_net_io_headroom` -/
def hasNetIoHeadroom (g : GateConfig) (ctx : GateContext) (task : TaskRecord) : Bool :=
  if task.expectedIo.netRx == 0 && task.expectedIo.netTx == 0 then true
  else
    match g.reader with
    | none => true
    | some snapshot =>
      snapshot.netIdle ||
        snapshot.rxFits (ctx.runningIo.netRx + task.expectedIo.netRx) &&
          snapshot.txFits (ctx.runningIo.netTx + task.expectedIo.netTx)

/-- The group of the task has reached its limit. -/
def groupSaturated (g : GateConfig) (ctx : GateContext) (task : TaskRecord) : Bool :=
  match task.groupKey with
  | none => false
  | some group =>
    match g.groupLimits.limitFor group with
    | none => false
    | some limit => limit ≤ ctx.runningCountForGroup group

/-- The module of the task has reached its cap. -/
def moduleSaturated (g : GateConfig) (ctx : GateContext) (task : TaskRecord) : Bool :=
  match moduleName task.taskType with
  | none => false
  | some module =>
    match g.moduleCaps.lookup module with
    | none => false
    | some cap => cap ≤ (ctx.moduleRunning.lookup module).getD 0

/-- The checks that take no token. -/
def denies (g : GateConfig) (ctx : GateContext) (task : TaskRecord) : Bool :=
  g.throttles task.priority || !g.hasIoHeadroom ctx task || !g.hasNetIoHeadroom ctx task ||
    task.groupKey.any g.pausedGroups.contains || g.groupSaturated ctx task || g.moduleSaturated ctx task

/-- `admit`, with what is left of the tokens -/
def admission (g : GateConfig) (ctx : GateContext) (task : TaskRecord) : Admission × GateContext :=
  if g.denies ctx task then (.deny, ctx)
  else
    match ctx.typeRateLimits.tryAcquire task.taskType with
    | (some false, _) => (.rateLimited (g.typeNext task.taskType), ctx)
    | (_, types) =>
      let ctx := { ctx with typeRateLimits := types }
      match task.groupKey with
      | none => (.admitted, ctx)
      | some group =>
        match ctx.groupRateLimits.tryAcquire group with
        | (some false, _) => (.rateLimited (g.groupNext group), ctx)
        | (_, groups) => (.admitted, { ctx with groupRateLimits := groups })

end GateConfig

/-- The counter of the module goes up, if the module is known. -/
def countRunning (moduleRunning : StringMap Nat) (taskType : String) : StringMap Nat :=
  match moduleName taskType with
  | none => moduleRunning
  | some module =>
    match moduleRunning.lookup module with
    | none => moduleRunning
    | some n => moduleRunning.insert module (n + 1)

def IoBudget.add (a b : IoBudget) : IoBudget where
  diskRead := a.diskRead + b.diskRead
  diskWrite := a.diskWrite + b.diskWrite
  netRx := a.netRx + b.netRx
  netTx := a.netTx + b.netTx

/-- `SELECT SUM(…) FROM tasks WHERE status = 'running'` -/
def Store.sumRunning (s : Store) (f : IoBudget → Int) : Int :=
  ((s.tasks.filter (·.status == .running)).map fun r => f r.expectedIo).sum

/-- `running_io_totals` and `running_net_io_totals` -/
def Store.runningIo (s : Store) : IoBudget where
  diskRead := s.sumRunning (·.diskRead)
  diskWrite := s.sumRunning (·.diskWrite)
  netRx := s.sumRunning (·.netRx)
  netTx := s.sumRunning (·.netTx)

/-- `running_count_for_group` -/
def Store.runningCountForGroup (s : Store) (group : String) : Nat :=
  s.tasks.countP fun r => r.groupKey == some group && r.status == .running

end Taskmill
