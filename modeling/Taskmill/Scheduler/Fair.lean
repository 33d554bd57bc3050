import Taskmill.Apportion.Pour
import Taskmill.Scheduler.RunLoop
import Mathlib.Algebra.Order.Floor.Semiring
import Mathlib.Data.Rat.Floor

/-!
# The shares of fair dispatch

`compute_allocation` (`src/scheduler/fair.rs`) with its shares as exact rational numbers: the minimums, the shares
by weight within need and limit, the redistribution of what they leave over, and the rounding by largest remainder.
-/

namespace Taskmill

/-- The keys of `merge_demand` are those of a hash map. -/
structure Demand where
  groups : List (Option String × GroupDemand)
  nodup : (groups.map (·.1)).Nodup

/-- `merge_demand` -/
def mergeDemand (running pending : List (Option String × Nat)) : Demand :=
  let counted : AList fun _ : Option String => GroupDemand :=
    running.foldl (fun m e => m.insert e.1 { (m.lookup e.1).getD ⟨0, 0⟩ with running := e.2 }) ∅
  let merged := pending.foldl (fun m e => m.insert e.1 { (m.lookup e.1).getD ⟨0, 0⟩ with pending := e.2 }) counted
  { groups := merged.entries.map fun e => (e.1, e.2)
    nodup := by
      rw [List.map_map]
      exact merged.nodupKeys }

/-- `weight_for`; tasks without a group have the default weight. -/
def GroupWeights.weightFor (w : GroupWeights) (group : Option String) : UInt32 :=
  (group.bind w.weights.lookup).getD w.defaultWeight

/-- The sum of the weights has 32 bits, and overflows with a panic. -/
def GroupWeights.total (w : GroupWeights) (groups : List (Option String)) : Option Nat :=
  let sum := (groups.map fun group => (w.weightFor group).toNat).sum
  if sum < 2 ^ 32 then some sum else none

/-- `GroupInfo`, where a missing `cap` is `usize::MAX` -/
structure GroupInfo where
  key : Option String
  share : ℚ
  need : Nat
  cap : Option Nat

namespace GroupInfo

/-- The entry of a group after the minimums. -/
def init (w : GroupWeights) (caps : GroupLimits) (remaining total : Nat) (g : Option String × GroupDemand × Nat) :
    GroupInfo :=
  let need := g.2.1.running + g.2.1.pending - g.2.2
  let share : ℚ := min (remaining * (w.weightFor g.1).toNat / total) need
  match g.1.bind caps.limitFor with
  | none => { key := g.1, share := max share 0, need := need, cap := none }
  | some limit =>
    { key := g.1
      share := max (min share (limit - g.2.2 : Nat)) 0
      need := min need (limit - g.2.2)
      cap := some (limit - g.2.2) }

/-- `share as usize` -/
def slots (info : GroupInfo) : Nat := ⌊info.share⌋₊

/-- What the whole part of the share leaves of the need. -/
def room (info : GroupInfo) : Nat := info.need - info.slots

/-- `can_take` -/
def canTake (info : GroupInfo) : Nat :=
  match info.cap with
  | none => info.room
  | some cap => min info.room (cap - info.slots)

/-- The larger remainder comes first, and the smaller key if they are equal; no key is smaller than any. -/
def before (a b : GroupInfo) : Prop :=
  Int.fract b.share < Int.fract a.share ∨
    (Int.fract a.share = Int.fract b.share ∧
      match a.key, b.key with
      | none, _ => True
      | some _, none => False
      | some a, some b => a ≤ b)

instance : DecidableRel before := fun a b => by
  unfold before
  refine @instDecidableOr _ _ _ (@instDecidableAnd _ _ _ ?_)
  split <;> infer_instance

end GroupInfo

/-- `floored_sum` -/
def flooredSum (infos : List GroupInfo) : Nat := (infos.map GroupInfo.slots).sum

/-- One round of the redistribution: the surplus goes to the first group with headroom. -/
def giveSurplus (surplus : Nat) : List GroupInfo → Option (List GroupInfo)
  | [] => none
  | info :: infos =>
    if 0 < info.room ∧ info.share < info.need then
      some ({ info with share := min (info.share + min surplus info.room) info.need } :: infos)
    else (giveSurplus surplus infos).map (info :: ·)

/-- The redistribution. -/
def redistribute (remaining : Nat) : Nat → List GroupInfo → List GroupInfo
  | 0, infos => infos
  | rounds + 1, infos =>
    let surplus := remaining - flooredSum infos
    if surplus = 0 then infos
    else
      match giveSurplus surplus infos with
      | none => infos
      | some infos => redistribute remaining rounds infos

/-- The last loop: the whole parts, and one of the leftover slots for each group that can take it. -/
def roundShares : Nat → List GroupInfo → List (Option String × Nat)
  | _, [] => []
  | leftover, info :: infos =>
    if 0 < leftover ∧ 0 < info.canTake then (info.key, info.slots + 1) :: roundShares (leftover - 1) infos
    else (info.key, info.slots) :: roundShares leftover infos

/-- The second step of `compute_allocation`: what the weights add to the minimums. -/
def distribute (w : GroupWeights) (caps : GroupLimits) (remaining total : Nat)
    (granted : List (Option String × GroupDemand × Nat)) : List (Option String × Nat) :=
  let infos := redistribute remaining 10 (granted.map (GroupInfo.init w caps remaining total))
  roundShares (remaining - flooredSum infos) (infos.insertionSort GroupInfo.before)

/-- The groups that are not paused. -/
def Demand.active (demand : Demand) (pausedGroups : List String) : List (Option String × GroupDemand) :=
  demand.groups.filter fun g => !g.1.any pausedGroups.contains

/-- `compute_allocation` in exact arithmetic. -/
def exactAllocation (capacity : Nat) (demand : Demand) (w : GroupWeights) (caps : GroupLimits)
    (pausedGroups : List String) :
    Option (List (Option String × Nat)) :=
  let active := demand.active pausedGroups
  let granted := grantMinimums w capacity active
  let remaining := capacity - (granted.map (·.2.2)).sum
  match w.total (active.map (·.1)) with
  | none => none
  | some total =>
    if 0 < total ∧ 0 < remaining then
      let shares := distribute w caps remaining total granted
      some (granted.map fun g => (g.1, g.2.2 + (shares.lookup g.1).getD 0))
    else some (granted.map fun g => (g.1, g.2.2))

end Taskmill
