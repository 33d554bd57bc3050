import Taskmill.Scheduler.Allocation

/-!
# Unused capacity

Capacity that a drained or capped group leaves over should go to the groups that can use it.  The redistribution
takes ten rounds and serves one group in each, and the rounding gives one slot to a group: with more than ten groups
something can be left over.  And a scheduler whose weights are all zero distributes nothing.
-/

namespace Taskmill

open Apportion

/-- What a group can use: what it needs, up to its limit. -/
def GroupLimits.usable (caps : GroupLimits) (g : Option String × GroupDemand) : Nat :=
  match g.1.bind caps.limitFor with
  | none => g.2.running + g.2.pending
  | some limit => min (g.2.running + g.2.pending) limit

/-- Slots are left over only if no group can use them. -/
def WorkConserving (capacity : Nat) (demand : Demand) (w : GroupWeights) (caps : GroupLimits)
    (pausedGroups : List String) :
    Prop :=
  ∃ slots, exactAllocation capacity demand w caps pausedGroups = some slots ∧
    (slots.map (·.2)).sum = min capacity ((demand.active pausedGroups).map caps.usable).sum

/-- What the whole parts of the shares leave over finds takers: it is no more than what the first ten groups with
room can take and one slot for each of the others, or the others have room for one slot only. -/
def SurplusPlaced (capacity total : Nat) (w : GroupWeights) (caps : GroupLimits)
    (groups : List (Option String × GroupDemand)) :
    Prop :=
  let rooms := groups.map fun g => (GroupInfo.start w caps capacity total groups g).room
  surplusSlots w caps capacity total groups - (firstVessels 10 rooms).sum ≤ (laterVessels 10 rooms).countP (0 < ·) ∨
    ∀ room ∈ laterVessels 10 rooms, room ≤ 1

section Conservation

variable {capacity total : Nat} {w : GroupWeights} {caps : GroupLimits} {groups : List (Option String × GroupDemand)}

/-- The minimum and the headroom after it. -/
private theorem usable_eq {g : Option String × GroupDemand}
    (hmin : ∀ limit, g.1.bind caps.limitFor = some limit → w.minSlotsFor g.1 ≤ limit) :
    caps.usable g = w.minimum g + caps.headroom g.1 g.2 (w.minimum g) := by
  have hle : w.minimum g ≤ g.2.running + g.2.pending := Nat.min_le_right ..
  have hslots : w.minimum g ≤ w.minSlotsFor g.1 := Nat.min_le_left ..
  unfold GroupLimits.usable GroupLimits.headroom
  dsimp only
  cases hlimit : g.1.bind caps.limitFor with
  | none =>
    dsimp only
    omega
  | some limit =>
    have hmin' := hmin limit hlimit
    dsimp only
    omega

/-- What a group can use: the minimum, the whole part of its share, and the room beyond it. -/
private theorem sum_usable (capacity total : Nat)
    (hmin : ∀ g ∈ groups, ∀ limit, g.1.bind caps.limitFor = some limit → w.minSlotsFor g.1 ≤ limit)
    (all : List (Option String × GroupDemand)) :
    (groups.map caps.usable).sum = (groups.map w.minimum).sum +
      ((groups.map fun g => (GroupInfo.start w caps capacity total all g).slots).sum +
        (groups.map fun g => (GroupInfo.start w caps capacity total all g).room).sum) := by
  induction groups with
  | nil => rfl
  | cons g groups ih =>
    have husable := usable_eq (w := w) (hmin g List.mem_cons_self)
    have hslots : (GroupInfo.start w caps capacity total all g).slots ≤
        (GroupInfo.start w caps capacity total all g).need :=
      (GroupInfo.init_bounded ..).slots_le
    have hneed := GroupInfo.start_need w caps capacity total all g
    have hroom : (GroupInfo.start w caps capacity total all g).room =
        (GroupInfo.start w caps capacity total all g).need - (GroupInfo.start w caps capacity total all g).slots :=
          rfl
    have hrest := ih fun g' hg' => hmin g' (List.mem_cons_of_mem _ hg')
    simp only [List.map_cons, List.sum_cons, hrest]
    omega

end Conservation

/-- The allocation is work-conserving if and only if the weights do not overflow, and the minimums already take
everything that can be used, or there are weights and the surplus finds takers. -/
theorem work_conserving_iff (capacity : Nat) (demand : Demand) (w : GroupWeights) (caps : GroupLimits)
    (pausedGroups : List String)
    (hmin : ∀ g ∈ demand.active pausedGroups, ∀ limit, g.1.bind caps.limitFor = some limit →
      w.minSlotsFor g.1 ≤ limit) :
    WorkConserving capacity demand w caps pausedGroups ↔
      ∃ total, w.total ((demand.active pausedGroups).map (·.1)) = some total ∧
        (min capacity ((demand.active pausedGroups).map caps.usable).sum ≤
          ((demand.active pausedGroups).map w.minimum).sum ∨
          0 < total ∧ SurplusPlaced capacity total w caps (demand.active pausedGroups)) := by
  unfold WorkConserving
  cases htotal : w.total ((demand.active pausedGroups).map (·.1)) with
  | none =>
    simp [exactAllocation_none htotal]
  | some total =>
    have husable := sum_usable capacity total hmin (demand.active pausedGroups)
    by_cases hpos : 0 < total ∧ ((demand.active pausedGroups).map w.minimum).sum < capacity
    · obtain ⟨dealt, hdealt, hshares⟩ := exactAllocation_shares caps htotal hpos.1 hpos.2
      have hfloor := sum_slots_le caps capacity htotal hpos.1
      have hplaced : SurplusPlaced capacity total w caps (demand.active pausedGroups) ↔ _ := hdealt.sum_eq_iff.symm
      have hlen : dealt.length = (demand.active pausedGroups).length := by
        rw [hdealt.length, List.length_map]
      have hsum := sum_values w.minimum
        (fun g => (GroupInfo.start w caps capacity total (demand.active pausedGroups) g).slots) hlen
      have hroom := hdealt.le_rooms.sum_le_sum
      have hall := hdealt.sum_le
      unfold surplusSlots at hplaced hall
      rw [hshares]
      simp only [Option.some.injEq, exists_eq_left', hplaced]
      rw [hsum]
      omega
    · have hnone : total = 0 ∨ capacity ≤ ((demand.active pausedGroups).map w.minimum).sum := by omega
      rw [exactAllocation_minimums htotal hnone]
      have hvalues : (List.zipWith (fun g n => (g.1, n)) (demand.active pausedGroups)
          (pour capacity ((demand.active pausedGroups).map w.minimum))).map (·.2) =
            pour capacity ((demand.active pausedGroups).map w.minimum) :=
        List.ext_getElem (by simp [length_pour]) fun i hi hi' => by simp
      simp only [Option.some.injEq, exists_eq_left', hvalues, sum_pour]
      omega

/-- Two groups, one of which has only two tasks. -/
private def drained : Demand := mergeDemand [] [(some "A", 2), (some "B", 100)]

theorem drained_conserving : exactAllocation 10 drained .new .new [] = some [(some "B", 8), (some "A", 2)] ∧
    WorkConserving 10 drained .new .new [] := by
  have hmin : ∀ g ∈ drained.active [], ∀ limit, g.1.bind GroupLimits.new.limitFor = some limit →
      GroupWeights.new.minSlotsFor g.1 ≤ limit := by
    intro g _ limit _
    rw [GroupWeights.minSlotsFor_new]
    exact Nat.zero_le limit
  refine ⟨by decide +kernel, (work_conserving_iff 10 drained .new .new [] hmin).2 ⟨2, by
    decide +kernel, .inr ⟨by decide, ?_⟩⟩⟩
  unfold SurplusPlaced
  decide +kernel

/-- Twelve groups of equal weight: ten of them can use one slot beyond the whole part of their shares, one nothing
at all, and the last one all of the capacity. -/
private def twelveGroups : Demand where
  groups := (["a", "b", "c", "d", "e", "f", "g", "h", "i", "j"].map fun key => (some key, ⟨0, 9⟩)) ++
    [(some "k", ⟨0, 0⟩), (some "l", ⟨0, 100⟩)]
  nodup := by decide

/-- One slot stays unused although there is demand for it. -/
theorem slot_left_over :
    ¬ ∀ (capacity : Nat) (demand : Demand) (w : GroupWeights) (caps : GroupLimits) (pausedGroups : List String),
      (∀ g ∈ demand.active pausedGroups, ∀ limit, g.1.bind caps.limitFor = some limit → w.minSlotsFor g.1 ≤ limit) →
        WorkConserving capacity demand w caps pausedGroups := by
  intro h
  obtain ⟨slots, hslots, hsum⟩ := h 100 twelveGroups .new .new [] fun _ _ limit hlimit => by
    rw [GroupWeights.minSlotsFor_new]
    exact Nat.zero_le limit
  have hlost : (exactAllocation 100 twelveGroups .new .new []).map (fun slots => (slots.map (·.2)).sum) =
      some 99 := by
    decide +kernel
  rw [hslots, Option.map_some, hsum] at hlost
  revert hlost
  decide +kernel

end Taskmill
