import Taskmill.Scheduler.Allocation

/-!
# The order of the demand

The demand comes out of a hash map, in any order.  The first group gets its minimum and the surplus before all
others, so the slots are the same in every order only if every group gets what it would get in the first place
(`firstShare`).
-/

namespace Taskmill

open Apportion

/-- What a group gets if it is the first one. -/
def firstShare (capacity total : Nat) (w : GroupWeights) (caps : GroupLimits)
    (groups : List (Option String × GroupDemand)) (g : Option String × GroupDemand) : Nat :=
  if total = 0 ∨ capacity ≤ (groups.map w.minimum).sum then min capacity (w.minimum g)
  else
    let start := GroupInfo.start w caps capacity total groups g
    w.minimum g + (start.slots + min (surplusSlots w caps capacity total groups) start.room)

/-- Every group finds the minimum and the room it would find as the first one: the minimums fit into the capacity,
what the groups can take of the surplus fits into the surplus, and no more than ten groups have room for it, or none
has room for more than one slot. -/
def Plenty (capacity : Nat) (w : GroupWeights) (caps : GroupLimits)
    (groups : List (Option String × GroupDemand)) : Prop :=
  (groups.map fun g => min capacity (w.minimum g)).sum ≤ capacity ∧
    ∀ total, w.total (groups.map (·.1)) = some total → 0 < total →
      let rooms := groups.map fun g => (GroupInfo.start w caps capacity total groups g).room
      let surplus := surplusSlots w caps capacity total groups
      (rooms.map (min surplus)).sum ≤ surplus ∧
        (surplus = 0 ∨ rooms.countP (0 < ·) ≤ 10 ∨ ∀ room ∈ rooms, room ≤ 1)

/-- The slots of every group are the same in every order of the demand. -/
def OrderFree (capacity : Nat) (demand : Demand) (w : GroupWeights) (caps : GroupLimits)
    (pausedGroups : List String) : Prop :=
  ∀ demand' : Demand, demand'.groups.Perm demand.groups → ∀ key : Option String,
    (exactAllocation capacity demand' w caps pausedGroups).map (List.lookup key) =
      (exactAllocation capacity demand w caps pausedGroups).map (List.lookup key)

/-! ### Lists with distinct keys -/

private theorem lookup_perm {l l' : List (Option String × Nat)} (h : l.Perm l') (hkeys : (l.map (·.1)).Nodup)
    (key : Option String) : l.lookup key = l'.lookup key := by
  induction h with
  | nil => rfl
  | cons entry _ ih =>
    rw [List.map_cons, List.nodup_cons] at hkeys
    rw [List.lookup_cons, List.lookup_cons, ih hkeys.2]
  | swap entry entry' l =>
    have hne : entry'.1 ≠ entry.1 := by
      intro heq
      simp [heq] at hkeys
    rw [List.lookup_cons, List.lookup_cons, List.lookup_cons, List.lookup_cons]
    cases hfirst : key == entry.1 with
    | false => rfl
    | true =>
      rw [beq_iff_eq] at hfirst
      rw [hfirst, beq_eq_false_iff_ne.2 hne.symm]
  | trans hp _ ih ih' => exact (ih hkeys).trans (ih' ((hp.map _).nodup_iff.1 hkeys))

private theorem eq_map_of_lookup {groups : List (Option String × GroupDemand)} {slots : List (Option String × Nat)}
    {f : Option String × GroupDemand → Nat} (hentries : slots.map (·.1) = groups.map (·.1))
    (hkeys : (groups.map (·.1)).Nodup) (h : ∀ g ∈ groups, slots.lookup g.1 = some (f g)) :
    slots = groups.map fun g => (g.1, f g) := by
  induction groups generalizing slots with
  | nil => simpa using hentries
  | cons g groups ih =>
    cases slots with
    | nil => cases hentries
    | cons entry slots =>
      obtain ⟨hentry, hrest⟩ : entry.1 = g.1 ∧ slots.map (·.1) = groups.map (·.1) := List.cons.inj hentries
      rw [List.map_cons, List.nodup_cons] at hkeys
      have hfirst := h g List.mem_cons_self
      have hvalue : entry.2 = f g := by
        rw [List.lookup_cons, beq_iff_eq.2 hentry.symm] at hfirst
        exact Option.some.inj hfirst
      have hothers : ∀ g' ∈ groups, slots.lookup g'.1 = some (f g') := by
        intro g' hg'
        have hne : g'.1 ≠ entry.1 := by
          rw [hentry]
          intro heq
          exact hkeys.1 (heq ▸ List.mem_map_of_mem hg')
        have hlookup := h g' (List.mem_cons_of_mem _ hg')
        rwa [List.lookup_cons, beq_eq_false_iff_ne.2 hne] at hlookup
      rw [List.map_cons, ← ih hrest hkeys.2 hothers, ← hvalue, ← hentry]

private theorem lookup_of_mem {groups : List (Option String × GroupDemand)} (f : Option String × GroupDemand → Nat)
    (hkeys : (groups.map (·.1)).Nodup) {g : Option String × GroupDemand} (hg : g ∈ groups) :
    (groups.map fun g => (g.1, f g)).lookup g.1 = some (f g) := by
  induction groups with
  | nil => cases hg
  | cons g' groups ih =>
    rw [List.map_cons, List.nodup_cons] at hkeys
    rw [List.map_cons, List.lookup_cons]
    rcases List.mem_cons.1 hg with rfl | hg
    · rw [beq_self_eq_true]
    · have hne : g.1 ≠ g'.1 := by
        intro heq
        exact hkeys.1 (heq ▸ List.mem_map_of_mem hg)
      rw [beq_eq_false_iff_ne.2 hne]
      exact ih hkeys.2 hg

/-! ### What does not depend on the order -/

section Order

variable {capacity total : Nat} {w : GroupWeights} {caps : GroupLimits}
    {groups groups' : List (Option String × GroupDemand)}

private theorem total_perm (h : groups'.Perm groups) : w.total (groups'.map (·.1)) = w.total (groups.map (·.1)) := by
  have hsum := ((h.map (·.1)).map fun key => (w.weightFor key).toNat).sum_eq
  unfold GroupWeights.total
  dsimp only
  rw [hsum]

private theorem minimums_perm (h : groups'.Perm groups) : (groups'.map w.minimum).sum = (groups.map w.minimum).sum :=
  (h.map w.minimum).sum_eq

private theorem start_perm (h : groups'.Perm groups) :
    GroupInfo.start w caps capacity total groups' = GroupInfo.start w caps capacity total groups := by
  funext g
  unfold GroupInfo.start
  rw [minimums_perm h]

private theorem surplus_perm (h : groups'.Perm groups) :
    surplusSlots w caps capacity total groups' = surplusSlots w caps capacity total groups := by
  unfold surplusSlots
  rw [minimums_perm h, start_perm h, (h.map fun g => (GroupInfo.start w caps capacity total groups g).slots).sum_eq]

private theorem firstShare_perm (h : groups'.Perm groups) :
    firstShare capacity total w caps groups' = firstShare capacity total w caps groups := by
  funext g
  unfold firstShare
  rw [minimums_perm h, start_perm h, surplus_perm h]

private theorem Plenty.perm (hp : Plenty capacity w caps groups) (h : groups'.Perm groups) :
    Plenty capacity w caps groups' := by
  refine ⟨?_, fun total htotal hpos => ?_⟩
  · rw [(h.map fun g => min capacity (w.minimum g)).sum_eq]
    exact hp.1
  · have hrooms := h.map fun g => (GroupInfo.start w caps capacity total groups g).room
    obtain ⟨hsum, hcount⟩ := hp.2 total ((total_perm h).symm.trans htotal) hpos
    dsimp only
    rw [start_perm h, surplus_perm h, (hrooms.map _).sum_eq, hrooms.countP_eq]
    refine ⟨hsum, hcount.imp_right (Or.imp_right fun hone room hroom => hone room (hrooms.mem_iff.1 hroom))⟩

end Order

/-! ### Allocations -/

section Allocations

variable {capacity total : Nat} {demand : Demand} {w : GroupWeights} {caps : GroupLimits} {pausedGroups : List String}
  {groups : List (Option String × GroupDemand)} {g : Option String × GroupDemand}

private theorem not_scarce (h : ¬(total = 0 ∨ capacity ≤ (groups.map w.minimum).sum)) :
    0 < total ∧ (groups.map w.minimum).sum < capacity := by
  omega

private theorem firstShare_scarce (h : total = 0 ∨ capacity ≤ (groups.map w.minimum).sum) :
    firstShare capacity total w caps groups g = min capacity (w.minimum g) :=
  if_pos h

private theorem firstShare_rich (h : ¬(total = 0 ∨ capacity ≤ (groups.map w.minimum).sum)) :
    firstShare capacity total w caps groups g =
      w.minimum g + ((GroupInfo.start w caps capacity total groups g).slots +
      min (surplusSlots w caps capacity total groups) (GroupInfo.start w caps capacity total groups g).room) :=
  if_neg h

private theorem active_perm {demand' : Demand} (h : demand'.groups.Perm demand.groups) :
    (demand'.active pausedGroups).Perm (demand.active pausedGroups) :=
  h.filter _

/-- The first group gets its first share. -/
private theorem exactAllocation_first (capacity : Nat) (caps : GroupLimits)
    (hgroups : demand.active pausedGroups = g :: groups)
    (htotal : w.total ((demand.active pausedGroups).map (·.1)) = some total) :
    ∃ slots, exactAllocation capacity demand w caps pausedGroups =
      some ((g.1, firstShare capacity total w caps (demand.active pausedGroups) g) :: slots) := by
  by_cases hscarce : total = 0 ∨ capacity ≤ ((demand.active pausedGroups).map w.minimum).sum
  · rw [exactAllocation_minimums htotal hscarce, firstShare_scarce hscarce, hgroups]
    exact ⟨_, rfl⟩
  · obtain ⟨hpos, hsum⟩ := not_scarce hscarce
    obtain ⟨dealt, hdealt, hshares⟩ := exactAllocation_shares caps htotal hpos hsum
    have hrooms : (demand.active pausedGroups).map
        (fun g => (GroupInfo.start w caps capacity total (demand.active pausedGroups) g).room) =
          (GroupInfo.start w caps capacity total (demand.active pausedGroups) g).room ::
            groups.map fun g => (GroupInfo.start w caps capacity total (demand.active pausedGroups) g).room := by
      conv_lhs => rw [hgroups, List.map_cons, ← hgroups]
    obtain ⟨dealt', rfl⟩ := hdealt.head hrooms
    rw [hshares, firstShare_rich hscarce]
    generalize GroupInfo.start w caps capacity total (demand.active pausedGroups) = start
    rw [hgroups]
    exact ⟨_, rfl⟩

/-- After ten groups with room, the last one gets one slot of the surplus at most. -/
private theorem exactAllocation_last (hgroups : demand.active pausedGroups = groups ++ [g])
    (htotal : w.total ((demand.active pausedGroups).map (·.1)) = some total)
    (hrich : ¬(total = 0 ∨ capacity ≤ ((demand.active pausedGroups).map w.minimum).sum))
    (hten : 10 ≤ (groups.map fun g =>
      (GroupInfo.start w caps capacity total (demand.active pausedGroups) g).room).countP (0 < ·)) :
    ∃ slots bump, exactAllocation capacity demand w caps pausedGroups = some (slots ++
      [(g.1, w.minimum g + ((GroupInfo.start w caps capacity total (demand.active pausedGroups) g).slots + bump))]) ∧
        bump ≤ 1 := by
  obtain ⟨hpos, hsum⟩ := not_scarce hrich
  obtain ⟨dealt, hdealt, hshares⟩ := exactAllocation_shares caps htotal hpos hsum
  rw [hshares]
  generalize GroupInfo.start w caps capacity total (demand.active pausedGroups) = start at hdealt hten ⊢
  rw [hgroups, List.map_append, List.map_singleton] at hdealt
  obtain ⟨dealt', bump, rfl, hbump⟩ := hdealt.last hten
  have hlen : groups.length = dealt'.length := by
    simpa using hdealt.length.symm
  rw [hgroups, List.zipWith_append hlen]
  exact ⟨_, bump, rfl, hbump⟩

/-- Where there is plenty, every group gets its first share. -/
private theorem exactAllocation_plenty (h : Plenty capacity w caps (demand.active pausedGroups))
    (htotal : w.total ((demand.active pausedGroups).map (·.1)) = some total) :
    exactAllocation capacity demand w caps pausedGroups = some ((demand.active pausedGroups).map fun g =>
      (g.1, firstShare capacity total w caps (demand.active pausedGroups) g)) := by
  by_cases hscarce : total = 0 ∨ capacity ≤ ((demand.active pausedGroups).map w.minimum).sum
  · have hpour : pour capacity ((demand.active pausedGroups).map w.minimum) =
        (demand.active pausedGroups).map fun g => min capacity (w.minimum g) := by
      rw [pour_eq_map_min, List.map_map]
      · rfl
      · rw [List.map_map]
        exact h.1
    rw [exactAllocation_minimums htotal hscarce, hpour, List.zipWith_map_right, List.zipWith_self]
    simp only [firstShare_scarce hscarce]
  · obtain ⟨hpos, hsum⟩ := not_scarce hscarce
    obtain ⟨dealt, hdealt, hshares⟩ := exactAllocation_shares caps htotal hpos hsum
    obtain ⟨hfits, hten⟩ := h.2 total htotal hpos
    rw [hshares, hdealt.eq_map_min hfits hten, List.map_map, List.zipWith_map_right, List.zipWith_self]
    simp only [firstShare_rich hscarce]
    rfl

/-! ### Necessity -/

private theorem exists_first (hg : g ∈ demand.active pausedGroups) :
    ∃ demand' : Demand, demand'.groups.Perm demand.groups ∧ ∃ groups, demand'.active pausedGroups = g :: groups := by
  obtain ⟨hmem, hactive⟩ := List.mem_filter.1 hg
  obtain ⟨l₁, l₂, hgroups⟩ := List.append_of_mem hmem
  have hperm : (g :: (l₁ ++ l₂)).Perm demand.groups := by
    rw [hgroups]
    exact List.perm_middle.symm
  exact ⟨⟨_, (hperm.map _).nodup_iff.2 demand.nodup⟩, hperm, _, List.filter_cons_of_pos hactive⟩

private theorem exists_last (hg : g ∈ demand.active pausedGroups) :
    ∃ demand' : Demand, demand'.groups.Perm demand.groups ∧
      ∃ groups, demand'.active pausedGroups = groups ++ [g] := by
  obtain ⟨hmem, hactive⟩ := List.mem_filter.1 hg
  obtain ⟨l₁, l₂, hgroups⟩ := List.append_of_mem hmem
  have hperm : (l₁ ++ l₂ ++ [g]).Perm demand.groups := by
    rw [hgroups]
    exact (List.perm_append_singleton g _).trans List.perm_middle.symm
  refine ⟨⟨_, (hperm.map _).nodup_iff.2 demand.nodup⟩, hperm, (l₁ ++ l₂).filter fun g =>
    !g.1.any pausedGroups.contains, ?_⟩
  unfold Demand.active
  rw [List.filter_append, List.filter_singleton, hactive]
  rfl

/-- If the order does not matter then every group gets its first share. -/
private theorem OrderFree.shares (h : OrderFree capacity demand w caps pausedGroups)
    (htotal : w.total ((demand.active pausedGroups).map (·.1)) = some total) :
    exactAllocation capacity demand w caps pausedGroups = some ((demand.active pausedGroups).map fun g =>
      (g.1, firstShare capacity total w caps (demand.active pausedGroups) g)) := by
  have hkeys := demand.nodup_active pausedGroups
  obtain ⟨slots, hslots⟩ : ∃ slots, exactAllocation capacity demand w caps pausedGroups = some slots :=
    exactAllocation_isSome htotal
  rw [hslots]
  refine congrArg some (eq_map_of_lookup (exactAllocation_keys hslots) hkeys fun g hg => ?_)
  obtain ⟨demand', hperm, groups, hgroups⟩ := exists_first hg
  have hactive : (demand'.active pausedGroups).Perm (demand.active pausedGroups) := active_perm hperm
  obtain ⟨slots', hslots'⟩ := exactAllocation_first capacity caps hgroups
    ((total_perm hactive).trans htotal)
  have hlookup := h demand' hperm g.1
  rw [hslots', hslots, Option.map_some, Option.map_some, Option.some.injEq, List.lookup_cons_self,
    firstShare_perm hactive] at hlookup
  exact hlookup.symm

/-- If the order does not matter then a group in the last place gets no less than in the first. -/
private theorem OrderFree.le_one (h : OrderFree capacity demand w caps pausedGroups)
    (htotal : w.total ((demand.active pausedGroups).map (·.1)) = some total)
    (hrich : ¬(total = 0 ∨ capacity ≤ ((demand.active pausedGroups).map w.minimum).sum))
    (hten : 10 < ((demand.active pausedGroups).map fun g =>
      (GroupInfo.start w caps capacity total (demand.active pausedGroups) g).room).countP (0 < ·))
    (hg : g ∈ demand.active pausedGroups) :
    min (surplusSlots w caps capacity total (demand.active pausedGroups))
      (GroupInfo.start w caps capacity total (demand.active pausedGroups) g).room ≤ 1 := by
  have hshares := h.shares htotal
  obtain ⟨demand', hperm, groups, hgroups⟩ := exists_last hg
  have hactive : (demand'.active pausedGroups).Perm (demand.active pausedGroups) := active_perm hperm
  have htotal' := (total_perm hactive).trans htotal
  rw [← minimums_perm hactive] at hrich
  have hcount : 10 ≤ (groups.map fun g =>
      (GroupInfo.start w caps capacity total (demand'.active pausedGroups) g).room).countP (0 < ·) := by
    have hrooms := (hactive.map fun g => (GroupInfo.start w caps capacity total (demand.active pausedGroups)
      g).room).countP_eq (0 < ·)
    rw [hgroups, List.map_append, List.countP_append] at hrooms
    have hone := List.countP_le_length (p := (0 < ·))
      (l := [g].map fun g => (GroupInfo.start w caps capacity total (demand.active pausedGroups) g).room)
    rw [List.length_map, List.length_singleton] at hone
    rw [start_perm hactive]
    omega
  obtain ⟨slots, bump, hslots, hbump⟩ := exactAllocation_last hgroups htotal' hrich hcount
  have hkeys := demand'.nodup_active pausedGroups
  rw [← exactAllocation_keys hslots] at hkeys
  have hlookup := h demand' hperm g.1
  have hmem := lookup_of_mem (firstShare capacity total w caps (demand.active pausedGroups))
    (demand.nodup_active pausedGroups) hg
  rw [hslots, hshares, Option.map_some, Option.map_some, Option.some.injEq, hmem,
    lookup_perm (List.perm_append_singleton _ slots) hkeys, List.lookup_cons_self, Option.some.injEq,
      start_perm hactive] at hlookup
  rw [minimums_perm hactive] at hrich
  rw [firstShare_rich hrich] at hlookup
  omega

private theorem OrderFree.plenty (h : OrderFree capacity demand w caps pausedGroups)
    (htotal : w.total ((demand.active pausedGroups).map (·.1)) = some total) :
    Plenty capacity w caps (demand.active pausedGroups) := by
  have hshares := h.shares htotal
  have hkeys := demand.nodup_active pausedGroups
  have hsum := (exactAllocation_feasible hshares).sum_le
  rw [List.map_map] at hsum
  change ((demand.active pausedGroups).map (firstShare capacity total w caps (demand.active pausedGroups))).sum ≤
    capacity at hsum
  have hminimums : ((demand.active pausedGroups).map fun g => min capacity (w.minimum g)).sum ≤
      ((demand.active pausedGroups).map w.minimum).sum :=
    List.sum_le_sum fun g _ => Nat.min_le_right ..
  by_cases hscarce : total = 0 ∨ capacity ≤ ((demand.active pausedGroups).map w.minimum).sum
  · have hfirst : firstShare capacity total w caps (demand.active pausedGroups) = fun g =>
        min capacity (w.minimum g) :=
      funext fun _ => firstShare_scarce hscarce
    rw [hfirst] at hsum
    refine ⟨hsum, fun total' htotal' hpos => ?_⟩
    obtain rfl := Option.some.inj (htotal.symm.trans htotal')
    have hnone : surplusSlots w caps capacity total (demand.active pausedGroups) = 0 := by
      unfold surplusSlots
      omega
    rw [hnone]
    refine ⟨le_of_eq (List.sum_eq_zero_iff.2 fun n hn => ?_), .inl rfl⟩
    obtain ⟨room, -, rfl⟩ := List.mem_map.1 hn
    exact Nat.zero_min room
  · obtain ⟨hpos, hlt⟩ := not_scarce hscarce
    have hfirst : firstShare capacity total w caps (demand.active pausedGroups) = fun g => w.minimum g +
        ((GroupInfo.start w caps capacity total (demand.active pausedGroups) g).slots +
          min (surplusSlots w caps capacity total (demand.active pausedGroups))
            (GroupInfo.start w caps capacity total (demand.active pausedGroups) g).room) :=
      funext fun _ => firstShare_rich hscarce
    rw [hfirst, List.sum_map_add, List.sum_map_add] at hsum
    refine ⟨by omega, fun total' htotal' _ => ?_⟩
    obtain rfl := Option.some.inj (htotal.symm.trans htotal')
    have hfits : (((demand.active pausedGroups).map fun g =>
        (GroupInfo.start w caps capacity total (demand.active pausedGroups) g).room).map
          (min (surplusSlots w caps capacity total (demand.active pausedGroups)))).sum ≤
            surplusSlots w caps capacity total (demand.active pausedGroups) := by
      have hsurplus : surplusSlots w caps capacity total (demand.active pausedGroups) =
          capacity - ((demand.active pausedGroups).map w.minimum).sum - ((demand.active pausedGroups).map fun g =>
            (GroupInfo.start w caps capacity total (demand.active pausedGroups) g).slots).sum := rfl
      rw [List.map_map]
      simp only [Function.comp_def]
      omega
    refine ⟨hfits, ?_⟩
    by_contra hnot
    simp only [not_or, not_le] at hnot
    obtain ⟨hsome, hten, hroom⟩ := hnot
    push Not at hroom
    obtain ⟨room, hmem, hroom⟩ := hroom
    obtain ⟨g, hg, rfl⟩ := List.mem_map.1 hmem
    have hone := h.le_one htotal hscarce hten hg
    -- there would be one slot for more than ten groups
    have hsurplus : surplusSlots w caps capacity total (demand.active pausedGroups) = 1 := by omega
    rw [hsurplus, sum_map_min_one] at hfits
    omega

end Allocations

/-- Three groups of equal weight. -/
private def equalGroups : Demand where
  groups := [(some "a", ⟨0, 100⟩), (some "b", ⟨0, 100⟩), (some "c", ⟨0, 100⟩)]
  nodup := by decide

private def reversedGroups : Demand where
  groups := equalGroups.groups.reverse
  nodup := by decide

end Taskmill
