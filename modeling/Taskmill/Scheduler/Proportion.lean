import Taskmill.Scheduler.Allocation

/-!
# Shares in proportion to the weights

If every group can use the whole capacity, each should get its quota rounded down or up.  The redistribution comes
before the rounding and finds room everywhere, so the first group gets all slots that the whole parts of the quotas
leave over.
-/

namespace Taskmill

open Apportion

/-- The exact share of a group in the capacity. -/
def quota (capacity : Nat) (w : GroupWeights) (groups : List (Option String × GroupDemand))
    (g : Option String × GroupDemand) : ℚ :=
  capacity * (w.weightFor g.1).toNat / ((groups.map fun g => (w.weightFor g.1).toNat).sum : Nat)

/-- The slots that the whole parts of the quotas leave over. -/
def leftoverSlots (capacity : Nat) (w : GroupWeights) (groups : List (Option String × GroupDemand)) : Nat :=
  capacity - (groups.map fun g => ⌊quota capacity w groups g⌋₊).sum

/-- Every group has a weight and can use the whole capacity, and nothing but the weights matters. -/
structure OnlyWeights (capacity : Nat) (demand : Demand) (w : GroupWeights) (caps : GroupLimits)
    (pausedGroups : List String) :
    Prop where
  weight_pos : ∀ g ∈ demand.groups, 0 < (w.weightFor g.1).toNat
  le_need : ∀ g ∈ demand.groups, capacity ≤ g.2.running + g.2.pending
  no_minimum : ∀ g ∈ demand.groups, w.minSlotsFor g.1 = 0
  no_limit : ∀ g ∈ demand.groups, g.1.bind caps.limitFor = none
  not_paused : ∀ g ∈ demand.groups, g.1.any pausedGroups.contains = false

/-- Every group gets its quota rounded down or up; groups of the same weight differ by one slot at most, and a
heavier group has no fewer slots than a lighter one. -/
def Proportional (capacity : Nat) (demand : Demand) (w : GroupWeights) (caps : GroupLimits)
    (pausedGroups : List String) :
    Prop :=
  ∃ slots, exactAllocation capacity demand w caps pausedGroups = some slots ∧
    (∀ g ∈ demand.groups, ∀ n, (g.1, n) ∈ slots →
      n = ⌊quota capacity w demand.groups g⌋₊ ∨ n = ⌈quota capacity w demand.groups g⌉₊) ∧
    ∀ g ∈ demand.groups, ∀ g' ∈ demand.groups, ∀ n n', (g.1, n) ∈ slots → (g'.1, n') ∈ slots →
      (w.weightFor g.1 = w.weightFor g'.1 → n ≤ n' + 1) ∧ (w.weightFor g.1 < w.weightFor g'.1 → n ≤ n')

private theorem zipWith_replicate_zero {α β : Type} (f : α → Nat → β) (l : List α) :
    List.zipWith f l (List.replicate l.length 0) = l.map (f · 0) := by
  rw [← List.map_const', List.zipWith_map_right, List.zipWith_self]

section Proportion

variable {capacity : Nat} {demand : Demand} {w : GroupWeights} {caps : GroupLimits} {pausedGroups : List String}

private theorem weight_le_sum {groups : List (Option String × GroupDemand)} {g : Option String × GroupDemand}
    (hg : g ∈ groups) :
    (w.weightFor g.1).toNat ≤ (groups.map fun g => (w.weightFor g.1).toNat).sum :=
  List.le_sum_of_mem (List.mem_map_of_mem hg)

theorem quota_nonneg (groups : List (Option String × GroupDemand)) (g : Option String × GroupDemand) :
    0 ≤ quota capacity w groups g := by
  unfold quota
  positivity

private theorem quota_le {groups : List (Option String × GroupDemand)} {g : Option String × GroupDemand}
    (hg : g ∈ groups) :
    quota capacity w groups g ≤ capacity := by
  have hle : ((w.weightFor g.1).toNat : ℚ) ≤ ((groups.map fun g => (w.weightFor g.1).toNat).sum : Nat) := by
    exact_mod_cast weight_le_sum hg
  unfold quota
  rw [mul_div_assoc]
  refine mul_le_of_le_one_right (Nat.cast_nonneg _) (div_le_one_of_le₀ hle (Nat.cast_nonneg _))

private theorem quota_mono {groups : List (Option String × GroupDemand)} {g g' : Option String × GroupDemand}
    (h : w.weightFor g.1 ≤ w.weightFor g'.1) : quota capacity w groups g ≤ quota capacity w groups g' := by
  have hle : ((w.weightFor g.1).toNat : ℚ) ≤ (w.weightFor g'.1).toNat := by
    exact_mod_cast UInt32.le_iff_toNat_le.1 h
  unfold quota
  gcongr

private theorem OnlyWeights.active (h : OnlyWeights capacity demand w caps pausedGroups) :
    demand.active pausedGroups = demand.groups := by
  unfold Demand.active
  rw [List.filter_eq_self]
  intro g hg
  rw [h.not_paused g hg]
  rfl

private theorem OnlyWeights.minimum (h : OnlyWeights capacity demand w caps pausedGroups)
    {g : Option String × GroupDemand} (hg : g ∈ demand.groups) : w.minimum g = 0 := by
  unfold GroupWeights.minimum
  rw [h.no_minimum g hg, Nat.zero_min]

private theorem OnlyWeights.sum_minimum (h : OnlyWeights capacity demand w caps pausedGroups) :
    (demand.groups.map w.minimum).sum = 0 := by
  rw [List.sum_eq_zero_iff]
  intro n hn
  obtain ⟨g, hg, rfl⟩ := List.mem_map.1 hn
  exact h.minimum hg

/-- The whole part of the share is that of the quota, and there is room for everything that is left. -/
private theorem OnlyWeights.start (h : OnlyWeights capacity demand w caps pausedGroups)
    {g : Option String × GroupDemand} (hg : g ∈ demand.groups) {total : Nat}
    (htotal : (demand.groups.map fun g => (w.weightFor g.1).toNat).sum = total) :
    (GroupInfo.start w caps capacity total demand.groups g).slots = ⌊quota capacity w demand.groups g⌋₊ ∧
      (GroupInfo.start w caps capacity total demand.groups g).room =
        g.2.running + g.2.pending - ⌊quota capacity w demand.groups g⌋₊ := by
  have hneed : (capacity : ℚ) ≤ (g.2.running + g.2.pending : Nat) := by
    exact_mod_cast h.le_need g hg
  have hstart : GroupInfo.start w caps capacity total demand.groups g =
      { key := g.1, share := quota capacity w demand.groups g, need := g.2.running + g.2.pending, cap := none } := by
    unfold GroupInfo.start GroupInfo.init
    dsimp only
    rw [h.no_limit g hg, h.minimum hg, h.sum_minimum, ← htotal, Nat.sub_zero, Nat.sub_zero]
    show GroupInfo.mk g.1 (max (min (quota capacity w demand.groups g) _) 0) _ none = _
    rw [min_eq_left ((quota_le hg).trans hneed), max_eq_left (quota_nonneg demand.groups g)]
  rw [GroupInfo.room, hstart]
  exact ⟨rfl, rfl⟩

/-- The first group gets its quota rounded down and everything that is left over, and the others get theirs rounded
down. -/
private theorem OnlyWeights.allocation (h : OnlyWeights capacity demand w caps pausedGroups)
    (hfits : (demand.groups.map fun g => (w.weightFor g.1).toNat).sum < 2 ^ 32) {first : Option String × GroupDemand}
    {rest : List (Option String × GroupDemand)} (hgroups : demand.groups = first :: rest) :
    exactAllocation capacity demand w caps pausedGroups =
      some ((first.1, ⌊quota capacity w demand.groups first⌋₊ + leftoverSlots capacity w demand.groups) ::
        rest.map fun g => (g.1, ⌊quota capacity w demand.groups g⌋₊)) := by
  have htotal : w.total ((demand.active pausedGroups).map (·.1)) =
      some (demand.groups.map fun g => (w.weightFor g.1).toNat).sum := by
    rw [h.active, GroupWeights.total_eq_some, List.map_map]
    exact ⟨rfl, hfits⟩
  rcases Nat.eq_zero_or_pos capacity with rfl | hcapacity
  · rw [exactAllocation_minimums htotal (.inr (Nat.zero_le _)), h.active, pour_zero, List.length_map]
    have hquota (groups : List (Option String × GroupDemand)) (g : Option String × GroupDemand) :
        ⌊quota 0 w groups g⌋₊ = 0 := by
      simp [quota]
    have hleft (groups : List (Option String × GroupDemand)) : leftoverSlots 0 w groups = 0 := Nat.zero_sub _
    simp only [hleft, hquota, zipWith_replicate_zero, hgroups, List.map_cons]
  · have hpos : 0 < (demand.groups.map fun g => (w.weightFor g.1).toNat).sum := by
      have hfirst : first ∈ demand.groups := by simp [hgroups]
      have hweight := h.weight_pos first hfirst
      have hle := weight_le_sum (w := w) hfirst
      omega
    have hminimums : ((demand.active pausedGroups).map w.minimum).sum < capacity := by
      rwa [h.active, h.sum_minimum]
    obtain ⟨dealt, hdealt, hshares⟩ := exactAllocation_shares caps htotal hpos hminimums
    rw [h.active] at hdealt hshares
    have hsurplus : surplusSlots w caps capacity (demand.groups.map fun g => (w.weightFor g.1).toNat).sum
      demand.groups =
        leftoverSlots capacity w demand.groups := by
      unfold surplusSlots leftoverSlots
      rw [h.sum_minimum, List.map_congr_left fun g hg => (h.start hg rfl).1]
      rfl
    rw [hsurplus, List.map_congr_left fun g hg => (h.start hg rfl).2] at hdealt
    -- the first group can take everything that is left over, and nothing remains for the others
    have hroom : leftoverSlots capacity w demand.groups ≤
        first.2.running + first.2.pending - ⌊quota capacity w demand.groups first⌋₊ := by
      have hneed := h.le_need first (by simp [hgroups])
      have hfloor : ⌊quota capacity w demand.groups first⌋₊ ≤
          (demand.groups.map fun g => ⌊quota capacity w demand.groups g⌋₊).sum :=
        List.le_sum_of_mem (List.mem_map_of_mem (by simp [hgroups]))
      unfold leftoverSlots
      omega
    have hrooms : (demand.groups.map fun g => g.2.running + g.2.pending - ⌊quota capacity w demand.groups g⌋₊) =
        (first.2.running + first.2.pending - ⌊quota capacity w demand.groups first⌋₊) ::
          rest.map fun g => g.2.running + g.2.pending - ⌊quota capacity w demand.groups g⌋₊ := by
      conv_lhs => rw [hgroups, List.map_cons, ← hgroups]
    obtain ⟨dealt', rfl⟩ := hdealt.head hrooms
    rw [Nat.min_eq_left hroom] at hdealt hshares
    have hlen : dealt'.length = rest.length := by
      have hlen := hdealt.length
      rw [hrooms] at hlen
      simpa using hlen
    have hnone : dealt' = List.replicate rest.length 0 := by
      have hsum := hdealt.sum_le
      rw [List.sum_cons] at hsum
      rw [List.eq_replicate_iff]
      exact ⟨hlen, List.sum_eq_zero_iff.1 (by omega)⟩
    have hzip {β : Type} (f : Option String × GroupDemand → Nat → β) :
        List.zipWith f demand.groups (leftoverSlots capacity w demand.groups :: dealt') =
          f first (leftoverSlots capacity w demand.groups) :: rest.map (f · 0) := by
      rw [hnone]
      conv_lhs => rw [hgroups, List.zipWith_cons_cons, zipWith_replicate_zero, ← hgroups]
    have hvalue : ∀ g ∈ demand.groups, ∀ n, w.minimum g +
        ((GroupInfo.start w caps capacity (demand.groups.map fun g => (w.weightFor g.1).toNat).sum demand.groups
          g).slots + n) = ⌊quota capacity w demand.groups g⌋₊ + n := by
      intro g hg n
      rw [h.minimum hg, (h.start hg rfl).1, Nat.zero_add]
    rw [hshares, hzip, hvalue first (by simp [hgroups])]
    refine congrArg (fun l => some (_ :: l)) (List.map_congr_left fun g hg => ?_)
    rw [hvalue g (by simp [hgroups, hg])]
    rfl

private theorem OnlyWeights.allocation_none (h : OnlyWeights capacity demand w caps pausedGroups)
    (hfits : ¬(demand.groups.map fun g => (w.weightFor g.1).toNat).sum < 2 ^ 32) :
    exactAllocation capacity demand w caps pausedGroups = none := by
  have htotal : w.total ((demand.active pausedGroups).map (·.1)) = none := by
    unfold GroupWeights.total
    dsimp only
    rw [h.active, List.map_map]
    exact if_neg hfits
  exact exactAllocation_none htotal

/-- The entries of the allocation. -/
private theorem entry_of_mem
    {first : Option String × GroupDemand} {rest : List (Option String × GroupDemand)}
    (hgroups : demand.groups = first :: rest) {g : Option String × GroupDemand} (hg : g ∈ demand.groups) {n : Nat}
    (hn : (g.1, n) ∈ (first.1, ⌊quota capacity w demand.groups first⌋₊ + leftoverSlots capacity w demand.groups) ::
        rest.map fun g => (g.1, ⌊quota capacity w demand.groups g⌋₊)) :
    g = first ∧ n = ⌊quota capacity w demand.groups first⌋₊ + leftoverSlots capacity w demand.groups ∨
      g ∈ rest ∧ n = ⌊quota capacity w demand.groups g⌋₊ := by
  have hkey := List.inj_on_of_nodup_map demand.nodup
  rcases List.mem_cons.1 hn with heq | hmem
  · obtain ⟨hfirst, hvalue⟩ := Prod.mk.inj heq
    exact .inl ⟨hkey hg (by simp [hgroups]) hfirst, hvalue⟩
  · obtain ⟨g', hg', heq⟩ := List.mem_map.1 hmem
    obtain ⟨hsame, hvalue⟩ := Prod.mk.inj heq
    obtain rfl := hkey (by simp [hgroups, hg']) hg hsame
    exact .inr ⟨hg', hvalue.symm⟩

end Proportion

/-- The allocation is proportional if and only if the weights do not overflow, and the whole parts of the quotas
leave nothing over, or one slot that rounds up the quota of the first group without lifting it above a heavier
one. -/
theorem proportional_iff (capacity : Nat) (demand : Demand) (w : GroupWeights) (caps : GroupLimits)
    (pausedGroups : List String) (h : OnlyWeights capacity demand w caps pausedGroups) :
    Proportional capacity demand w caps pausedGroups ↔
      (demand.groups.map fun g => (w.weightFor g.1).toNat).sum < 2 ^ 32 ∧
        ∀ first rest, demand.groups = first :: rest →
          leftoverSlots capacity w demand.groups = 0 ∨
            leftoverSlots capacity w demand.groups = 1 ∧
              ⌊quota capacity w demand.groups first⌋₊ < ⌈quota capacity w demand.groups first⌉₊ ∧
              ∀ g ∈ rest, w.weightFor first.1 < w.weightFor g.1 →
                ⌊quota capacity w demand.groups first⌋₊ < ⌊quota capacity w demand.groups g⌋₊ := by
  by_cases hfits : (demand.groups.map fun g => (w.weightFor g.1).toNat).sum < 2 ^ 32
  swap
  · unfold Proportional
    rw [h.allocation_none hfits]
    refine iff_of_false ?_ fun hcond => hfits hcond.1
    rintro ⟨slots, hslots, -⟩
    cases hslots
  cases hgroups : demand.groups with
  | nil =>
    have htotal : w.total ((demand.active pausedGroups).map (·.1)) = some 0 := by
      rw [h.active, hgroups]
      rfl
    refine iff_of_true ⟨_, exactAllocation_minimums htotal (.inl rfl), ?_, ?_⟩
      ⟨Nat.two_pow_pos 32, fun _ _ hcons => by cases hcons⟩
    · simp [hgroups]
    · simp [hgroups]
  | cons first rest =>
    have hfirst : first ∈ demand.groups := by simp [hgroups]
    have hrest : ∀ g ∈ rest, g ∈ demand.groups := fun g hg => by simp [hgroups, hg]
    rw [← hgroups]
    constructor
    · rintro ⟨slots, hslots, hround, horder⟩
      obtain rfl := Option.some.inj (hslots.symm.trans (h.allocation hfits hgroups))
      refine ⟨hfits, fun first' rest' hgroups' => ?_⟩
      obtain ⟨rfl, rfl⟩ := List.cons.inj (hgroups.symm.trans hgroups')
      have hceil := Nat.ceil_le_floor_add_one (quota capacity w demand.groups first)
      have hvalue := hround first hfirst _ List.mem_cons_self
      by_cases hleft : leftoverSlots capacity w demand.groups = 0
      · exact .inl hleft
      · refine .inr ⟨by omega, by omega, fun g hg hlt => ?_⟩
        have hle := (horder first hfirst g (hrest g hg) _ _ List.mem_cons_self
          (List.mem_cons_of_mem _ (List.mem_map_of_mem hg))).2 hlt
        omega
    · rintro ⟨-, hcond⟩
      have hcond := hcond first rest hgroups
      refine ⟨_, h.allocation hfits hgroups, fun g hg n hn => ?_, fun g hg g' hg' n n' hn hn' => ?_⟩
      · have hceil := Nat.ceil_le_floor_add_one (quota capacity w demand.groups first)
        rcases entry_of_mem hgroups hg hn with ⟨rfl, rfl⟩ | ⟨-, rfl⟩
        · omega
        · exact .inl rfl
      · have hmono : w.weightFor g.1 ≤ w.weightFor g'.1 →
            ⌊quota capacity w demand.groups g⌋₊ ≤ ⌊quota capacity w demand.groups g'⌋₊ :=
          fun hle => Nat.floor_mono (quota_mono hle)
        rcases entry_of_mem hgroups hg hn with ⟨rfl, rfl⟩ | ⟨hgrest, rfl⟩
        · rcases entry_of_mem hgroups hg' hn' with ⟨rfl, rfl⟩ | ⟨hgrest', rfl⟩
          · exact ⟨fun _ => Nat.le_succ _, fun _ => Nat.le_refl _⟩
          · refine ⟨fun heq => ?_, fun hlt => ?_⟩
            · have hle := hmono (UInt32.le_of_eq heq)
              omega
            · have hle := hmono (UInt32.le_of_lt hlt)
              rcases hcond with hleft | ⟨hleft, -, hheavier⟩
              · omega
              · have hlt' := hheavier g' hgrest' hlt
                omega
        · rcases entry_of_mem hgroups hg' hn' with ⟨rfl, rfl⟩ | ⟨hgrest', rfl⟩
          · refine ⟨fun heq => ?_, fun hlt => ?_⟩
            · have hle := hmono (UInt32.le_of_eq heq)
              omega
            · have hle := hmono (UInt32.le_of_lt hlt)
              omega
          · exact ⟨fun heq => (hmono (UInt32.le_of_eq heq)).trans (Nat.le_succ _), fun hlt =>
              hmono (UInt32.le_of_lt hlt)⟩

private theorem limitFor_new (group : Option String) : group.bind GroupLimits.new.limitFor = none := by
  cases group with
  | none => rfl
  | some key => rfl

/-- With equal weights nothing but the demand counts. -/
private theorem onlyWeights_new {capacity : Nat} {demand : Demand}
    (h : ∀ g ∈ demand.groups, capacity ≤ g.2.running + g.2.pending) :
    OnlyWeights capacity demand .new .new [] where
  weight_pos g _ := by
    cases g.1 with
    | none => decide
    | some key => exact Nat.zero_lt_one
  le_need := h
  no_minimum g _ := GroupWeights.minSlotsFor_new g.1
  no_limit g _ := limitFor_new g.1
  not_paused g _ := by
    cases g.1 with
    | none => rfl
    | some key => rfl

private theorem threeGroups_keys : [some "a", some "b", some "c"].Nodup := by decide

/-- Three groups of equal weight. -/
private def threeGroups : Demand where
  groups := [(some "a", ⟨0, 100⟩), (some "b", ⟨0, 100⟩), (some "c", ⟨0, 100⟩)]
  nodup := threeGroups_keys

/-- Ten slots leave one over. -/
theorem threeGroups_proportional : Proportional 10 threeGroups .new .new [] := by
  refine (proportional_iff 10 threeGroups .new .new [] (onlyWeights_new (by decide))).2 ⟨by decide +kernel, ?_⟩
  intro first rest hgroups
  cases hgroups
  decide +kernel

/-- Eleven slots for three groups of equal weight: the first gets both slots that are left over. -/
theorem both_leftover_slots :
    ¬ ∀ (capacity : Nat) (demand : Demand) (w : GroupWeights) (caps : GroupLimits) (pausedGroups : List String),
      OnlyWeights capacity demand w caps pausedGroups → Proportional capacity demand w caps pausedGroups := by
  intro h
  obtain ⟨slots, hslots, -, horder⟩ := h 11 threeGroups .new .new [] (onlyWeights_new (by decide))
  have hallocation : exactAllocation 11 threeGroups .new .new [] =
      some [(some "a", 5), (some "b", 3), (some "c", 3)] := by
    decide +kernel
  obtain rfl := Option.some.inj (hslots.symm.trans hallocation)
  have hle := (horder (some "a", ⟨0, 100⟩) (by simp [threeGroups]) (some "b", ⟨0, 100⟩)
    (by simp [threeGroups]) 5 3 (by decide) (by decide)).1 rfl
  revert hle
  decide

end Taskmill
