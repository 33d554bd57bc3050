import Taskmill.Apportion.Deal
import Taskmill.Scheduler.Fair

/-!
# The steps of the allocation

Every step of `compute_allocation` pours something: the minimums are poured into the groups out of the capacity, the
surplus of the shares into the first ten groups that have room (`redistribute_grown`), and what is then left over
into the groups in the order of their remainders, one slot for each (`roundShares_spec`).  `exactAllocation_spec`
puts them together.
-/

namespace Taskmill

open Apportion

/-! ### Shares -/

namespace GroupInfo

/-- The share lies between nothing and the need, and the need within the limit. -/
structure Bounded (info : GroupInfo) : Prop where
  nonneg : 0 ≤ info.share
  le_need : info.share ≤ info.need
  need_le : ∀ cap, info.cap = some cap → info.need ≤ cap

variable {info : GroupInfo}

theorem Bounded.slots_le (h : info.Bounded) : info.slots ≤ info.need := by
  unfold slots
  exact Nat.floor_le_of_le h.le_need

/-- There is room as long as the share is below the need. -/
theorem Bounded.lt_need (h : info.Bounded) (hroom : 0 < info.room) : info.share < info.need := by
  refine lt_of_le_of_ne h.le_need fun heq => ?_
  unfold room slots at hroom
  rw [heq, Nat.floor_natCast] at hroom
  omega

theorem Bounded.canTake (h : info.Bounded) : info.canTake = info.room := by
  unfold GroupInfo.canTake
  cases hcap : info.cap with
  | none => rfl
  | some cap =>
    have hle := h.need_le cap hcap
    simp only [room]
    omega

theorem init_bounded (w : GroupWeights) (caps : GroupLimits) (remaining total : Nat)
    (g : Option String × GroupDemand × Nat) : (init w caps remaining total g).Bounded := by
  unfold init
  have hneed : (0 : ℚ) ≤ (g.2.1.running + g.2.1.pending - g.2.2 : Nat) := Nat.cast_nonneg _
  cases g.1.bind caps.limitFor with
  | none => exact ⟨le_max_right .., max_le (min_le_right ..) hneed, nofun⟩
  | some limit =>
    refine ⟨le_max_right .., max_le ?_ (Nat.cast_nonneg _), fun cap hcap => ?_⟩
    · push_cast
      exact min_le_min (min_le_right ..) (le_refl _)
    · cases hcap
      exact Nat.min_le_right ..

/-- The same group with `amount` more slots. -/
structure Grows (amount : Nat) (info info' : GroupInfo) : Prop where
  key : info'.key = info.key
  need : info'.need = info.need
  slots : info'.slots = info.slots + amount
  bounded : info'.Bounded

theorem Bounded.refl (h : info.Bounded) : info.Grows 0 info := ⟨rfl, rfl, rfl, h⟩

theorem Grows.trans {a b : Nat} {info₁ info₂ info₃ : GroupInfo} (h : info₁.Grows a info₂) (h' : info₂.Grows b info₃) :
    info₁.Grows (a + b) info₃ where
  key := h'.key.trans h.key
  need := h'.need.trans h.need
  slots := by
    rw [h'.slots, h.slots, Nat.add_assoc]
  bounded := h'.bounded

theorem Grows.room {a : Nat} {info info' : GroupInfo} (h : info.Grows a info') : info'.room = info.room - a := by
  unfold GroupInfo.room
  rw [h.need, h.slots]
  omega

/-- The share grows by whole slots, within the room. -/
theorem Bounded.grow (h : info.Bounded) (surplus : Nat) :
    info.Grows (min surplus info.room) { info with share := min (info.share + min surplus info.room) info.need } where
  key := rfl
  need := rfl
  slots := by
    have hle := h.slots_le
    show ⌊min (info.share + ((min surplus info.room : Nat) : ℚ)) info.need⌋₊ = info.slots + min surplus info.room
    rw [Nat.floor_mono.map_min, Nat.floor_add_natCast h.nonneg, Nat.floor_natCast]
    unfold room slots at *
    omega
  bounded :=
    { nonneg := le_min (add_nonneg h.nonneg (Nat.cast_nonneg _)) (Nat.cast_nonneg _)
      le_need := min_le_right ..
      need_le := h.need_le }

end GroupInfo

/-- The same groups with more slots. -/
inductive Grown : List Nat → List GroupInfo → List GroupInfo → Prop
  | nil : Grown [] [] []
  | cons {a : Nat} {amounts : List Nat} {info info' : GroupInfo} {infos infos' : List GroupInfo}
  (h : info.Grows a info')
      (rest : Grown amounts infos infos') : Grown (a :: amounts) (info :: infos) (info' :: infos')

namespace Grown

variable {amounts amounts' : List Nat} {infos infos' infos'' : List GroupInfo}

theorem refl (h : ∀ info ∈ infos, info.Bounded) : Grown (List.replicate infos.length 0) infos infos := by
  induction infos with
  | nil => exact .nil
  | cons info infos ih =>
    rw [List.length_cons, List.replicate_succ]
    exact .cons (h info List.mem_cons_self).refl (ih fun info hinfo => h info (List.mem_cons_of_mem _ hinfo))

theorem trans (h : Grown amounts infos infos') (h' : Grown amounts' infos' infos'') :
    Grown (List.zipWith (· + ·) amounts amounts') infos infos'' := by
  induction h generalizing amounts' infos'' with
  | nil =>
    cases h'
    exact .nil
  | cons hinfo rest ih =>
    cases h' with
    | cons hinfo' rest' => exact .cons (hinfo.trans hinfo') (ih rest')

theorem bounded (h : Grown amounts infos infos') : ∀ info ∈ infos', info.Bounded := by
  induction h with
  | nil => simp
  | cons hinfo rest ih =>
    intro info hmem
    rcases List.mem_cons.1 hmem with rfl | hmem
    · exact hinfo.bounded
    · exact ih info hmem

theorem keys (h : Grown amounts infos infos') : infos'.map (·.key) = infos.map (·.key) := by
  induction h with
  | nil => rfl
  | cons hinfo rest ih => rw [List.map_cons, List.map_cons, hinfo.key, ih]

theorem slots (h : Grown amounts infos infos') :
    infos'.map GroupInfo.slots = List.zipWith (· + ·) (infos.map GroupInfo.slots) amounts := by
  induction h with
  | nil => rfl
  | cons hinfo rest ih => rw [List.map_cons, List.map_cons, List.zipWith_cons_cons, hinfo.slots, ih]

theorem rooms (h : Grown amounts infos infos') :
    infos'.map GroupInfo.room = List.zipWith (· - ·) (infos.map GroupInfo.room) amounts := by
  induction h with
  | nil => rfl
  | cons hinfo rest ih => rw [List.map_cons, List.map_cons, List.zipWith_cons_cons, hinfo.room, ih]

theorem flooredSum (h : Grown amounts infos infos') : flooredSum infos' = flooredSum infos + amounts.sum := by
  induction h with
  | nil => rfl
  | cons hinfo rest ih =>
    unfold Taskmill.flooredSum at ih ⊢
    simp only [List.map_cons, List.sum_cons, hinfo.slots, ih]
    omega

end Grown

/-! ### Redistribution -/

section Redistribution

variable {infos : List GroupInfo}

private theorem giveSurplus_none {surplus : Nat} (hb : ∀ info ∈ infos, info.Bounded)
    (h : giveSurplus surplus infos = none) :
    ∀ info ∈ infos, info.room = 0 := by
  induction infos with
  | nil => simp
  | cons info infos ih =>
    unfold giveSurplus at h
    split at h
    · cases h
    · rename_i hnot
      have hinfo : info.room = 0 := by
        by_contra hpos
        have hroom : 0 < info.room := by omega
        exact hnot ⟨hroom, (hb info List.mem_cons_self).lt_need hroom⟩
      intro info' hmem
      rcases List.mem_cons.1 hmem with rfl | hmem
      · exact hinfo
      · exact ih (fun i hi => hb i (List.mem_cons_of_mem _ hi)) (by simpa using h) info' hmem

private theorem giveSurplus_some {surplus : Nat} {infos' : List GroupInfo} (hb : ∀ info ∈ infos, info.Bounded)
    (h : giveSurplus surplus infos = some infos') :
    Grown (pour surplus (firstVessels 1 (infos.map GroupInfo.room))) infos infos' := by
  induction infos generalizing infos' with
  | nil => cases h
  | cons info infos ih =>
    have hrest : ∀ i ∈ infos, i.Bounded := fun i hi => hb i (List.mem_cons_of_mem _ hi)
    unfold giveSurplus at h
    split at h
    · rename_i hroom
      cases h
      obtain ⟨r, hr⟩ : ∃ r, info.room = r + 1 := ⟨info.room - 1, by omega⟩
      have hpour : pour surplus (firstVessels 1 ((info :: infos).map GroupInfo.room)) =
          min surplus info.room :: List.replicate infos.length 0 := by
        rw [List.map_cons, hr, firstVessels, pour, firstVessels_zero, pour_replicate, List.length_map]
      rw [hpour]
      exact .cons ((hb info List.mem_cons_self).grow surplus) (.refl hrest)
    · rename_i hnot
      have hzero : info.room = 0 := by
        by_contra hpos
        have hroom : 0 < info.room := by omega
        exact hnot ⟨hroom, (hb info List.mem_cons_self).lt_need hroom⟩
      obtain ⟨infos'', h', rfl⟩ := Option.map_eq_some_iff.1 h
      have hpour : pour surplus (firstVessels 1 ((info :: infos).map GroupInfo.room)) =
          0 :: pour surplus (firstVessels 1 (infos.map GroupInfo.room)) := by
        rw [List.map_cons, hzero, firstVessels, pour, Nat.min_zero, Nat.sub_zero]
      rw [hpour]
      exact .cons (hb info List.mem_cons_self).refl (ih hrest h')

/-- The surplus goes to the first groups that have room, as many of them as there are rounds. -/
theorem redistribute_grown (remaining rounds : Nat) (hb : ∀ info ∈ infos, info.Bounded) :
    Grown (pour (remaining - flooredSum infos) (firstVessels rounds (infos.map GroupInfo.room))) infos
      (redistribute remaining rounds infos) := by
  induction rounds generalizing infos with
  | zero =>
    rw [firstVessels_zero, pour_replicate, List.length_map]
    exact .refl hb
  | succ rounds ih =>
    unfold redistribute
    dsimp only
    split
    · rename_i hnone
      rw [hnone, pour_zero, length_firstVessels, List.length_map]
      exact .refl hb
    · cases hgive : giveSurplus (remaining - flooredSum infos) infos with
      | none =>
        have hrooms : infos.map GroupInfo.room = List.replicate infos.length 0 := by
          rw [List.eq_replicate_iff]
          exact ⟨List.length_map _, by simpa using giveSurplus_none hb hgive⟩
        rw [hrooms, firstVessels_replicate, pour_replicate]
        exact .refl hb
      | some infos' =>
        have hgrown := giveSurplus_some hb hgive
        have hnext := ih hgrown.bounded
        rw [hgrown.flooredSum, hgrown.rooms, ← Nat.sub_sub] at hnext
        rw [pour_firstVessels_succ]
        exact hgrown.trans hnext

end Redistribution

/-! ### Rounding -/

/-- One of the leftover slots for each group that has room, as long as there are any. -/
private theorem roundShares_spec (leftover : Nat) {infos : List GroupInfo} (hb : ∀ info ∈ infos, info.Bounded)
    (hkeys : (infos.map (·.key)).Nodup) :
    ∃ bump : Option String → Nat,
      (∀ info ∈ infos, (roundShares leftover infos).lookup info.key = some (info.slots + bump info.key) ∧
        bump info.key ≤ min 1 info.room) ∧
      (infos.map fun info => bump info.key).sum = min leftover (infos.map fun info => min 1 info.room).sum := by
  induction infos generalizing leftover with
  | nil => exact ⟨fun _ => 0, by simp, by simp⟩
  | cons info infos ih =>
    have hinfo := (hb info List.mem_cons_self).canTake
    rw [List.map_cons, List.nodup_cons] at hkeys
    obtain ⟨bump, hbump, hsum⟩ := ih (leftover - min leftover (min 1 info.room))
      (fun i hi => hb i (List.mem_cons_of_mem _ hi)) hkeys.2
    have hround : roundShares leftover (info :: infos) = (info.key, info.slots + min leftover (min 1 info.room)) ::
        roundShares (leftover - min leftover (min 1 info.room)) infos := by
      rw [roundShares, hinfo]
      split
      · have hone : min leftover (min 1 info.room) = 1 := by omega
        rw [hone]
      · have hnone : min leftover (min 1 info.room) = 0 := by omega
        rw [hnone, Nat.add_zero, Nat.sub_zero]
    have hother : ∀ i ∈ infos, i.key ≠ info.key := fun i hi heq => hkeys.1 (List.mem_map.2 ⟨i, hi, heq⟩)
    refine ⟨Function.update bump info.key (min leftover (min 1 info.room)), fun i hi => ?_, ?_⟩
    · rw [hround]
      rcases List.mem_cons.1 hi with rfl | hi
      · rw [List.lookup_cons_self, Function.update_self]
        exact ⟨rfl, Nat.min_le_right ..⟩
      · have hne := hother i hi
        rw [List.lookup_cons, beq_eq_false_iff_ne.2 hne, Function.update_of_ne hne]
        exact hbump i hi
    · have hrest : (infos.map fun i => Function.update bump info.key (min leftover (min 1 info.room)) i.key) =
          infos.map fun i => bump i.key :=
        List.map_congr_left fun i hi => Function.update_of_ne (hother i hi) ..
      rw [List.map_cons, List.map_cons, List.sum_cons, List.sum_cons, Function.update_self, hrest, hsum]
      omega

private theorem zipWith_add_assoc (l l' l'' : List Nat) :
    List.zipWith (· + ·) (List.zipWith (· + ·) l l') l'' = List.zipWith (· + ·) l (List.zipWith (· + ·) l' l'') := by
  induction l generalizing l' l'' with
  | nil => rfl
  | cons a l ih =>
    cases l' with
    | nil => rfl
    | cons b l' =>
      cases l'' with
      | nil => rfl
      | cons c l'' => simp [ih, Nat.add_assoc]

/-- The shares of the groups: the whole parts, and what is dealt out of the surplus. -/
theorem distribute_spec (w : GroupWeights) (caps : GroupLimits) (remaining total : Nat)
    {granted : List (Option String × GroupDemand × Nat)} (hkeys : (granted.map (·.1)).Nodup) :
    let infos := granted.map (GroupInfo.init w caps remaining total)
    ∃ dealt, Dealt 10 (remaining - flooredSum infos) (infos.map GroupInfo.room) dealt ∧
      granted.map (fun g => ((distribute w caps remaining total granted).lookup g.1).getD 0) =
        List.zipWith (· + ·) (infos.map GroupInfo.slots) dealt := by
  intro infos
  have hkey : infos.map (·.key) = granted.map (·.1) := by
    rw [List.map_map]
    refine List.map_congr_left fun g _ => ?_
    show (GroupInfo.init w caps remaining total g).key = g.1
    unfold GroupInfo.init
    dsimp only
    split
    · rfl
    · rfl
  have hinit : ∀ info ∈ infos, info.Bounded := by
    intro info hinfo
    obtain ⟨g, -, rfl⟩ := List.mem_map.1 hinfo
    exact GroupInfo.init_bounded ..
  have hgrown := redistribute_grown remaining 10 hinit
  have hperm := List.perm_insertionSort GroupInfo.before (redistribute remaining 10 infos)
  obtain ⟨bump, hbump, hsum⟩ := roundShares_spec (remaining - flooredSum (redistribute remaining 10 infos))
    (fun info hinfo => hgrown.bounded info (hperm.mem_iff.1 hinfo))
    ((hperm.map (·.key)).nodup_iff.2 (by rwa [hgrown.keys, hkey]))
  have hlookup : granted.map (fun g => ((distribute w caps remaining total granted).lookup g.1).getD 0) =
      (redistribute remaining 10 infos).map fun info => info.slots + bump info.key := by
    have hkeys' : granted.map (·.1) = (redistribute remaining 10 infos).map (·.key) := by
      rw [hgrown.keys, hkey]
    have hsplit : granted.map (fun g => ((distribute w caps remaining total granted).lookup g.1).getD 0) =
        (granted.map (·.1)).map fun key => ((distribute w caps remaining total granted).lookup key).getD 0 := by
      rw [List.map_map]
      rfl
    rw [hsplit, hkeys', List.map_map]
    refine List.map_congr_left fun info hinfo => ?_
    show ((roundShares _ _).lookup info.key).getD 0 = _
    rw [(hbump info (hperm.mem_iff.2 hinfo)).1]
    rfl
  refine ⟨List.zipWith (· + ·) (firstTurn 10 (remaining - flooredSum infos) (infos.map GroupInfo.room))
    ((redistribute remaining 10 infos).map fun info => bump info.key), ⟨_, rfl, ?_, ?_⟩, ?_⟩
  · show List.Forall₂ _ _ (List.zipWith _ _ (pour _ _))
    rw [← hgrown.rooms, List.forall₂_map_left_iff, List.forall₂_map_right_iff, List.forall₂_same]
    exact fun info hinfo => (hbump info (hperm.mem_iff.2 hinfo)).2
  · have hrooms : (redistribute remaining 10 infos).map (fun info => min 1 info.room) =
        ((redistribute remaining 10 infos).map GroupInfo.room).map (min 1) := by
      rw [List.map_map]
      rfl
    rw [← (hperm.map fun info => bump info.key).sum_eq, hsum, (hperm.map fun info => min 1 info.room).sum_eq,
      hgrown.flooredSum, ← Nat.sub_sub, hrooms, hgrown.rooms]
    rfl
  · rw [hlookup, ← zipWith_add_assoc]
    show _ = List.zipWith _ (List.zipWith _ _ (pour _ _)) _
    rw [← hgrown.slots, List.zipWith_map, List.zipWith_self]

/-! ### The allocation -/

/-- The minimum of a group, which is never more than it needs. -/
def GroupWeights.minimum (w : GroupWeights) (g : Option String × GroupDemand) : Nat :=
  min (w.minSlotsFor g.1) (g.2.running + g.2.pending)

/-- The entry of a group when all minimums are granted in full. -/
def GroupInfo.start (w : GroupWeights) (caps : GroupLimits) (capacity total : Nat)
    (groups : List (Option String × GroupDemand)) (g : Option String × GroupDemand) : GroupInfo :=
  .init w caps (capacity - (groups.map w.minimum).sum) total (g.1, g.2, w.minimum g)

/-- What the minimums and the whole parts of the shares leave over. -/
def surplusSlots (w : GroupWeights) (caps : GroupLimits) (capacity total : Nat)
    (groups : List (Option String × GroupDemand)) : Nat :=
  capacity - (groups.map w.minimum).sum - (groups.map fun g =>
    (GroupInfo.start w caps capacity total groups g).slots).sum

section Spec

variable {capacity : Nat} {groups : List (Option String × GroupDemand)} {w : GroupWeights}

private theorem grantMinimums_eq :
    grantMinimums w capacity groups =
      List.zipWith (fun g grant => (g.1, g.2, grant)) groups (pour capacity (groups.map w.minimum)) := by
  induction groups generalizing capacity with
  | nil => rfl
  | cons g groups ih =>
    have hrest : capacity - min capacity (w.minimum g) = capacity - w.minimum g := by omega
    show (_, _, min (w.minimum g) capacity) :: grantMinimums w (capacity - min (w.minimum g) capacity) groups = _
    rw [Nat.min_comm, hrest, ih]
    rfl

theorem grantMinimums_keys : (grantMinimums w capacity groups).map (·.1) = groups.map (·.1) := by
  induction groups generalizing capacity with
  | nil => rfl
  | cons g groups ih => exact congrArg (g.1 :: ·) ih

theorem grantMinimums_grants (w : GroupWeights) (capacity : Nat) (groups : List (Option String × GroupDemand)) :
    (grantMinimums w capacity groups).map (·.2.2) = pour capacity (groups.map w.minimum) := by
  rw [grantMinimums_eq, List.map_zipWith]
  have hlen : (pour capacity (groups.map w.minimum)).length = groups.length := by
    rw [length_pour, List.length_map]
  refine List.ext_getElem (by simp [hlen]) fun i h h' => by simp

/-- The minimums are granted in full if there are enough slots. -/
private theorem grantMinimums_full (h : (groups.map w.minimum).sum ≤ capacity) :
    grantMinimums w capacity groups = groups.map fun g => (g.1, g.2, w.minimum g) := by
  rw [grantMinimums_eq, pour_of_sum_le h, List.zipWith_map_right, List.zipWith_self]

end Spec

section Allocation

variable {capacity total : Nat} {demand : Demand} {w : GroupWeights} {caps : GroupLimits} {pausedGroups : List String}

theorem Demand.nodup_active (demand : Demand) (pausedGroups : List String) :
    ((demand.active pausedGroups).map (·.1)).Nodup :=
  demand.nodup.sublist (List.filter_sublist.map _)

theorem exactAllocation_none (htotal : w.total ((demand.active pausedGroups).map (·.1)) = none) :
    exactAllocation capacity demand w caps pausedGroups = none := by
  unfold exactAllocation
  dsimp only
  rw [htotal]

/-- The entries stand in the order of the demand. -/
theorem exactAllocation_keys {slots : List (Option String × Nat)}
    (h : exactAllocation capacity demand w caps pausedGroups = some slots) :
    slots.map (·.1) = (demand.active pausedGroups).map (·.1) := by
  cases htotal : w.total ((demand.active pausedGroups).map (·.1)) with
  | none =>
    rw [exactAllocation_none htotal] at h
    cases h
  | some total =>
    unfold exactAllocation at h
    dsimp only at h
    rw [htotal] at h
    dsimp only at h
    split at h
    · cases h
      rw [List.map_map]
      exact grantMinimums_keys
    · cases h
      rw [List.map_map]
      exact grantMinimums_keys

/-- There is nothing to distribute: the minimums take everything, or no group has a weight. -/
theorem exactAllocation_minimums (htotal : w.total ((demand.active pausedGroups).map (·.1)) = some total)
    (h : total = 0 ∨ capacity ≤ ((demand.active pausedGroups).map w.minimum).sum) :
    exactAllocation capacity demand w caps pausedGroups =
      some (List.zipWith (fun g n => (g.1, n)) (demand.active pausedGroups)
        (pour capacity ((demand.active pausedGroups).map w.minimum))) := by
  unfold exactAllocation
  dsimp only
  generalize demand.active pausedGroups = groups at *
  rw [htotal, grantMinimums_grants, sum_pour]
  dsimp only
  rw [if_neg (by omega), grantMinimums_eq, List.map_zipWith]

/-- The minimums, the whole parts of the shares, and what is dealt out of the surplus. -/
theorem exactAllocation_shares (caps : GroupLimits)
    (htotal : w.total ((demand.active pausedGroups).map (·.1)) = some total) (hpos : 0 < total)
    (h : ((demand.active pausedGroups).map w.minimum).sum < capacity) :
    ∃ dealt, Dealt 10 (surplusSlots w caps capacity total (demand.active pausedGroups))
        ((demand.active pausedGroups).map fun g =>
          (GroupInfo.start w caps capacity total (demand.active pausedGroups) g).room) dealt ∧
      exactAllocation capacity demand w caps pausedGroups =
        some (List.zipWith
          (fun g n => (g.1, w.minimum g + ((GroupInfo.start w caps capacity total (demand.active pausedGroups)
            g).slots + n)))
          (demand.active pausedGroups) dealt) := by
  have hkeys := demand.nodup_active pausedGroups
  unfold exactAllocation
  dsimp only
  generalize demand.active pausedGroups = groups at *
  have hgrants := grantMinimums_grants w capacity groups
  rw [pour_of_sum_le (by omega)] at hgrants
  rw [htotal, hgrants]
  dsimp only
  rw [if_pos (by omega), grantMinimums_full (by omega)]
  have hgranted : ((groups.map fun g => (g.1, g.2, w.minimum g)).map (·.1)).Nodup := by
    rw [List.map_map]
    exact hkeys
  obtain ⟨dealt, hdealt, hshares⟩ :=
    distribute_spec w caps (capacity - (groups.map w.minimum).sum) total hgranted
  have hinit : (groups.map fun g => (g.1, g.2, w.minimum g)).map
      (GroupInfo.init w caps (capacity - (groups.map w.minimum).sum) total) =
        groups.map (GroupInfo.start w caps capacity total groups) := by
    rw [List.map_map]
    rfl
  rw [hinit] at hdealt hshares
  unfold flooredSum at hdealt
  rw [List.map_map] at hshares hdealt
  rw [List.map_map] at hdealt
  refine ⟨dealt, hdealt, congrArg some ?_⟩
  have hlen : dealt.length = groups.length := by
    rw [hdealt.length, List.length_map]
  refine List.ext_getElem (by simp [hlen]) fun i hi hi' => ?_
  have hshare := congrArg (·[i]?) hshares
  simp only [List.map_map, List.getElem_map, List.getElem_zipWith, Function.comp_apply]
  simp only [List.length_map] at hi
  have hd : i < dealt.length := by rwa [hlen]
  simpa [List.getElem?_eq_getElem, hi, hd, List.getElem?_zipWith] using hshare

/-- The entry of a group, if the keys are different. -/
theorem of_mem_zipWith {β : Type} {P : Option String × GroupDemand → β → Prop}
    {f : Option String × GroupDemand → β → Nat} {groups : List (Option String × GroupDemand)} {l : List β}
    (h : List.Forall₂ P groups l) (hkeys : (groups.map (·.1)).Nodup) {g : Option String × GroupDemand}
    (hg : g ∈ groups) {n : Nat} (hn : (g.1, n) ∈ List.zipWith (fun g x => (g.1, f g x)) groups l) :
    ∃ x, P g x ∧ n = f g x := by
  obtain ⟨i, hi, heq⟩ := List.mem_iff_getElem.1 hn
  rw [List.getElem_zipWith] at heq
  obtain ⟨hkey, hvalue⟩ := Prod.mk.inj heq
  rw [List.length_zipWith] at hi
  have hgroup : i < groups.length := by omega
  obtain rfl : groups[i] = g := List.inj_on_of_nodup_map hkeys (List.getElem_mem hgroup) hg hkey
  rw [List.forall₂_iff_get] at h
  exact ⟨_, h.2 i hgroup (by omega), hvalue.symm⟩

end Allocation

/-! ### The weights -/

section Weights

variable {w : GroupWeights} {caps : GroupLimits} {capacity total : Nat} {groups : List (Option String × GroupDemand)}

theorem GroupWeights.minSlotsFor_new (group : Option String) : GroupWeights.new.minSlotsFor group = 0 := by
  cases group with
  | none => rfl
  | some key => rfl

theorem GroupWeights.total_eq_some {keys : List (Option String)} {total : Nat} :
    w.total keys = some total ↔
      (keys.map fun key => (w.weightFor key).toNat).sum = total ∧
        (keys.map fun key => (w.weightFor key).toNat).sum < 2 ^ 32 := by
  unfold GroupWeights.total
  dsimp only
  constructor
  · intro h
    split at h
    · rename_i hlt
      exact ⟨Option.some.inj h, hlt⟩
    · cases h
  · rintro ⟨rfl, hlt⟩
    rw [if_pos hlt]

theorem GroupInfo.init_share_le (remaining : Nat) (g : Option String × GroupDemand × Nat) :
    (init w caps remaining total g).share ≤ remaining * (w.weightFor g.1).toNat / total := by
  have hnonneg : (0 : ℚ) ≤ remaining * (w.weightFor g.1).toNat / total := by positivity
  unfold init
  cases g.1.bind caps.limitFor with
  | none => exact max_le (min_le_left ..) hnonneg
  | some limit => exact max_le ((min_le_left ..).trans (min_le_left ..)) hnonneg

/-- The whole parts of the shares fit into what the minimums leave. -/
theorem sum_slots_le (caps : GroupLimits) (capacity : Nat) (htotal : w.total (groups.map (·.1)) = some total)
    (hpos : 0 < total) :
    (groups.map fun g => (GroupInfo.start w caps capacity total groups g).slots).sum ≤
      capacity - (groups.map w.minimum).sum := by
  have hbound (remaining : Nat) (l : List (Option String × GroupDemand × Nat)) :
      (flooredSum (l.map (GroupInfo.init w caps remaining total)) : ℚ) ≤
        remaining * ((l.map fun g => (w.weightFor g.1).toNat).sum : Nat) / total := by
    induction l with
    | nil => simp [flooredSum]
    | cons g l ih =>
      have hshare : ((GroupInfo.init w caps remaining total g).slots : ℚ) ≤
          remaining * (w.weightFor g.1).toNat / total :=
        (Nat.floor_le (GroupInfo.init_bounded ..).nonneg).trans (GroupInfo.init_share_le remaining g)
      unfold flooredSum at ih ⊢
      simp only [List.map_cons, List.sum_cons, Nat.cast_add, mul_add, add_div]
      exact add_le_add hshare ih
  obtain ⟨hsum, -⟩ := GroupWeights.total_eq_some.1 htotal
  have h := hbound (capacity - (groups.map w.minimum).sum) (groups.map fun g => (g.1, g.2, w.minimum g))
  have hweights : ((groups.map fun g => (g.1, g.2, w.minimum g)).map fun g => (w.weightFor g.1).toNat).sum =
      total := by
    rw [← hsum, List.map_map, List.map_map]
    rfl
  have htotal' : (total : ℚ) ≠ 0 := by
    have := hpos.ne'
    exact_mod_cast this
  unfold flooredSum at h
  rw [hweights, mul_div_assoc, div_self htotal', mul_one, List.map_map, List.map_map] at h
  exact_mod_cast h

/-- A group gets no more than it needs, and no more than its limit leaves beyond the minimum. -/
theorem GroupInfo.init_need (w : GroupWeights) (caps : GroupLimits) (remaining total : Nat)
    (g : Option String × GroupDemand × Nat) :
    (init w caps remaining total g).need = caps.headroom g.1 g.2.1 g.2.2 := by
  unfold init GroupLimits.headroom
  dsimp only
  cases g.1.bind caps.limitFor with
  | none => rfl
  | some limit => rfl

theorem GroupInfo.start_need (w : GroupWeights) (caps : GroupLimits) (capacity total : Nat)
    (groups : List (Option String × GroupDemand)) (g : Option String × GroupDemand) :
    (start w caps capacity total groups g).need = caps.headroom g.1 g.2 (w.minimum g) :=
  init_need ..

end Weights

/-! ### Feasibility -/

/-- What can be asked of an allocation: it has one entry for each group that is not paused, is within the capacity
and gives no group more than it needs, and all get their minimums if there are enough slots for them. -/
structure Feasible (capacity : Nat) (demand : Demand) (w : GroupWeights) (pausedGroups : List String)
    (slots : List (Option String × Nat)) : Prop where
  entries : (slots.map (·.1)).Perm ((demand.active pausedGroups).map (·.1))
  sum_le : (slots.map (·.2)).sum ≤ capacity
  le_need : ∀ g ∈ demand.active pausedGroups, ∀ n, (g.1, n) ∈ slots → n ≤ g.2.running + g.2.pending
  minimums : ((demand.active pausedGroups).map w.minimum).sum ≤ capacity →
    ∀ g ∈ demand.active pausedGroups, ∀ n, (g.1, n) ∈ slots → w.minimum g ≤ n

section Feasibility

variable {capacity total : Nat} {demand : Demand} {w : GroupWeights} {caps : GroupLimits} {pausedGroups : List String}
  {groups : List (Option String × GroupDemand)}

theorem map_fst_zipWith {β : Type} {f : Option String × GroupDemand → β → Nat} {l : List β}
    (h : l.length = groups.length) :
    (List.zipWith (fun g x => (g.1, f g x)) groups l).map (·.1) = groups.map (·.1) :=
  List.ext_getElem (by simp [h]) fun i hi hi' => by simp

/-- The whole part of a share and what is dealt out to the group. -/
theorem GroupInfo.start_add_le {g : Option String × GroupDemand} {n : Nat}
    (h : n ≤ (start w caps capacity total groups g).room) :
    w.minimum g + ((start w caps capacity total groups g).slots + n) ≤
      w.minimum g + caps.headroom g.1 g.2 (w.minimum g) := by
  have hslots : (start w caps capacity total groups g).slots ≤ (start w caps capacity total groups g).need :=
    (init_bounded ..).slots_le
  rw [← start_need w caps capacity total groups g]
  unfold room at h
  omega

theorem GroupLimits.headroom_le (caps : GroupLimits) (w : GroupWeights) (g : Option String × GroupDemand) :
    caps.headroom g.1 g.2 (w.minimum g) ≤ g.2.running + g.2.pending - w.minimum g := by
  unfold GroupLimits.headroom
  dsimp only
  split
  · exact Nat.le_refl _
  · exact Nat.min_le_left ..

private theorem GroupWeights.minimum_le (g : Option String × GroupDemand) : w.minimum g ≤ g.2.running + g.2.pending :=
  Nat.min_le_right ..

private theorem minimums_feasible (hkeys : ((demand.active pausedGroups).map (·.1)).Nodup) :
    Feasible capacity demand w pausedGroups (List.zipWith (fun g n => (g.1, n)) (demand.active pausedGroups)
      (pour capacity ((demand.active pausedGroups).map w.minimum))) := by
  have hpour := pour_le capacity ((demand.active pausedGroups).map w.minimum)
  have hlen : (pour capacity ((demand.active pausedGroups).map w.minimum)).length =
      (demand.active pausedGroups).length := by
    rw [length_pour, List.length_map]
  rw [List.forall₂_map_right_iff] at hpour
  refine ⟨.of_eq (map_fst_zipWith (f := fun _ n => n) hlen), ?_, fun g hg n hn => ?_, fun hsum g hg n hn => ?_⟩
  · have hvalues : (List.zipWith (fun g n => (g.1, n)) (demand.active pausedGroups)
        (pour capacity ((demand.active pausedGroups).map w.minimum))).map (·.2) =
          pour capacity ((demand.active pausedGroups).map w.minimum) :=
      List.ext_getElem (by simp [hlen]) fun i hi hi' => by simp
    rw [hvalues, sum_pour]
    exact Nat.min_le_left ..
  · obtain ⟨x, hx, rfl⟩ := of_mem_zipWith (f := fun _ n => n) hpour.flip hkeys hg hn
    have hmin := GroupWeights.minimum_le (w := w) g
    omega
  · rw [pour_of_sum_le hsum] at hpour hn
    have hsame : List.Forall₂ (fun g n => n = w.minimum g) (demand.active pausedGroups)
        ((demand.active pausedGroups).map w.minimum) := by
      rw [List.forall₂_map_right_iff, List.forall₂_same]
      exact fun _ _ => rfl
    obtain ⟨x, rfl, rfl⟩ := of_mem_zipWith (f := fun _ n => n) hsame hkeys hg hn
    exact Nat.le_refl _

/-- The sum of an allocation. -/
theorem sum_values (a b : Option String × GroupDemand → Nat) {l : List Nat} (h : l.length = groups.length) :
    ((List.zipWith (fun g n => (g.1, a g + (b g + n))) groups l).map (·.2)).sum =
      (groups.map a).sum + ((groups.map b).sum + l.sum) := by
  induction groups generalizing l with
  | nil =>
    rw [List.length_eq_zero_iff.1 h]
    rfl
  | cons g groups ih =>
    cases l with
    | nil => simp at h
    | cons n l =>
      have hrest := ih (l := l) (by simpa using h)
      simp only [List.zipWith_cons_cons, List.map_cons, List.sum_cons, hrest]
      omega

/-- What the weights and the surplus give, aligned with the groups. -/
theorem dealt_le_room {rounds surplus : Nat} {dealt : List Nat}
    (h : Dealt rounds surplus (groups.map fun g => (GroupInfo.start w caps capacity total groups g).room) dealt) :
    List.Forall₂ (fun g n => n ≤ (GroupInfo.start w caps capacity total groups g).room) groups dealt := by
  have hle := h.le_rooms
  rw [List.forall₂_map_right_iff] at hle
  exact hle.flip

private theorem shares_feasible (hkeys : ((demand.active pausedGroups).map (·.1)).Nodup)
    (htotal : w.total ((demand.active pausedGroups).map (·.1)) = some total) (hpos : 0 < total)
    (hsum : ((demand.active pausedGroups).map w.minimum).sum < capacity) {dealt : List Nat}
    (hdealt : Dealt 10 (surplusSlots w caps capacity total (demand.active pausedGroups))
      ((demand.active pausedGroups).map fun g =>
        (GroupInfo.start w caps capacity total (demand.active pausedGroups) g).room) dealt) :
    Feasible capacity demand w pausedGroups (List.zipWith
      (fun g n => (g.1, w.minimum g + ((GroupInfo.start w caps capacity total (demand.active pausedGroups)
        g).slots + n)))
      (demand.active pausedGroups) dealt) := by
  have hlen : dealt.length = (demand.active pausedGroups).length := by
    rw [hdealt.length, List.length_map]
  have hroom := dealt_le_room hdealt
  have hfloor := sum_slots_le caps capacity htotal hpos
  refine ⟨.of_eq (map_fst_zipWith hlen), ?_, fun g hg n hn => ?_, fun _ g hg n hn => ?_⟩
  · have hle := hdealt.sum_le
    rw [sum_values _ _ hlen]
    unfold surplusSlots at hle
    omega
  · obtain ⟨x, hx, rfl⟩ := of_mem_zipWith hroom hkeys hg hn
    have hle := GroupInfo.start_add_le hx
    have hhead := GroupLimits.headroom_le caps w g
    have hmin := GroupWeights.minimum_le (w := w) g
    omega
  · obtain ⟨x, hx, rfl⟩ := of_mem_zipWith hroom hkeys hg hn
    omega

/-- Every allocation is feasible. -/
theorem exactAllocation_feasible {slots : List (Option String × Nat)}
    (h : exactAllocation capacity demand w caps pausedGroups = some slots) :
    Feasible capacity demand w pausedGroups slots := by
  have hkeys := demand.nodup_active pausedGroups
  cases htotal : w.total ((demand.active pausedGroups).map (·.1)) with
  | none =>
    rw [exactAllocation_none htotal] at h
    cases h
  | some total =>
    by_cases hscarce : total = 0 ∨ capacity ≤ ((demand.active pausedGroups).map w.minimum).sum
    · rw [exactAllocation_minimums htotal hscarce] at h
      cases h
      exact minimums_feasible hkeys
    · have hpos : 0 < total := by omega
      have hsum : ((demand.active pausedGroups).map w.minimum).sum < capacity := by omega
      obtain ⟨dealt, hdealt, hshares⟩ := exactAllocation_shares caps htotal hpos hsum
      rw [hshares] at h
      cases h
      exact shares_feasible hkeys htotal hpos hsum hdealt

theorem exactAllocation_isSome (htotal : w.total ((demand.active pausedGroups).map (·.1)) = some total) :
    ∃ slots, exactAllocation capacity demand w caps pausedGroups = some slots := by
  unfold exactAllocation
  dsimp only
  rw [htotal]
  dsimp only
  split
  · exact ⟨_, rfl⟩
  · exact ⟨_, rfl⟩

end Feasibility

/-- The allocation exists whenever the sum of the weights has 32 bits, and is feasible. -/
theorem allocation_feasible (capacity : Nat) (demand : Demand) (w : GroupWeights) (caps : GroupLimits)
    (pausedGroups : List String)
    (hweights : ((demand.active pausedGroups).map fun g => (w.weightFor g.1).toNat).sum < 2 ^ 32) :
    ∃ slots, exactAllocation capacity demand w caps pausedGroups = some slots ∧
      Feasible capacity demand w pausedGroups slots := by
  obtain ⟨total, htotal⟩ : ∃ total, w.total ((demand.active pausedGroups).map (·.1)) = some total := by
    refine ⟨_, GroupWeights.total_eq_some.2 ⟨rfl, ?_⟩⟩
    rwa [List.map_map]
  obtain ⟨slots, hslots⟩ := exactAllocation_isSome htotal
  exact ⟨slots, hslots, exactAllocation_feasible hslots⟩

/-- Two groups with the weights ten and one, the second with a minimum of three slots. -/
private def tenToOne : GroupWeights := ((GroupWeights.new.setWeight "A" 10).setWeight "B" 1).setMinSlots "B" 3

private def twoGroups : Demand := mergeDemand [] [(some "A", 100), (some "B", 100)]

theorem tenToOne_feasible : exactAllocation 10 twoGroups tenToOne .new [] = some [(some "B", 4), (some "A", 6)] ∧
    ∃ slots, exactAllocation 10 twoGroups tenToOne .new [] = some slots ∧ Feasible 10 twoGroups tenToOne [] slots :=
  ⟨by decide +kernel, allocation_feasible 10 twoGroups tenToOne .new [] (by decide +kernel)⟩

end Taskmill
