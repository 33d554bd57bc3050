import Taskmill.Scheduler.Allocation
import Taskmill.Scheduler.Limits

/-!
# Limits of groups in the allocation

The first pass of fair dispatch does not look at the limits of groups, because the allocation is to respect them.
It does so for the shares, but not for the minimums: a group stays within its limit if and only if the slots that
the groups before it leave for its minimum do (`MinimumsFit`).
-/

namespace Taskmill

open Apportion Transact

/-- No group gets more slots than its limit. -/
def GroupLimits.Respected (caps : GroupLimits) (slots : List (Option String × Nat)) : Prop :=
  ∀ group limit n, caps.limitFor group = some limit → (some group, n) ∈ slots → n ≤ limit

/-- What is left of the capacity for the minimum of a group is within its limit. -/
def MinimumsFit (capacity : Nat) (w : GroupWeights) (caps : GroupLimits)
    (groups : List (Option String × GroupDemand)) : Prop :=
  ∀ l₁ g l₂, groups = l₁ ++ g :: l₂ → ∀ group limit, g.1 = some group → caps.limitFor group = some limit →
    min (w.minimum g) (capacity - (l₁.map w.minimum).sum) ≤ limit

section Minimums

variable {capacity : Nat} {w : GroupWeights} {caps : GroupLimits} {groups : List (Option String × GroupDemand)}

/-- Each group gets its minimum out of what the minimums before it leave. -/
theorem mem_grantMinimums {x : Option String × GroupDemand × Nat} :
    x ∈ grantMinimums w capacity groups ↔ ∃ l₁ g l₂, groups = l₁ ++ g :: l₂ ∧
      x = (g.1, g.2, min (w.minimum g) (capacity - (l₁.map w.minimum).sum)) := by
  induction groups generalizing capacity with
  | nil => simp [grantMinimums]
  | cons g groups ih =>
    have hrest (l : List (Option String × GroupDemand)) :
        capacity - min (w.minimum g) capacity - (l.map w.minimum).sum = capacity - ((g :: l).map w.minimum).sum := by
      rw [List.map_cons, List.sum_cons]
      omega
    have hcons : grantMinimums w capacity (g :: groups) = (g.1, g.2, min (w.minimum g) capacity) ::
        grantMinimums w (capacity - min (w.minimum g) capacity) groups := rfl
    rw [hcons, List.mem_cons, ih]
    constructor
    · rintro (rfl | ⟨l₁, g', l₂, rfl, rfl⟩)
      · exact ⟨[], g, groups, rfl, rfl⟩
      · exact ⟨g :: l₁, g', l₂, rfl, by rw [hrest]⟩
    · rintro ⟨l₁, g', l₂, hgroups, rfl⟩
      cases l₁ with
      | nil =>
        obtain ⟨rfl, -⟩ := List.cons.inj hgroups
        exact .inl rfl
      | cons first l₁ =>
        obtain ⟨rfl, rfl⟩ := List.cons.inj hgroups
        exact .inr ⟨l₁, g', l₂, rfl, by rw [hrest]⟩

/-- Whatever the weights give, an allocation respects the limits if and only if the minimums do. -/
theorem computeAllocation_respected_iff (pausedGroups : List String) (share : Option String → Nat) :
    caps.Respected (computeAllocation capacity groups w caps pausedGroups share) ↔
      MinimumsFit capacity w caps (groups.filter fun g => !g.1.any pausedGroups.contains) := by
  unfold computeAllocation
  generalize groups.filter (fun g => !g.1.any pausedGroups.contains) = active
  constructor
  · intro h l₁ g l₂ hactive group limit hgroup hlimit
    have hgranted : (g.1, g.2, min (w.minimum g) (capacity - (l₁.map w.minimum).sum)) ∈
        grantMinimums w capacity active :=
      mem_grantMinimums.2 ⟨l₁, g, l₂, hactive, rfl⟩
    have hmem := List.mem_map_of_mem (f := fun g => (g.1, g.2.2 + min (share g.1) (caps.headroom g.1 g.2.1 g.2.2)))
      hgranted
    dsimp only at hmem
    rw [hgroup] at hmem
    have hle := h group limit _ hlimit hmem
    omega
  · intro h group limit n hlimit hn
    obtain ⟨x, hx, heq⟩ := List.mem_map.1 hn
    obtain ⟨l₁, g, l₂, hactive, rfl⟩ := mem_grantMinimums.1 hx
    obtain ⟨hgroup, rfl⟩ := Prod.mk.inj heq
    have hgrant := h l₁ g l₂ hactive group limit hgroup hlimit
    have hheadroom : caps.headroom g.1 g.2 (min (w.minimum g) (capacity - (l₁.map w.minimum).sum)) ≤
        limit - min (w.minimum g) (capacity - (l₁.map w.minimum).sum) := by
      dsimp only at hgroup
      rw [GroupLimits.headroom, hgroup, Option.bind_some, hlimit]
      exact Nat.min_le_right ..
    dsimp only
    omega

end Minimums

section Shares

variable {capacity : Nat} {demand : Demand} {w : GroupWeights} {caps : GroupLimits} {pausedGroups : List String}

/-- A share is within the headroom of the group. -/
private theorem distribute_le {remaining total : Nat} {granted : List (Option String × GroupDemand × Nat)}
    (hkeys : (granted.map (·.1)).Nodup) {g : Option String × GroupDemand × Nat} (hg : g ∈ granted) :
    ((distribute w caps remaining total granted).lookup g.1).getD 0 ≤ caps.headroom g.1 g.2.1 g.2.2 := by
  obtain ⟨dealt, hdealt, hvalues⟩ := distribute_spec w caps remaining total hkeys
  have hrooms := hdealt.le_rooms
  rw [List.map_map, List.forall₂_map_right_iff, List.forall₂_iff_get] at hrooms
  obtain ⟨i, hi, rfl⟩ := List.mem_iff_getElem.1 hg
  have hlt : i < dealt.length := by rwa [hrooms.1]
  have hroom := hrooms.2 i hlt hi
  have hvalue := congrArg (·[i]?) hvalues
  have hneed := GroupInfo.init_need w caps remaining total granted[i]
  have hslots := (GroupInfo.init_bounded w caps remaining total granted[i]).slots_le
  simp only [List.getElem?_map, List.getElem?_zipWith, List.getElem?_eq_getElem hi, List.getElem?_eq_getElem hlt,
    Option.map_some, Option.some.injEq] at hvalue
  simp only [List.get_eq_getElem, Function.comp_apply, GroupInfo.room] at hroom
  omega

/-- The shares in exact arithmetic are one of the ways in which the weights can give slots. -/
theorem exactAllocation_compute {slots : List (Option String × Nat)}
    (h : exactAllocation capacity demand w caps pausedGroups = some slots) :
    ∃ share, slots = computeAllocation capacity demand.groups w caps pausedGroups share := by
  cases htotal : w.total ((demand.active pausedGroups).map (·.1)) with
  | none =>
    rw [exactAllocation_none htotal] at h
    cases h
  | some total =>
    have hkeys := demand.nodup_active pausedGroups
    unfold exactAllocation at h
    dsimp only at h
    rw [htotal] at h
    dsimp only at h
    unfold computeAllocation
    change ∃ share, slots = (grantMinimums w capacity (demand.active pausedGroups)).map _
    have hgranted : ((grantMinimums w capacity (demand.active pausedGroups)).map (·.1)).Nodup := by
      rwa [grantMinimums_keys]
    generalize grantMinimums w capacity (demand.active pausedGroups) = granted at h hgranted
    split at h
    · cases h
      refine ⟨fun key => ((distribute w caps (capacity - (granted.map (·.2.2)).sum) total granted).lookup key).getD
        0, ?_⟩
      refine List.map_congr_left fun g hg => ?_
      rw [Nat.min_eq_left (distribute_le hgranted hg)]
    · cases h
      refine ⟨fun _ => 0, List.map_congr_left fun g _ => ?_⟩
      rw [Nat.zero_min, Nat.add_zero]

end Shares

/-! ### The first pass -/

/-- The tasks of a group that the loop may start without another look at its limit. -/
def RunLoop.planned (σ : RunLoop) (group : String) : Nat := σ.inFlight.inGroup group + σ.budget (some group)

/-- A group that the loop is about to start tasks in stays within its limit. -/
def RunLoop.Budgeted (σ : RunLoop) (caps : GroupLimits) : Prop :=
  ∀ group limit, caps.limitFor group = some limit → 0 < σ.planned group →
    σ.futures.store.runningCountForGroup group + σ.planned group ≤ limit

/-- One run loop starts the executions.  The minimums fit the limits when slots are allocated, a limit is not
lowered below what the first pass is about to start, fast dispatch is no part of fair dispatch, and the row that is
claimed is in the group that the gate has looked at. -/
def LoopStep.Guarded (σ : RunLoop) : LoopStep → Prop
  | .other (.store a) => a.starts = false
  | .other st => st.isSpawn = false
  | .configure _ groupLimits _ => σ.Budgeted groupLimits
  | .allocate groups w pausedGroups _ now =>
    MinimumsFit σ.max w σ.groupLimits ((groups.map fun group => (group, σ.futures.store.demand now group)).filter
        fun g =>
      !g.1.any pausedGroups.contains)
  | .pop .. => ∀ group, σ.budget group = 0
  | .claim .. =>
    ∀ task, σ.inFlight = .admitted task → ∀ r ∈ σ.futures.store.tasks, r.id = task.id → r.status = .pending →
    r.groupKey = task.groupKey
  | _ => True

section FirstPass

variable {c : SpawnConfig} {sha256 : List UInt8 → String} {σ τ : RunLoop} {caps : GroupLimits}

private theorem RunLoop.Budgeted.of_le (h : σ.Budgeted caps) (hplanned : ∀ group, τ.planned group ≤ σ.planned group)
    (hall : ∀ group, τ.futures.store.runningCountForGroup group + τ.planned group ≤
      σ.futures.store.runningCountForGroup group + σ.planned group) : τ.Budgeted caps := by
  intro group limit hlimit hpos
  have hold := h group limit hlimit
  have hle := hplanned group
  have hsum := hall group
  omega

private theorem RunLoop.Budgeted.of_none (h : ∀ group, τ.planned group = 0) : τ.Budgeted caps := by
  intro group limit _ hpos
  have hnone := h group
  omega

private theorem LoopStep.Guarded.spawns {st : FutureStep} (h : (LoopStep.other st).Guarded σ) :
    st.isSpawn = false := by
  cases st with
  | spawn task phase => exact h
  | _ => rfl

private theorem budgeted_allocate (h : σ.Budgeted σ.groupLimits) {groups : List (Option String)} {w : GroupWeights}
    {pausedGroups : List String} {share : Option String → Nat} {now : Int}
    (hguard : (LoopStep.allocate groups w pausedGroups share now).Guarded σ) :
    ((LoopStep.allocate groups w pausedGroups share now).exec c sha256 σ).Budgeted σ.groupLimits := by
  rw [LoopStep.exec]
  split
  · rename_i hnothing
    have hrespected := (computeAllocation_respected_iff pausedGroups share).2 hguard
    intro group limit hlimit hpos
    unfold RunLoop.planned at hpos ⊢
    dsimp only at hpos ⊢
    rw [hnothing] at hpos ⊢
    have hzero : (InFlight.nothing).inGroup group = 0 := rfl
    have hcount : σ.futures.store.runningIn (some group) = σ.futures.store.runningCountForGroup group := rfl
    cases hslots : List.lookup (some group) (computeAllocation σ.max (groups.map fun group =>
        (group, σ.futures.store.demand now group)) w σ.groupLimits pausedGroups share) with
    | none =>
      rw [hslots] at hpos
      simp only [Option.getD_none, Nat.zero_sub] at hpos
      omega
    | some slots =>
      have hmem : (some group, slots) ∈ computeAllocation σ.max (groups.map fun group =>
          (group, σ.futures.store.demand now group)) w σ.groupLimits pausedGroups share := by
        obtain ⟨l₁, l₂, hl, -⟩ := List.lookup_eq_some_iff.1 hslots
        rw [hl]
        simp
      have hle := hrespected group limit slots hlimit hmem
      rw [hslots] at hpos
      simp only [Option.getD_some] at hpos ⊢
      omega
  · exact h

private theorem budgeted_admit (h : σ.Budgeted σ.groupLimits) {task : TaskRecord} {gate : GateConfig}
    {ctx : GateContext} :
    ((LoopStep.admitCandidate task gate ctx).exec c sha256 σ).Budgeted σ.groupLimits := by
  rw [LoopStep.exec]
  split
  · split
    · rename_i hadmit
      intro group limit hlimit hpos
      unfold RunLoop.planned InFlight.inGroup at hpos ⊢
      dsimp only at hpos ⊢
      split at hpos
      · rename_i hgroup
        have hlt := admits_group hadmit.2 hgroup hlimit
        rw [if_pos hgroup]
        omega
      · omega
    · exact h
  · exact h

private theorem budgeted_admitAllocated (h : σ.Budgeted σ.groupLimits) {task : TaskRecord} {gate : GateConfig}
    {ctx : GateContext} : ((LoopStep.admitAllocated task gate ctx).exec c sha256 σ).Budgeted σ.groupLimits := by
  rw [LoopStep.exec]
  split
  · rename_i hnothing
    split
    · rename_i hadmit
      obtain ⟨-, hbudget, -⟩ := hadmit
      have hplanned : ∀ group, { σ with
          free := σ.free - 1
          budget := Function.update σ.budget task.groupKey (σ.budget task.groupKey - 1)
          inFlight := .admitted task }.planned group = σ.planned group := by
        intro group
        unfold RunLoop.planned
        rw [hnothing]
        simp only [InFlight.inGroup]
        by_cases hgroup : task.groupKey = some group
        · rw [if_pos hgroup, hgroup, Function.update_self]
          rw [hgroup] at hbudget
          omega
        · rw [if_neg hgroup, Function.update_of_ne (Ne.symm hgroup)]
      refine h.of_le (fun group => (hplanned group).le) fun group => ?_
      rw [hplanned]
    · exact h
  · exact h

private theorem budgeted_claim (h : σ.Budgeted σ.groupLimits) (hs : σ.futures.store.Schema) {now : Int}
    {readings : Readings} (hguard : (LoopStep.claim now readings).Guarded σ) :
    ((LoopStep.claim now readings).exec c sha256 σ).Budgeted σ.groupLimits := by
  rw [LoopStep.exec]
  split
  · rename_i task hflight
    have hrunning : ∀ group, (claimTask task.id now σ.futures.store).2.runningCountForGroup group ≤
        σ.futures.store.runningCountForGroup group + σ.inFlight.inGroup group :=
      claim_running hs hflight (show (LoopStep.claim now readings).HasRoom σ from hguard)
    split
    · rename_i s hclaim
      rw [hclaim] at hrunning
      dsimp only at hrunning
      refine h.of_le (fun group => ?_) fun group => ?_
      · unfold RunLoop.planned
        exact Nat.add_le_add_right (Nat.zero_le _) _
      · have hnew := hrunning group
        unfold RunLoop.planned
        show s.runningCountForGroup group + (0 + σ.budget (some group)) ≤ _
        omega
    · rename_i s _ hclaim
      rw [hclaim] at hrunning
      dsimp only at hrunning
      refine h.of_le (fun group => ?_) fun group => ?_
      · unfold RunLoop.planned
        exact Nat.add_le_add_right (Nat.zero_le _) _
      · have hnew := hrunning group
        unfold RunLoop.planned
        show s.runningCountForGroup group + (0 + σ.budget (some group)) ≤ _
        omega
  · exact h

private theorem budgeted_spawn (h : σ.Budgeted σ.groupLimits) (hs : σ.futures.store.Schema)
    {registered : Bool} {now : Int} :
    ((LoopStep.spawn registered now).exec c sha256 σ).Budgeted σ.groupLimits := by
  rw [LoopStep.exec]
  split
  · rename_i task phase tasks hflight
    have hplanned (group : String) : σ.planned group = 0 + σ.budget (some group) := by
      unfold RunLoop.planned
      rw [hflight]
      rfl
    split
    · refine h.of_le (fun group => (hplanned group).ge) fun group => ?_
      rw [hplanned]
      exact Nat.le_refl _
    · have hfail : (LoopStep.failTask task phase now).starts = false := by
        cases phase with
        | execute => rfl
        | finalize => rfl
      refine h.of_le (fun group => (hplanned group).ge) fun group => ?_
      rw [hplanned]
      exact Nat.add_le_add_right (Action.runningCount_le sha256 hs hfail group) _
  · rename_i hflight
    refine h.of_le (fun group => ?_) fun group => ?_
    · unfold RunLoop.planned
      exact Nat.add_le_add_right (Nat.zero_le _) _
    · unfold RunLoop.planned
      exact Nat.add_le_add_left (Nat.add_le_add_right (Nat.zero_le _) _) _
  · exact h

private theorem RunLoop.Budgeted.rest (h : σ.Budgeted caps) : σ.rest.Budgeted caps := by
  refine h.of_le (fun group => ?_) fun group => ?_
  · unfold RunLoop.planned
    exact Nat.add_le_add_left (Nat.zero_le _) _
  · unfold RunLoop.planned
    exact Nat.add_le_add_left (Nat.add_le_add_left (Nat.zero_le _) _) _

private theorem groupLimits_exec {st : LoopStep}
    (h : ∀ maxConcurrency groupLimits moduleCaps, st ≠ .configure maxConcurrency groupLimits moduleCaps) :
    (st.exec c sha256 σ).groupLimits = σ.groupLimits := by
  cases st with
  | configure maxConcurrency groupLimits moduleCaps => exact absurd rfl (h maxConcurrency groupLimits moduleCaps)
  | admitCandidate task gate ctx =>
    rw [LoopStep.exec]
    split
    · split
      · rfl
      · rfl
    · rfl
  | admitAllocated task gate ctx =>
    rw [LoopStep.exec]
    split
    · split
      · rfl
      · rfl
    · rfl
  | finalize id now =>
    rw [LoopStep.exec]
    split
    · split
      · rfl
      · rfl
    · rfl
  | claim now readings =>
    rw [LoopStep.exec]
    split
    · split
      · rfl
      · rfl
    · rfl
  | spawn registered now =>
    rw [LoopStep.exec]
    split
    · split
      · rfl
      · rfl
    · rfl
    · rfl
  | look dispatched =>
    rw [LoopStep.exec]
    split
    · rfl
    · rfl
  | allocate groups w pausedGroups share now =>
    rw [LoopStep.exec]
    split
    · rfl
    · rfl
  | pop limit aging now =>
    rw [LoopStep.exec]
    split
    · rfl
    · rfl
  | _ => rfl

private theorem budgeted_exec (h : σ.Budgeted σ.groupLimits) (hs : σ.futures.store.Schema) {st : LoopStep}
    (hguard : st.Guarded σ) : (st.exec c sha256 σ).Budgeted (st.exec c sha256 σ).groupLimits := by
  have hlimits : (∀ maxConcurrency groupLimits moduleCaps, st ≠ .configure maxConcurrency groupLimits moduleCaps) →
      (st.exec c sha256 σ).groupLimits = σ.groupLimits := groupLimits_exec
  cases st with
  | other st =>
    have hshrinks : σ.futures.Shrinks (st.exec c sha256 σ.futures) := shrinks_exec hs hguard.spawns fun a ha => by
      subst ha
      exact hguard
    exact h.of_le (fun _ => Nat.le_refl _) fun group => Nat.add_le_add_right (hshrinks.group group) _
  | configure maxConcurrency groupLimits moduleCaps => exact hguard
  | finalizerReady id => exact h
  | load => exact h.rest
  | look dispatched =>
    rw [hlimits (by rintro _ _ _ ⟨⟩), LoopStep.exec]
    split
    · exact h
    · exact h
  | allocate groups w pausedGroups share now =>
    rw [hlimits (by rintro _ _ _ ⟨⟩)]
    exact budgeted_allocate h hguard
  | pop limit aging now =>
    rw [hlimits (by rintro _ _ _ ⟨⟩), LoopStep.exec]
    split
    · refine .of_none fun group => ?_
      unfold RunLoop.planned
      exact (Nat.zero_add _).trans (hguard (some group))
    · exact h
  | admitCandidate task gate ctx =>
    rw [hlimits (by rintro _ _ _ ⟨⟩)]
    exact budgeted_admit h
  | admitAllocated task gate ctx =>
    rw [hlimits (by rintro _ _ _ ⟨⟩)]
    exact budgeted_admitAllocated h
  | claim now readings =>
    rw [hlimits (by rintro _ _ _ ⟨⟩)]
    exact budgeted_claim h hs hguard
  | spawn registered now =>
    rw [hlimits (by rintro _ _ _ ⟨⟩)]
    exact budgeted_spawn h hs
  | finalize id now =>
    rw [hlimits (by rintro _ _ _ ⟨⟩), LoopStep.exec]
    split
    · split
      · exact .of_none fun group => rfl
      · exact h
    · exact h
  | finish => exact h.rest

end FirstPass

/-- Slots are allocated within the limits of the groups if and only if the minimums fit them, and in every run with
guarded steps the loop lifts no group above its limit. -/
theorem caps_respected_iff (c : SpawnConfig) (sha256 : List UInt8 → String) :
    (∀ (capacity : Nat) (demand : Demand) (w : GroupWeights) (caps : GroupLimits) (pausedGroups : List String)
      (slots : List (Option String × Nat)), exactAllocation capacity demand w caps pausedGroups = some slots →
        (caps.Respected slots ↔ MinimumsFit capacity w caps (demand.active pausedGroups))) ∧
    ∀ σ : RunLoop, Runs RunLoop.Start (fun σ st => st.exec c sha256 σ) (fun σ st => LoopStep.Guarded σ st) σ →
      ∀ now readings, (LoopStep.claim now readings).Guarded σ →
        ∀ group limit, σ.groupLimits.limitFor group = some limit →
        ((LoopStep.claim now readings).exec c sha256 σ).futures.store.runningCountForGroup group ≤ limit ∨
          ((LoopStep.claim now readings).exec c sha256 σ).futures.store.runningCountForGroup group ≤
            σ.futures.store.runningCountForGroup group := by
  refine ⟨fun capacity demand w caps pausedGroups slots hslots => ?_,
    fun σ hrun now readings hguard group limit hlimit => ?_⟩
  · obtain ⟨share, rfl⟩ := exactAllocation_compute hslots
    exact computeAllocation_respected_iff pausedGroups share
  · have hkept : σ.futures.store.Schema ∧ σ.Budgeted σ.groupLimits := by
      refine hrun.invariant (I := fun σ => σ.futures.store.Schema ∧ σ.Budgeted σ.groupLimits) (fun σ hstart => ?_)
        fun σ st hσ hst => ?_
      · have hrest : σ.rest = σ := hstart.rest
        refine ⟨hstart.futures.store.schema, .of_none fun group => ?_⟩
        rw [RunLoop.planned, hstart.inFlight, ← hrest]
        rfl
      · refine ⟨schema_exec hσ.1 fun other hother => ?_, budgeted_exec hσ.2 hσ.1 hst⟩
        subst hother
        exact hst.spawns
    obtain ⟨hs, hbudgeted⟩ := hkept
    have hold := hbudgeted group limit hlimit
    unfold RunLoop.planned at hold
    rw [LoopStep.exec]
    split
    · rename_i task hflight
      have hrunning : (claimTask task.id now σ.futures.store).2.runningCountForGroup group ≤
          σ.futures.store.runningCountForGroup group + σ.inFlight.inGroup group :=
        claim_running hs hflight (show (LoopStep.claim now readings).HasRoom σ from hguard) group
      split
      · rename_i s hclaim
        rw [hclaim] at hrunning
        change s.runningCountForGroup group ≤ limit ∨
          s.runningCountForGroup group ≤ σ.futures.store.runningCountForGroup group
        dsimp only at hrunning
        omega
      · rename_i s _ hclaim
        rw [hclaim] at hrunning
        change s.runningCountForGroup group ≤ limit ∨
          s.runningCountForGroup group ≤ σ.futures.store.runningCountForGroup group
        dsimp only at hrunning
        omega
    · exact .inr (Nat.le_refl _)

/-! ### A minimum above the limit -/

/-- A group with a minimum of two slots. -/
private def twoSlots : GroupWeights := GroupWeights.new.setMinSlots "g" 2

private def oneGroup : Demand := mergeDemand [] [(some "g", 5)]

private def groupTask : TaskSubmission := { TaskSubmission.new "a" with groupKey := some "g" }

private def groupTask' : TaskSubmission := { TaskSubmission.new "b" with groupKey := some "g" }

/-- Two tasks of the group are submitted, and the first pass starts both. -/
private def firstPass : List LoopStep :=
  [.other (.store (.submitDirect groupTask 0)), .other (.store (.submitDirect groupTask' 0)), .load, .look 0,
    .allocate [some "g"] twoSlots [] (fun _ => 0) 0,
    .admitAllocated (queuedRecord groupTask 1) plainGate noTokens, .claim 0 ⟨0, 0⟩, .spawn true 0, .spawn true 0,
    .admitAllocated (queuedRecord groupTask' 2) plainGate noTokens]

private def twoLimit : RunLoop := loopStart 4 (GroupLimits.new.setLimit "g" 2) ∅

private theorem twoSlots_fit (capacity : Nat) (demand : Option String → GroupDemand) (pausedGroups : List String) :
    MinimumsFit capacity twoSlots (GroupLimits.new.setLimit "g" 2)
      (([some "g"].map fun group => (group, demand group)).filter fun g => !g.1.any pausedGroups.contains) := by
  intro l₁ g l₂ hgroups group limit hgroup hlimit
  have hmem : g ∈ ([some "g"].map fun group => (group, demand group)).filter fun g =>
      !g.1.any pausedGroups.contains := by
    rw [hgroups]
    simp
  have hkey : g = (some "g", demand (some "g")) := by simpa using (List.mem_filter.1 hmem).1
  obtain rfl : "g" = group := by
    rw [hkey] at hgroup
    exact Option.some.inj hgroup
  obtain rfl : 2 = limit := by
    have htwo : (GroupLimits.new.setLimit "g" 2).limitFor "g" = some 2 := by decide +kernel
    exact Option.some.inj (htwo.symm.trans hlimit)
  have hle : twoSlots.minimum g ≤ twoSlots.minSlotsFor (some "g") := by
    rw [← hgroup]
    exact Nat.min_le_left ..
  have hslots : twoSlots.minSlotsFor (some "g") = 2 := by decide +kernel
  omega

/-- With a limit of two slots the first pass lifts the group to its limit. -/
theorem firstPass_respected :
    (runLoop twoLimit (firstPass ++ [.claim 0 ⟨0, 0⟩])).futures.store.runningCountForGroup "g" = 2 ∧
      ((runLoop twoLimit (firstPass ++ [.claim 0 ⟨0, 0⟩])).futures.store.runningCountForGroup "g" ≤ 2 ∨
        (runLoop twoLimit (firstPass ++ [.claim 0 ⟨0, 0⟩])).futures.store.runningCountForGroup "g" ≤
          (runLoop twoLimit firstPass).futures.store.runningCountForGroup "g") := by
  have hclaim (σ : RunLoop) (task : TaskRecord) (hflight : σ.inFlight = .admitted task)
    (htask : task.groupKey = some "g")
      (hrows : ∀ r ∈ σ.futures.store.tasks, r.groupKey = some "g") : (LoopStep.claim 0 ⟨0, 0⟩).Guarded σ := by
    intro task' hflight' r hr _ _
    obtain rfl : task = task' := InFlight.admitted.inj (hflight.symm.trans hflight')
    rw [hrows r hr, htask]
  refine ⟨by decide +kernel, (caps_respected_iff threeRetries sampleSha256).2 (runLoop twoLimit firstPass)
    (Runs.list (.start (loopStart_start ..)) firstPass ?_) 0 ⟨0, 0⟩ ?_ "g" 2 (by decide +kernel)⟩
  · exact ⟨rfl, rfl, trivial, trivial, twoSlots_fit _ _ _, trivial,
      hclaim _ (queuedRecord groupTask 1) rfl rfl (by decide +kernel), trivial, trivial, trivial, trivial⟩
  · exact hclaim _ (queuedRecord groupTask' 2) rfl rfl (by decide +kernel)

/-- With a limit of one slot two tasks of the group run. -/
theorem minimum_exceeds_limit :
    (¬ ∀ (capacity : Nat) (demand : Demand) (w : GroupWeights) (caps : GroupLimits) (pausedGroups : List String)
      (slots : List (Option String × Nat)), exactAllocation capacity demand w caps pausedGroups = some slots →
        caps.Respected slots) ∧
    (runLoop (loopStart 4 (GroupLimits.new.setLimit "g" 1) ∅)
      (firstPass ++ [.claim 0 ⟨0, 0⟩])).futures.store.runningCountForGroup "g" = 2 := by
  refine ⟨fun h => ?_, by decide +kernel⟩
  have hslots : exactAllocation 4 oneGroup twoSlots (GroupLimits.new.setLimit "g" 1) [] = some [(some "g", 2)] := by
    decide +kernel
  have hle := h _ _ _ _ _ _ hslots "g" 1 2 (by decide +kernel) (by simp)
  omega

end Taskmill
