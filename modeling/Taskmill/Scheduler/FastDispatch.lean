import Taskmill.Scheduler.Gate
import Taskmill.Transact.Run

/-!
# Fast dispatch

`fast_dispatch` says that no gate check is needed: tasks are then taken from the queue without asking the gate.  The
builder computes the flag (`src/scheduler/builder.rs`), and the calls that change a limit at runtime clear it or
compute it again (`src/scheduler/control.rs`, `src/module.rs`).  Some of them forget to: the group limits, the
module caps and the resource reader can be set without clearing the flag, and a reader that is set later is not seen
when it is computed again.
-/

namespace Taskmill

open Transact

/-- The part of `SchedulerBuilder` that decides what the gate checks. -/
structure SchedulerBuilder where
  /-- the modules with their caps -/
  modules : List (String × Option Nat) := []
  /-- how many pressure sources -/
  pressureSources : Nat := 0
  enableResourceMonitoring : Bool := false
  /-- `bandwidth_limit_bps.is_some()` -/
  bandwidthLimit : Bool := false
  defaultGroupConcurrency : Nat := 0
  groupConcurrencyOverrides : List (String × Nat) := []
  typeRateLimits : List (String × RateLimit) := []
  groupRateLimits : List (String × RateLimit) := []
  groupWeights : List (String × UInt32) := []
  defaultGroupWeight : UInt32 := 1
  groupMinSlots : List (String × Nat) := []

/-- What the scheduler knows about limits. -/
structure Gating where
  fastDispatch : Bool
  groupLimits : GroupLimits
  moduleCaps : StringMap Nat
  typeRateLimits : RateLimits
  groupRateLimits : RateLimits
  groupWeights : GroupWeights
  /-- the set in memory -/
  pausedGroups : List String
  /-- the groups in the table of the database -/
  persistedGroups : List String
  /-- the pressure sources of the gate -/
  pressureSources : Nat
  hasPressureSources : Bool
  /-- `resource_reader.is_some()` -/
  resourceReader : Bool
  hasResourceMonitoring : Bool

/-- The loop over the rate limits of the builder. -/
def RateLimits.ofList (entries : List (String × RateLimit)) : RateLimits :=
  entries.foldl (fun limits e => limits.set e.1 e.2 0) ∅

/-- `build`: there must be a module, and no two with the same name; `persisted` are the paused groups of the
database. -/
def SchedulerBuilder.build (b : SchedulerBuilder) (persisted : List String) : Option Gating :=
  if b.modules ≠ [] ∧ (b.modules.map (·.1)).Nodup then
    let moduleCaps := StringMap.ofList (b.modules.filterMap fun m => m.2.map (m.1, ·))
    let hasPressure := b.pressureSources != 0
    let hasRateLimits := !b.typeRateLimits.isEmpty || !b.groupRateLimits.isEmpty
    let hasGroupWeights := !b.groupWeights.isEmpty || !b.groupMinSlots.isEmpty
    let hasGroups := decide (0 < b.defaultGroupConcurrency) || !b.groupConcurrencyOverrides.isEmpty
    let hasModuleCaps := !moduleCaps.isEmpty
    let hasPausedGroups := !persisted.isEmpty
    some
      { fastDispatch :=
          !hasGroups && !b.enableResourceMonitoring && !hasPressure && !hasModuleCaps && !hasPausedGroups &&
            !hasRateLimits && !hasGroupWeights
        groupLimits := ⟨b.defaultGroupConcurrency, StringMap.ofList b.groupConcurrencyOverrides⟩
        moduleCaps := moduleCaps
        typeRateLimits := .ofList b.typeRateLimits
        groupRateLimits := .ofList b.groupRateLimits
        groupWeights := ⟨b.defaultGroupWeight, StringMap.ofList b.groupWeights, StringMap.ofList b.groupMinSlots⟩
        pausedGroups := persisted
        persistedGroups := persisted
        -- a bandwidth limit is a pressure source, if there is a reader
        pressureSources := b.pressureSources + (b.bandwidthLimit && b.enableResourceMonitoring).toNat
        hasPressureSources := hasPressure
        resourceReader := b.enableResourceMonitoring
        hasResourceMonitoring := b.enableResourceMonitoring }
  else none

/-- The calls that change what the gate checks.  A `pause_group` or `resume_group` that fails has changed nothing
here. -/
inductive ControlCall where
  | setGroupLimit (group : String) (limit : Nat)
  | removeGroupLimit (group : String)
  | setDefaultGroupConcurrency (limit : Nat)
  /-- `ModuleHandle::set_max_concurrency` -/
  | setMaxConcurrency (module : String) (n : Nat)
  | setRateLimit (taskType : String) (limit : RateLimit) (settled : Nat)
  | removeRateLimit (taskType : String)
  | setGroupRateLimit (group : String) (limit : RateLimit) (settled : Nat)
  | removeGroupRateLimit (group : String)
  | setGroupWeight (group : String) (weight : UInt32)
  | removeGroupWeight (group : String)
  | resetGroupWeights
  | setGroupMinimumSlots (group : String) (slots : Nat)
  | pauseGroup (group : String)
  | resumeGroup (group : String)
  | setResourceReader

/-- Something in the configuration needs the gate. -/
def Gating.restricted (σ : Gating) : Bool :=
  let hasGroups := decide (0 < σ.groupLimits.default) || σ.groupLimits.hasOverrides || !σ.pausedGroups.isEmpty
  let hasModuleCaps := !σ.moduleCaps.isEmpty
  let hasRateLimits := !σ.typeRateLimits.isEmpty || !σ.groupRateLimits.isEmpty
  let hasGroupWeights := σ.groupWeights.isConfigured
  hasGroups || σ.hasResourceMonitoring || hasModuleCaps || σ.hasPressureSources || hasRateLimits || hasGroupWeights

/-- `maybe_restore_fast_dispatch` -/
def Gating.maybeRestoreFastDispatch (σ : Gating) : Gating :=
  if σ.restricted then σ else { σ with fastDispatch := true }

/-- What the call does before it computes the flag again, if it does that. -/
def ControlCall.change (σ : Gating) : ControlCall → Gating
  | .setGroupLimit group limit => { σ with groupLimits := σ.groupLimits.setLimit group limit }
  | .removeGroupLimit group => { σ with groupLimits := σ.groupLimits.removeLimit group }
  | .setDefaultGroupConcurrency limit => { σ with groupLimits := σ.groupLimits.setDefault limit }
  | .setMaxConcurrency module n =>
    { σ with moduleCaps := if n = 0 then σ.moduleCaps.erase module else σ.moduleCaps.insert module n }
  | .setRateLimit taskType limit settled =>
    { σ with typeRateLimits := σ.typeRateLimits.set taskType limit settled, fastDispatch := false }
  | .removeRateLimit taskType => { σ with typeRateLimits := σ.typeRateLimits.remove taskType }
  | .setGroupRateLimit group limit settled =>
    { σ with groupRateLimits := σ.groupRateLimits.set group limit settled, fastDispatch := false }
  | .removeGroupRateLimit group => { σ with groupRateLimits := σ.groupRateLimits.remove group }
  | .setGroupWeight group weight =>
    { σ with groupWeights := σ.groupWeights.setWeight group weight, fastDispatch := false }
  | .removeGroupWeight group => { σ with groupWeights := σ.groupWeights.removeWeight group }
  | .resetGroupWeights => { σ with groupWeights := .new }
  | .setGroupMinimumSlots group slots =>
    { σ with groupWeights := σ.groupWeights.setMinSlots group slots, fastDispatch := false }
  | .pauseGroup group =>
    -- a group that is in the table is left alone
    if σ.persistedGroups.contains group then σ
    else
      { σ with
        persistedGroups := group :: σ.persistedGroups
        pausedGroups := group :: σ.pausedGroups.filter (· != group)
        fastDispatch := false }
  | .resumeGroup group =>
    if σ.pausedGroups.contains group then
      { σ with
        persistedGroups := σ.persistedGroups.filter (· != group)
        pausedGroups := σ.pausedGroups.filter (· != group) }
    else σ
  | .setResourceReader => { σ with resourceReader := true }

/-- The call ends with `maybe_restore_fast_dispatch`. -/
def ControlCall.restores (σ : Gating) : ControlCall → Bool
  | .removeRateLimit _ | .removeGroupRateLimit _ | .removeGroupWeight _ | .resetGroupWeights => true
  | .resumeGroup group => σ.pausedGroups.contains group && (σ.pausedGroups.filter (· != group)).isEmpty
  | _ => false

def ControlCall.exec (σ : Gating) (c : ControlCall) : Gating :=
  if c.restores σ then (c.change σ).maybeRestoreFastDispatch else c.change σ

/-- No check of the gate can deny a task. -/
structure Gating.Vacuous (σ : Gating) : Prop where
  default : σ.groupLimits.default = 0
  overrides : σ.groupLimits.hasOverrides = false
  moduleCaps : σ.moduleCaps.isEmpty = true
  typeRateLimits : σ.typeRateLimits.isEmpty = true
  groupRateLimits : σ.groupRateLimits.isEmpty = true
  groupWeights : σ.groupWeights.isConfigured = false
  pausedGroups : σ.pausedGroups = []
  pressureSources : σ.pressureSources = 0
  resourceReader : σ.resourceReader = false

/-- The flag is on only if there is nothing to check. -/
def Gating.FastIsVacuous (σ : Gating) : Prop := σ.fastDispatch = true → σ.Vacuous

/-- The calls that do not clear the flag are made while it is off, and the flag is not computed again without
looking at a reader that was set later. -/
def ControlCall.Minded (σ : Gating) : ControlCall → Prop
  | .setGroupLimit .. | .setResourceReader => σ.fastDispatch = false
  | .setDefaultGroupConcurrency limit => limit ≠ 0 → σ.fastDispatch = false
  | .setMaxConcurrency _ n => n ≠ 0 → σ.fastDispatch = false
  | c => c.restores σ = true → σ.resourceReader = true → (c.change σ).restricted = true

/-! ### The flag and what it stands for -/

/-- The pressure sources come from the builder, which notes that there are some. -/
private def Gating.Noted (σ : Gating) : Prop :=
  σ.pressureSources ≠ 0 → σ.hasPressureSources = true ∨ σ.hasResourceMonitoring = true

section Steps

variable {σ : Gating}

/-- Without restrictions that the flag is computed from, only a reader can need the gate. -/
private theorem vacuous_of_unrestricted (hn : σ.Noted) (h : σ.restricted = false)
    (hreader : σ.resourceReader = false) :
    σ.Vacuous := by
  simp only [Gating.restricted, Bool.or_eq_false_iff, Bool.not_eq_false', decide_eq_false_iff_not, Nat.not_lt,
    Nat.le_zero] at h
  obtain ⟨⟨⟨⟨⟨⟨⟨hdefault, hover⟩, hpaused⟩, hmon⟩, hcaps⟩, hpress⟩, htype, hgroup⟩, hweights⟩ := h
  refine ⟨hdefault, hover, hcaps, htype, hgroup, hweights, List.isEmpty_iff.1 hpaused, ?_, hreader⟩
  by_contra hne
  rcases hn hne with h | h
  · rw [hpress] at h
    cases h
  · rw [hmon] at h
    cases h

/-- Removing limits adds none. -/
private theorem change_vacuous {c : ControlCall} (hc : c.restores σ = true) (h : σ.Vacuous) :
    (c.change σ).Vacuous := by
  obtain ⟨hdefault, hover, hcaps, htype, hgroup, hweights, hpaused, hpress, hreader⟩ := h
  cases c with
  | removeRateLimit taskType =>
    exact ⟨hdefault, hover, hcaps, StringMap.isEmpty_erase htype taskType, hgroup, hweights, hpaused, hpress, hreader⟩
  | removeGroupRateLimit group =>
    exact ⟨hdefault, hover, hcaps, htype, StringMap.isEmpty_erase hgroup group, hweights, hpaused, hpress, hreader⟩
  | removeGroupWeight group =>
    refine ⟨hdefault, hover, hcaps, htype, hgroup, ?_, hpaused, hpress, hreader⟩
    simp only [GroupWeights.isConfigured, Bool.or_eq_false_iff, Bool.not_eq_false'] at hweights
    simp [ControlCall.change, GroupWeights.removeWeight, GroupWeights.isConfigured, hweights.2,
      StringMap.isEmpty_erase hweights.1 group]
  | resetGroupWeights => exact ⟨hdefault, hover, hcaps, htype, hgroup, rfl, hpaused, hpress, hreader⟩
  | resumeGroup group => simp [ControlCall.restores, hpaused] at hc
  | _ => cases hc

/-- A call that computes the flag again does not change it before. -/
private theorem fastDispatch_change {c : ControlCall} (hc : c.restores σ = true) :
    (c.change σ).fastDispatch = σ.fastDispatch ∧ (c.change σ).resourceReader = σ.resourceReader := by
  cases c with
  | resumeGroup group =>
    rw [ControlCall.change]
    split
    · exact ⟨rfl, rfl⟩
    · exact ⟨rfl, rfl⟩
  | removeRateLimit taskType => exact ⟨rfl, rfl⟩
  | removeGroupRateLimit group => exact ⟨rfl, rfl⟩
  | removeGroupWeight group => exact ⟨rfl, rfl⟩
  | resetGroupWeights => exact ⟨rfl, rfl⟩
  | _ => cases hc

private theorem noted_exec (hn : σ.Noted) (c : ControlCall) : (c.exec σ).Noted := by
  have hchange : (c.change σ).Noted := by
    cases c with
    | pauseGroup group =>
      rw [ControlCall.change]
      split
      · exact hn
      · exact hn
    | resumeGroup group =>
      rw [ControlCall.change]
      split
      · exact hn
      · exact hn
    | _ => exact hn
  rw [ControlCall.exec]
  split
  · rw [Gating.maybeRestoreFastDispatch]
    split
    · exact hchange
    · exact hchange
  · exact hchange

/-- A call that computes the flag again. -/
private theorem exec_restores (hn : σ.Noted) (h : σ.FastIsVacuous) {c : ControlCall} (hc : c.restores σ = true) :
    (c.exec σ).FastIsVacuous ↔ (c.restores σ = true → σ.resourceReader = true → (c.change σ).restricted = true) := by
  obtain ⟨hfast, hreader⟩ := fastDispatch_change hc
  have hchange : (c.change σ).Noted := by
    cases hr : (c.change σ).restricted with
    | true =>
      have hn' := noted_exec hn c
      rwa [ControlCall.exec, if_pos hc, Gating.maybeRestoreFastDispatch, if_pos hr] at hn'
    | false =>
      have hn' := noted_exec hn c
      rw [ControlCall.exec, if_pos hc, Gating.maybeRestoreFastDispatch, hr] at hn'
      exact hn'
  rw [ControlCall.exec, if_pos hc, Gating.maybeRestoreFastDispatch]
  cases hr : (c.change σ).restricted with
  | true =>
    refine iff_of_true (fun hon => ?_) fun _ _ => rfl
    have hon' : (c.change σ).fastDispatch = true := hon
    exact change_vacuous hc (h (hfast ▸ hon'))
  | false =>
    constructor
    · intro hvac _ hread
      have hoff := (hvac rfl).resourceReader
      have hread' : (c.change σ).resourceReader = true := hreader.trans hread
      rw [← hread']
      exact hoff.symm ▸ rfl
    · intro hread _
      have hoff : (c.change σ).resourceReader = false := by
        rw [hreader]
        by_contra hon
        cases hread hc (Bool.eq_true_of_not_eq_false hon)
      obtain ⟨h₁, h₂, h₃, h₄, h₅, h₆, h₇, h₈, h₉⟩ := vacuous_of_unrestricted hchange hr hoff
      exact ⟨h₁, h₂, h₃, h₄, h₅, h₆, h₇, h₈, h₉⟩

/-- A call that sets a limit and leaves the flag alone. -/
private theorem exec_sets {σ' : Gating} (hfast : σ'.fastDispatch = σ.fastDispatch) (hnot : ¬ σ'.Vacuous) :
    σ'.FastIsVacuous ↔ σ.fastDispatch = false := by
  constructor
  · intro hvac
    by_contra hon
    exact hnot (hvac (hfast.trans (Bool.eq_true_of_not_eq_false hon)))
  · intro hoff hon
    rw [hfast, hoff] at hon
    cases hon

/-- The flag still stands for what it should after a call if and only if the call is minded. -/
private theorem exec_iff (hn : σ.Noted) (h : σ.FastIsVacuous) (c : ControlCall) :
    (c.exec σ).FastIsVacuous ↔ c.Minded σ := by
  cases c with
  | setGroupLimit group limit =>
    refine exec_sets rfl fun hvac => ?_
    have hover : (ControlCall.exec σ (.setGroupLimit group limit)).groupLimits.hasOverrides = true := by
      simp [ControlCall.exec, ControlCall.restores, ControlCall.change, GroupLimits.setLimit,
        GroupLimits.hasOverrides]
    rw [hvac.overrides] at hover
    cases hover
  | setResourceReader =>
    refine exec_sets rfl fun hvac => ?_
    cases hvac.resourceReader
  | removeGroupLimit group =>
    refine iff_of_true (fun hon => ?_) nofun
    obtain ⟨hdefault, hover, hcaps, htype, hgroup, hweights, hpaused, hpress, hreader⟩ := h hon
    refine ⟨hdefault, ?_, hcaps, htype, hgroup, hweights, hpaused, hpress, hreader⟩
    rw [GroupLimits.hasOverrides, Bool.not_eq_false'] at hover
    rw [GroupLimits.hasOverrides, Bool.not_eq_false']
    exact StringMap.isEmpty_erase hover group
  | setDefaultGroupConcurrency limit =>
    by_cases hlimit : limit = 0
    · refine iff_of_true (fun hon => ?_) fun hne => absurd hlimit hne
      obtain ⟨_, hover, hcaps, htype, hgroup, hweights, hpaused, hpress, hreader⟩ := h hon
      exact ⟨hlimit, hover, hcaps, htype, hgroup, hweights, hpaused, hpress, hreader⟩
    · have hsets : (ControlCall.exec σ (.setDefaultGroupConcurrency limit)).FastIsVacuous ↔ σ.fastDispatch = false :=
        exec_sets rfl fun hvac => hlimit hvac.default
      exact hsets.trans (imp_iff_right hlimit).symm
  | setMaxConcurrency module n =>
    by_cases hzero : n = 0
    · refine iff_of_true (fun hon => ?_) fun hne => absurd hzero hne
      obtain ⟨hdefault, hover, hcaps, htype, hgroup, hweights, hpaused, hpress, hreader⟩ := h hon
      refine ⟨hdefault, hover, ?_, htype, hgroup, hweights, hpaused, hpress, hreader⟩
      subst hzero
      exact StringMap.isEmpty_erase hcaps module
    · have hcaps : (ControlCall.exec σ (.setMaxConcurrency module n)).moduleCaps.isEmpty = false := by
        simp [ControlCall.exec, ControlCall.restores, ControlCall.change, hzero]
      have hsets : (ControlCall.exec σ (.setMaxConcurrency module n)).FastIsVacuous ↔ σ.fastDispatch = false := by
        refine exec_sets rfl fun hvac => ?_
        rw [hvac.moduleCaps] at hcaps
        cases hcaps
      exact hsets.trans (imp_iff_right hzero).symm
  | setRateLimit taskType limit settled => exact iff_of_true nofun nofun
  | setGroupRateLimit group limit settled => exact iff_of_true nofun nofun
  | setGroupWeight group weight => exact iff_of_true nofun nofun
  | setGroupMinimumSlots group slots => exact iff_of_true nofun nofun
  | pauseGroup group =>
    refine iff_of_true ?_ nofun
    rw [ControlCall.exec, if_neg nofun, ControlCall.change]
    split
    · exact h
    · nofun
  | resumeGroup group =>
    cases hc : ControlCall.restores σ (.resumeGroup group) with
    | true => exact exec_restores hn h hc
    | false =>
      refine iff_of_true ?_ fun hc' => ?_
      · rw [ControlCall.exec, if_neg (by simp [hc]), ControlCall.change]
        split
        · intro hon
          obtain ⟨hdefault, hover, hcaps, htype, hgroup, hweights, hpaused, hpress, hreader⟩ := h hon
          refine ⟨hdefault, hover, hcaps, htype, hgroup, hweights, ?_, hpress, hreader⟩
          rw [hpaused]
          rfl
        · exact h
      · rw [hc] at hc'
        cases hc'
  | removeRateLimit taskType => exact exec_restores hn h rfl
  | removeGroupRateLimit group => exact exec_restores hn h rfl
  | removeGroupWeight group => exact exec_restores hn h rfl
  | resetGroupWeights => exact exec_restores hn h rfl

end Steps

/-! ### The builder -/

private theorem isEmpty_rateLimits (entries : List (String × RateLimit)) :
    StringMap.isEmpty (RateLimits.ofList entries) = entries.isEmpty := by
  induction entries using List.reverseRecOn with
  | nil => rfl
  | append_singleton entries e _ =>
    rw [RateLimits.ofList, List.foldl_append, List.foldl_cons, List.foldl_nil, RateLimits.isEmpty_set]
    simp

/-- The builder notes what it has been given, and turns the flag on only if that is nothing. -/
private theorem build_ok {b : SchedulerBuilder} {persisted : List String} {σ : Gating}
    (h : b.build persisted = some σ) :
    σ.Noted ∧ σ.FastIsVacuous := by
  rw [SchedulerBuilder.build] at h
  split at h
  · cases h
    refine ⟨fun hne => ?_, fun hon => ?_⟩
    · cases hmon : b.enableResourceMonitoring with
      | true => exact .inr rfl
      | false =>
        left
        simpa [hmon] using hne
    · simp only [Bool.and_eq_true, Bool.not_eq_true', Bool.or_eq_false_iff, Bool.not_eq_false',
        decide_eq_false_iff_not, Nat.not_lt, Nat.le_zero, bne_eq_false_iff_eq] at hon
      obtain ⟨⟨⟨⟨⟨⟨⟨hdefault, hover⟩, hmon⟩, hpress⟩, hcaps⟩, hpaused⟩, htype, hgroup⟩, hweights, hslots⟩ := hon
      refine ⟨hdefault, ?_, hcaps, ?_, ?_, ?_, List.isEmpty_iff.1 hpaused, ?_, hmon⟩
      · rw [GroupLimits.hasOverrides, StringMap.isEmpty_ofList, hover]
        rfl
      · exact (isEmpty_rateLimits _).trans htype
      · exact (isEmpty_rateLimits _).trans hgroup
      · rw [GroupWeights.isConfigured, StringMap.isEmpty_ofList, StringMap.isEmpty_ofList, hweights, hslots]
        rfl
      · simp [hmon, hpress]
  · cases h

/-- After every one of the calls the flag stands for what it should if and only if every call is minded. -/
theorem fast_is_vacuous_iff (b : SchedulerBuilder) (persisted : List String) (σ : Gating)
    (h : b.build persisted = some σ) (calls : List ControlCall) :
    (∀ n, ((calls.take n).foldl ControlCall.exec σ).FastIsVacuous) ↔
      Along ControlCall.exec ControlCall.Minded σ calls := by
  obtain ⟨hn, hvac⟩ := build_ok h
  clear h
  induction calls generalizing σ with
  | nil => exact iff_of_true (fun n => by rw [List.take_nil]; exact hvac) trivial
  | cons c calls ih =>
    rw [Along, ← exec_iff hn hvac c]
    constructor
    · intro hall
      have hstep : (c.exec σ).FastIsVacuous := hall 1
      exact ⟨hstep, (ih _ (noted_exec hn c) hstep).1 fun n => hall (n + 1)⟩
    · rintro ⟨hstep, halong⟩ n
      cases n with
      | zero => exact hvac
      | succ n => exact (ih _ (noted_exec hn c) hstep).2 halong n

/-- A scheduler with one module and no limits. -/
private def plainBuilder : SchedulerBuilder := { modules := [("media", none)] }

private def plainGating : Gating :=
  { fastDispatch := true, groupLimits := .new, moduleCaps := ∅, typeRateLimits := ∅, groupRateLimits := ∅,
    groupWeights := .new, pausedGroups := [], persistedGroups := [], pressureSources :=
      0, hasPressureSources := false,
    resourceReader := false, hasResourceMonitoring := false }

/-- A rate limit comes and goes; a group limit is set in between. -/
private def mindedCalls : List ControlCall :=
  [.setRateLimit "media::a" ⟨1, 1000000000, 1⟩ 0, .setGroupLimit "g" 1, .removeRateLimit "media::a"]

theorem mindedCalls_vacuous : plainBuilder.build [] = some plainGating ∧
    ∀ n, ((mindedCalls.take n).foldl ControlCall.exec plainGating).FastIsVacuous := by
  refine ⟨rfl, (fast_is_vacuous_iff plainBuilder [] plainGating rfl mindedCalls).2 ⟨nofun, rfl, ?_, trivial⟩⟩
  intro _ hreader
  cases hreader

/-- A group limit is set while the flag is on, and nobody asks the gate. -/
theorem limit_set_on_fast_dispatch :
    ¬ ∀ (b : SchedulerBuilder) (persisted : List String) (σ : Gating), b.build persisted = some σ →
      ∀ (calls : List ControlCall) (n : Nat), ((calls.take n).foldl ControlCall.exec σ).FastIsVacuous := by
  intro h
  have hvac := h plainBuilder [] plainGating rfl [.setGroupLimit "g" 1] 1 rfl
  cases hvac.overrides

end Taskmill
