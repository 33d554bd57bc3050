import Mathlib
import Taskmill.PauseSets
import Taskmill.Scheduler.GroupResume

/-!
# Groups paused until a deadline

`pause_group_until` stores a deadline with the paused group.  A poll (`poll_and_dispatch`) looks for the groups whose
deadline has passed, at most once in five seconds, and calls `resume_group` for one after the other.
-/

namespace Taskmill

open Transact

/-- `groups_due_for_resume` -/
def Store.groupsDueForResume (s : Store) (now : Int) : List String :=
  (s.pausedGroups.filter fun e => e.2.2.any (· ≤ now)).map (·.1)

structure Timers where
  groups : Groups
  /-- `last_group_resume_check`, in milliseconds of the monotonic clock -/
  lastCheck : Int
  /-- the groups that the poll has found due and has still to resume -/
  due : List String

inductive TimerStep where
  /-- a step of the calls, of the store or of the scheduler -/
  | group (st : GroupStep)
  /-- the poll comes to the groups; `fault` is an error of the query -/
  | check (instant now : Int) (fault : Bool)
  /-- it calls `resume_group` for the next group -/
  | resumeNext
  /-- a crash and a new scheduler on the same database -/
  | restart (instant now : Int)

def TimerStep.exec (sha256 : List UInt8 → String) (σ : Timers) : TimerStep → Timers
  | .group st => { σ with groups := st.exec sha256 σ.groups }
  | .check instant now fault =>
    if σ.due ≠ [] ∨ σ.groups.pausedGroups = [] ∨ instant - σ.lastCheck < 5000 then σ
    else { σ with lastCheck := instant, due := if fault then [] else σ.groups.store.groupsDueForResume now }
  | .resumeNext =>
    match σ.due with
    | [] => σ
    | g :: due => { σ with groups := (GroupStep.resumeGroup g).exec sha256 σ.groups, due := due }
  | .restart instant now => ⟨(GroupStep.restart now).exec sha256 σ.groups, instant, []⟩

/-- The statements of the calls are left to the calls, the restart to the restart. -/
def TimerStep.Foreign : TimerStep → Prop
  | .group st => st.Foreign ∧ ∀ now, st ≠ .restart now
  | _ => True

/-! ### The deadline holds -/

/-- The group is in the table with this entry, and in memory as soon as `pause_group` comes to that. -/
def Timers.Holds (σ : Timers) (e : String × Int × Option Int) : Prop :=
  e ∈ σ.groups.store.pausedGroups ∧ (e.1 ∈ σ.groups.pausedGroups ∨ .persisted e.1 ∈ σ.groups.calls)

/-- Nobody is about to resume the group. -/
structure Timers.Undisturbed (σ : Timers) (g : String) : Prop where
  due : g ∉ σ.due
  calls : ∀ call ∈ σ.groups.calls, call.group = g → call.isPause = true

/-- The group is paused just now, and nobody is about to resume it. -/
def Timers.Paused (sha256 : List UInt8 → String) (e : String × Int × Option Int) (σ' : Timers) : Prop :=
  ∃ σ : Timers, σ.groups.store.groupPaused (some e.1) = false ∧ σ.Undisturbed e.1 ∧
    σ' = (TimerStep.group (.pauseGroup e.1 e.2.2 e.2.1)).exec sha256 σ

/-- `resume_group` is called for the group, or a poll looks for groups after its deadline. -/
def TimerStep.Ends (e : String × Int × Option Int) : TimerStep → Prop
  | .group (.resumeGroup g) => g = e.1
  | .check _ now _ => ∃ deadline, e.2.2 = some deadline ∧ deadline ≤ now
  | _ => False

private structure Groups.Holding (σ : Groups) (e : String × Int × Option Int) : Prop where
  table : e ∈ σ.store.pausedGroups
  /-- `PRIMARY KEY` of `paused_groups` -/
  only : ∀ e' ∈ σ.store.pausedGroups, e'.1 = e.1 → e' = e
  memory : e.1 ∈ σ.pausedGroups ∨ .persisted e.1 ∈ σ.calls
  calls : ∀ call ∈ σ.calls, call.group = e.1 → call.isPause = true

section Steps

variable {σ σ' : Groups} {e : String × Int × Option Int} {i : Nat} {g : String} {old call : GroupCall}

/-- A call goes on and changes neither the table nor the memory. -/
private theorem holding_set (h : σ.Holding e) (hi : σ.calls[i]? = some old) (hcalls : σ'.calls = σ.calls.set i call)
    (htable : σ'.store.pausedGroups = σ.store.pausedGroups) (hmemory : σ'.pausedGroups = σ.pausedGroups)
    (hgroup : call.group = old.group) (hpause : old.isPause = true → call.isPause = true)
    (hold : old ≠ .persisted e.1) : σ'.Holding e := by
  refine ⟨?_, ?_, ?_, fun c hc hg => ?_⟩
  · rw [htable]
    exact h.table
  · rw [htable]
    exact h.only
  · rw [hmemory, hcalls]
    exact h.memory.imp_right fun hin => mem_set_of_ne call hi hin hold.symm
  · rw [hcalls] at hc
    rcases List.mem_or_eq_of_mem_set hc with hc | rfl
    · exact h.calls c hc hg
    · exact hpause (h.calls old (List.mem_of_getElem? hi) (hgroup.symm.trans hg))

/-- A call that resumes a group is about another one. -/
private theorem Groups.Holding.ne (h : σ.Holding e) (hi : σ.calls[i]? = some old) (hresume : old.isPause = false) :
    old.group ≠ e.1 := by
  intro hg
  have hpause := h.calls old (List.mem_of_getElem? hi) hg
  rw [hresume] at hpause
  cases hpause

private theorem holding_store {a : Action} (sha256 : List UInt8 → String) (h : σ.Holding e)
    (ha : a.ofGroups = false) :
    Groups.Holding { σ with store := a.exec sha256 σ.store } e := by
  have hset : a.setsGroups = false := by
    cases a with
    | pauseGroupState group resumeAt now => cases ha
    | resumeGroupState group => cases ha
    | _ => rfl
  have htable := a.pausedGroups_exec sha256 σ.store hset
  refine ⟨?_, ?_, h.memory, h.calls⟩
  · rw [htable]
    exact h.table
  · rw [htable]
    exact h.only

/-- A group that is paused once more keeps its entry; another one gets an entry of its own. -/
private theorem holding_pauseGroup (sha256 : List UInt8 → String) (h : σ.Holding e) (g : String)
    (resumeAt : Option Int) (now : Int) : ((GroupStep.pauseGroup g resumeAt now).exec sha256 σ).Holding e := by
  rw [GroupStep.exec]
  split
  · exact ⟨h.table, h.only, h.memory, h.calls⟩
  · rename_i hnew
    have htable : (σ.store.pauseGroupState g resumeAt now).pausedGroups =
        σ.store.pausedGroups ++ [(g, now, resumeAt)] := by
      rw [Store.pauseGroupState, if_neg hnew]
    have hne : g ≠ e.1 := fun hg => hnew (Store.groupPaused_iff.2 ⟨e, h.table, hg.symm⟩)
    refine ⟨?_, fun e' he' hkey => ?_, ?_, fun c hc hg => ?_⟩
    · show e ∈ (σ.store.pauseGroupState g resumeAt now).pausedGroups
      rw [htable]
      exact List.mem_append_left _ h.table
    · have he' : e' ∈ σ.store.pausedGroups ++ [(g, now, resumeAt)] := htable ▸ he'
      rcases List.mem_append.1 he' with he' | he'
      · exact h.only e' he' hkey
      · rw [List.mem_singleton.1 he'] at hkey
        exact absurd hkey hne
    · exact h.memory.imp_right fun hin => List.mem_append_left _ hin
    · rcases List.mem_append.1 hc with hc | hc
      · exact h.calls c hc hg
      · rw [List.mem_singleton.1 hc]
        rfl

private theorem holding_resumeGroup (sha256 : List UInt8 → String) (h : σ.Holding e) (hg : g ≠ e.1) :
    ((GroupStep.resumeGroup g).exec sha256 σ).Holding e := by
  rw [GroupStep.exec]
  split
  · refine ⟨h.table, h.only, h.memory.imp_right fun hin => List.mem_append_left _ hin, fun c hc hgroup => ?_⟩
    rcases List.mem_append.1 hc with hc | hc
    · exact h.calls c hc hgroup
    · rw [List.mem_singleton.1 hc] at hgroup
      exact absurd hgroup hg
  · exact ⟨h.table, h.only, h.memory, h.calls⟩

/-- Whatever a call does to the rows, the table is as before. -/
private theorem pausedGroups_update (u : RowUpdate) (s : Store) : (u.exec s).pausedGroups = s.pausedGroups :=
  (Action.update u).pausedGroups_exec sampleSha256 s rfl

private theorem holding_exec (sha256 : List UInt8 → String) (h : σ.Holding e) (st : GroupStep) (hst : st.Foreign)
    (hresume : st ≠ .resumeGroup e.1) : (st.exec sha256 σ).Holding e := by
  cases st with
  | store a => exact holding_store sha256 h hst
  | spawn task => exact ⟨h.table, h.only, h.memory, h.calls⟩
  | remove id => exact ⟨h.table, h.only, h.memory, h.calls⟩
  | pauseGroup g resumeAt now => exact holding_pauseGroup sha256 h g resumeAt now
  | record i =>
    rw [GroupStep.exec]
    split
    · rename_i g hi
      refine ⟨h.table, h.only, ?_, fun c hc hg => ?_⟩
      · by_cases hg : e.1 = g
        · exact .inl (hg ▸ List.mem_cons_self ..)
        · refine h.memory.imp (fun hin => List.mem_cons_of_mem _ hin) fun hin => mem_set_of_ne _ hi hin ?_
          exact fun heq => hg (GroupCall.persisted.inj heq)
      · rcases List.mem_or_eq_of_mem_set hc with hc | rfl
        · exact h.calls c hc hg
        · rfl
    · exact h
  | mark i =>
    rw [GroupStep.exec]
    split
    · rename_i g hi
      exact holding_set h hi rfl (pausedGroups_update (.addGroupBit g) σ.store) rfl rfl (fun _ => rfl) (by simp)
    · exact h
  | sweep i now =>
    rw [GroupStep.exec]
    split
    · rename_i g hi
      exact holding_set h hi rfl (pausedGroups_update (.pausePendingInGroup g now) σ.store) rfl rfl
        (fun _ => rfl) (by simp)
    · exact h
  | drain i =>
    rw [GroupStep.exec]
    split
    · rename_i g hi
      exact holding_set h hi rfl rfl rfl rfl (fun _ => rfl) (by simp)
    · exact h
  | pauseRow i id now =>
    rw [GroupStep.exec]
    split
    · rename_i g left hi
      split
      · exact holding_set h hi rfl (pausedGroups_update (.pause id .group now) σ.store) rfl rfl
          (fun _ => rfl) (by simp)
      · exact h
    · exact h
  | returnPaused i =>
    rw [GroupStep.exec]
    split
    · rename_i g hi
      refine ⟨h.table, h.only, ?_, fun c hc hg => h.calls c (List.mem_of_mem_eraseIdx hc) hg⟩
      exact h.memory.imp_right fun hin => mem_eraseIdx_of_ne hi hin (by simp)
    · exact h
  | resumeGroup g => exact holding_resumeGroup sha256 h fun hg => hresume (by rw [hg])
  | resumeRows i now =>
    rw [GroupStep.exec]
    split
    · rename_i g hi
      exact holding_set h hi rfl (pausedGroups_update (.resumeSole (.group g) .group now) σ.store) rfl rfl
        (by simp [GroupCall.isPause]) (by simp)
    · exact h
  | clearRows i =>
    rw [GroupStep.exec]
    split
    · rename_i g hi
      exact holding_set h hi rfl (pausedGroups_update (.clearBit (.group g) .group) σ.store) rfl rfl
        (by simp [GroupCall.isPause]) (by simp)
    · exact h
  | deleteState i =>
    rw [GroupStep.exec]
    split
    · rename_i g hi
      have hne : g ≠ e.1 := h.ne hi rfl
      refine ⟨?_, fun e' he' => h.only e' (List.mem_filter.1 he').1, ?_, fun c hc hg => ?_⟩
      · exact List.mem_filter.2 ⟨h.table, by simpa using hne.symm⟩
      · exact h.memory.imp_right fun hin => mem_set_of_ne _ hi hin (by simp)
      · rcases List.mem_or_eq_of_mem_set hc with hc | rfl
        · exact h.calls c hc hg
        · exact absurd hg hne
    · exact h
  | forget i =>
    rw [GroupStep.exec]
    split
    · rename_i g hi
      have hne : g ≠ e.1 := h.ne hi rfl
      refine ⟨h.table, h.only, ?_, fun c hc hg => h.calls c (List.mem_of_mem_eraseIdx hc) hg⟩
      refine h.memory.imp (fun hin => List.mem_filter.2 ⟨hin, by simpa using hne.symm⟩) fun hin => ?_
      exact mem_eraseIdx_of_ne hi hin (by simp)
    · exact h
  | restart now =>
    have htable := (Action.recoverRunning now).pausedGroups_exec sha256 σ.store rfl
    refine ⟨?_, ?_, .inl (List.mem_map_of_mem h.table), ?_⟩
    · exact (congrArg (e ∈ ·) htable).mpr h.table
    · intro e' he'
      exact h.only e' ((congrArg (e' ∈ ·) htable).mp he')
    · intro c hc
      cases hc

end Steps

private theorem timers_exec (sha256 : List UInt8 → String) {σ : Timers} {e : String × Int × Option Int}
    (h : σ.groups.Holding e) (hdue : e.1 ∉ σ.due) (st : TimerStep) (hst : st.Foreign) (hends : ¬ st.Ends e) :
    (st.exec sha256 σ).groups.Holding e ∧ e.1 ∉ (st.exec sha256 σ).due := by
  cases st with
  | group st =>
    refine ⟨holding_exec sha256 h st hst.1 fun hresume => hends ?_, hdue⟩
    rw [hresume]
    rfl
  | check instant now fault =>
    rw [TimerStep.exec]
    split
    · exact ⟨h, hdue⟩
    · refine ⟨h, fun hin => ?_⟩
      cases fault with
      | true => cases hin
      | false =>
        -- the group has one entry, and its deadline has not passed
        obtain ⟨e', he', hkey⟩ := List.mem_map.1 hin
        obtain ⟨htable, hpast⟩ := List.mem_filter.1 he'
        rw [h.only e' htable hkey, Option.any_eq_true] at hpast
        obtain ⟨deadline, hdeadline, hle⟩ := hpast
        exact hends ⟨deadline, hdeadline, of_decide_eq_true hle⟩
  | resumeNext =>
    rw [TimerStep.exec]
    split
    · exact ⟨h, hdue⟩
    · rename_i g due hlist
      rw [hlist, List.mem_cons, not_or] at hdue
      exact ⟨holding_resumeGroup sha256 h (Ne.symm hdue.1), hdue.2⟩
  | restart instant now => exact ⟨holding_exec sha256 h (.restart now) trivial (by simp), List.not_mem_nil⟩

/-- The first statement of the pause. -/
private theorem holding_paused (sha256 : List UInt8 → String) {σ : Timers} {e : String × Int × Option Int}
    (hnew : σ.groups.store.groupPaused (some e.1) = false) (h : σ.Undisturbed e.1) :
    Groups.Holding ((GroupStep.pauseGroup e.1 e.2.2 e.2.1).exec sha256 σ.groups) e := by
  have htable : (σ.groups.store.pauseGroupState e.1 e.2.2 e.2.1).pausedGroups =
      σ.groups.store.pausedGroups ++ [e] := by
    rw [Store.pauseGroupState, if_neg (by simp [hnew])]
  rw [GroupStep.exec, if_neg (by simp [hnew])]
  refine ⟨?_, fun e' he' hkey => ?_, .inr (List.mem_append_right _ (List.mem_singleton_self _)), fun c hc hg => ?_⟩
  · show e ∈ (σ.groups.store.pauseGroupState e.1 e.2.2 e.2.1).pausedGroups
    rw [htable]
    exact List.mem_append_right _ (List.mem_singleton_self _)
  · have he' : e' ∈ σ.groups.store.pausedGroups ++ [e] := htable ▸ he'
    rcases List.mem_append.1 he' with he' | he'
    · have hpaused : σ.groups.store.groupPaused (some e.1) = true := Store.groupPaused_iff.2 ⟨e', he', hkey⟩
      rw [hnew] at hpaused
      cases hpaused
    · exact List.mem_singleton.1 he'
  · rcases List.mem_append.1 hc with hc | hc
    · exact h.calls c hc hg
    · rw [List.mem_singleton.1 hc]
      rfl

/-- A group that is paused until a deadline stays paused until then, over all other pauses and resumes and over
crashes, unless `resume_group` is called for it; without a deadline it stays paused until it is. -/
theorem timed_pause_holds (sha256 : List UInt8 → String) (e : String × Int × Option Int) (σ : Timers)
    (h : Runs (Timers.Paused sha256 e) (fun σ (st : TimerStep) => st.exec sha256 σ)
      (fun _ st => st.Foreign ∧ ¬ st.Ends e) σ) : σ.Holds e := by
  have hholds : σ.groups.Holding e ∧ e.1 ∉ σ.due := by
    refine Runs.invariant (I := fun σ : Timers => σ.groups.Holding e ∧ e.1 ∉ σ.due) h ?_
      fun σ st hσ hc => timers_exec sha256 hσ.1 hσ.2 st hc.1 hc.2
    rintro _ ⟨σ, hnew, hcalm, rfl⟩
    exact ⟨holding_paused sha256 hnew hcalm, hcalm.due⟩
  exact ⟨hholds.1.table, hholds.1.memory⟩

private def timersStart : Timers := ⟨⟨openMemory, [], [], [], []⟩, 0, []⟩

private def untilHundred : String × Int × Option Int := ("g", 0, some 100)

/-- The pause goes on; a poll comes too early, the group is paused once more, and there is a crash. -/
private def keptRun : List TimerStep :=
  [.group (.record 0), .group (.mark 0), .group (.sweep 0 0), .group (.drain 0), .group (.returnPaused 0),
    .check 5000 50 false, .group (.pauseGroup "g" none 60), .restart 0 70, .check 6000 99 false]

private def timersState (steps : List TimerStep) : Timers :=
  steps.foldl (fun σ st => st.exec sampleSha256 σ)
    ((TimerStep.group (.pauseGroup "g" (some 100) 0)).exec sampleSha256 timersStart)

theorem keptRun_holds : (timersState keptRun).Holds untilHundred := by
  have hearly : ∀ instant now : Int, now < 100 → ¬ (TimerStep.check instant now false).Ends untilHundred := by
    rintro instant now hnow ⟨deadline, hdeadline, hle⟩
    cases hdeadline
    omega
  refine timed_pause_holds sampleSha256 untilHundred _
    (Runs.list (.start ⟨timersStart, rfl, ⟨nofun, nofun⟩, rfl⟩) keptRun ?_)
  refine ⟨⟨⟨trivial, nofun⟩, id⟩, ⟨⟨trivial, nofun⟩, id⟩, ⟨⟨trivial, nofun⟩, id⟩, ⟨⟨trivial, nofun⟩, id⟩,
    ⟨⟨trivial, nofun⟩, id⟩, ⟨trivial, hearly 5000 50 (by decide)⟩, ⟨⟨trivial, nofun⟩, id⟩, ⟨trivial, id⟩,
    ⟨trivial, hearly 6000 99 (by decide)⟩, trivial⟩

/-! ### What an undisturbed poll does -/

/-- The call of `resume_group` for the next group, statement by statement. -/
def resumeSteps (now : Int) : List TimerStep :=
  [.resumeNext, .group (.resumeRows 0 now), .group (.clearRows 0), .group (.deleteState 0), .group (.forget 0)]

def Timers.run (sha256 : List UInt8 → String) (σ : Timers) (steps : List TimerStep) : Timers :=
  steps.foldl (fun σ st => st.exec sha256 σ) σ

/-- The part of a poll that is about groups; each group is resumed at its own time. -/
def Timers.autoResume (sha256 : List UInt8 → String) (σ : Timers) (instant now : Int)
    (clock : String → Int) : Timers :=
  let σ' := (TimerStep.check instant now false).exec sha256 σ
  σ'.due.foldl (fun σ g => σ.run sha256 (resumeSteps (clock g))) σ'

/-- The groups with `p` are resumed. -/
def TaskRow.released (p : String → Bool) (clock : String → Int) (r : TaskRow) : TaskRow :=
  match r.groupKey with
  | none => r
  | some g => if p g then r.unpause .group (clock g) else r

def Store.released (s : Store) (p : String → Bool) (clock : String → Int) : Store :=
  { s with
    tasks := s.tasks.map (TaskRow.released p clock)
    pausedGroups := s.pausedGroups.filter fun e => !p e.1 }

def Groups.released (σ : Groups) (p : String → Bool) (clock : String → Int) : Groups :=
  { σ with
    store := σ.store.released p clock
    pausedGroups := σ.pausedGroups.filter fun g => !p g }

section Release

variable {p q : String → Bool} {clock : String → Int} {r : TaskRow} {σ : Groups} {g : String}

@[simp] theorem TaskRow.groupKey_unpause (reason : PauseReason) (now : Int) (r : TaskRow) :
    (r.unpause reason now).groupKey = r.groupKey := by
  rw [TaskRow.unpause]
  split
  · rfl
  · split
    · rfl
    · rfl

@[simp] theorem TaskRow.groupKey_released (p : String → Bool) (clock : String → Int) (r : TaskRow) :
    (r.released p clock).groupKey = r.groupKey := by
  rw [TaskRow.released]
  split
  · rfl
  · split
    · exact r.groupKey_unpause .group _
    · rfl

theorem TaskRow.released_none (hr : r.groupKey = none) : r.released p clock = r := by
  rw [TaskRow.released, hr]

theorem TaskRow.released_some (hr : r.groupKey = some g) :
    r.released p clock = if p g then r.unpause .group (clock g) else r := by
  rw [TaskRow.released, hr]

/-- Groups are released one after the other. -/
theorem TaskRow.released_released (hpq : ∀ g, p g = true → q g = false) (r : TaskRow) :
    (r.released p clock).released q clock = r.released (fun g => p g || q g) clock := by
  cases hr : r.groupKey with
  | none => rw [released_none hr, released_none hr, released_none hr]
  | some g =>
    rw [released_some (r.groupKey_released p clock ▸ hr), released_some hr, released_some hr]
    cases hp : p g with
    | true => simp [hpq g hp]
    | false => simp

theorem Store.released_released (hpq : ∀ g, p g = true → q g = false) (s : Store) :
    (s.released p clock).released q clock = s.released (fun g => p g || q g) clock := by
  have htasks : (s.tasks.map (TaskRow.released p clock)).map (TaskRow.released q clock) =
      s.tasks.map (TaskRow.released (fun g => p g || q g) clock) := by
    rw [List.map_map]
    exact List.map_congr_left fun r _ => r.released_released hpq
  have htable : (s.pausedGroups.filter fun e => !p e.1).filter (fun e => !q e.1) =
      s.pausedGroups.filter fun e => !(p e.1 || q e.1) := by
    rw [List.filter_filter]
    exact List.filter_congr fun e _ => by rw [Bool.not_or, Bool.and_comm]
  simp only [Store.released, htasks, htable]

theorem Groups.released_released (hpq : ∀ g, p g = true → q g = false) (σ : Groups) :
    (σ.released p clock).released q clock = σ.released (fun g => p g || q g) clock := by
  have hmemory : (σ.pausedGroups.filter fun g => !p g).filter (fun g => !q g) =
      σ.pausedGroups.filter fun g => !(p g || q g) := by
    rw [List.filter_filter]
    exact List.filter_congr fun g _ => by rw [Bool.not_or, Bool.and_comm]
  have hstore : (σ.store.released p clock).released q clock = σ.store.released (fun g => p g || q g) clock :=
    σ.store.released_released hpq
  simp only [Groups.released, hstore, hmemory]

theorem Groups.released_false (σ : Groups) : σ.released (fun _ => false) clock = σ := by
  have hrow : TaskRow.released (fun _ => false) clock = id := by
    funext r
    cases hr : r.groupKey with
    | none => exact TaskRow.released_none hr
    | some g => exact TaskRow.released_some hr
  simp [Groups.released, Store.released, hrow]

/-- The four statements of `resume_group`. -/
theorem resume_statements (s : Store) (g : String) (clock : String → Int) :
    (((s.resumeSole (fun r => r.groupKey == some g) .group (clock g)).clearBit (fun r => r.groupKey == some g)
      .group).resumeGroupState g) = s.released (· == g) clock := by
  rw [show PauseReasons.group = PauseReason.group.bits from rfl, resumeSole_clearBit]
  have htasks : (s.tasks.map fun r => if (r.groupKey == some g) = true then r.unpause .group (clock g) else r) =
      s.tasks.map (TaskRow.released (· == g) clock) := by
    refine List.map_congr_left fun r _ => ?_
    cases hr : r.groupKey with
    | none => rw [TaskRow.released_none hr, if_neg (by simp)]
    | some g' =>
      rw [TaskRow.released_some hr]
      by_cases hg : g' = g
      · simp [hg]
      · simp [hg]
  simp only [Store.updateTasks, Store.resumeGroupState, Store.released, htasks]

/-- One round of the loop. -/
theorem resume_round (sha256 : List UInt8 → String) (lastCheck : Int) (due : List String) (hcalls : σ.calls = [])
    (hmemory : g ∈ σ.pausedGroups) :
    (Timers.mk σ lastCheck (g :: due)).run sha256 (resumeSteps (clock g)) =
      ⟨{ σ.released (· == g) clock with held := σ.held.filter (· != g) }, lastCheck, due⟩ := by
  have hfound : σ.pausedGroups.contains g = true := List.contains_iff_mem.2 hmemory
  have hstore := resume_statements σ.store g clock
  simp only [Timers.run, resumeSteps, List.foldl, TimerStep.exec, GroupStep.exec, hfound, if_true,
    Groups.push, Groups.set,
    Groups.drop, hcalls, List.nil_append, List.getElem?_cons_zero, List.set_cons_zero, List.eraseIdx_zero,
      List.tail_cons,
    hstore, Groups.released]
  rfl

/-- A group that is not in memory is left alone. -/
theorem resume_round_unknown (sha256 : List UInt8 → String) (lastCheck : Int) (due : List String) (now : Int)
    (hcalls : σ.calls = []) (hmemory : g ∉ σ.pausedGroups) :
    (Timers.mk σ lastCheck (g :: due)).run sha256 (resumeSteps now) =
      ⟨{ σ with held := σ.held.filter (· != g) }, lastCheck, due⟩ := by
  simp [Timers.run, resumeSteps, TimerStep.exec, GroupStep.exec, hmemory, hcalls]

/-- The loop resumes the groups that it finds in memory. -/
theorem resume_loop (sha256 : List UInt8 → String) (clock : String → Int) (lastCheck : Int) (due : List String)
    (hcalls : σ.calls = []) :
    ∃ held, due.foldl (fun σ g => σ.run sha256 (resumeSteps (clock g))) (Timers.mk σ lastCheck due) =
      ⟨{ σ.released (fun g => due.contains g && σ.pausedGroups.contains g) clock with held := held },
        lastCheck, []⟩ := by
  induction due generalizing σ with
  | nil =>
    refine ⟨σ.held, ?_⟩
    have hnone : (fun g => ([] : List String).contains g && σ.pausedGroups.contains g) = fun _ => false := rfl
    rw [hnone, σ.released_false]
    rfl
  | cons g due ih =>
    rw [List.foldl_cons]
    by_cases hmemory : g ∈ σ.pausedGroups
    · rw [resume_round sha256 lastCheck due hcalls hmemory]
      let σ₁ : Groups := { σ.released (· == g) clock with held := σ.held.filter (· != g) }
      obtain ⟨held, hrest⟩ := ih (σ := σ₁) hcalls
      refine ⟨held, hrest.trans ?_⟩
      have hapart : ∀ x, (x == g) = true → (due.contains x && σ₁.pausedGroups.contains x) = false := by
        intro x hx
        rw [beq_iff_eq.1 hx]
        simp [σ₁, Groups.released]
      have hboth : (σ.released (· == g) clock).released
          (fun x => due.contains x && σ₁.pausedGroups.contains x) clock = _ :=
        σ.released_released hapart
      have hsame : (fun x => x == g || (due.contains x && σ₁.pausedGroups.contains x)) =
          fun x => (g :: due).contains x && σ.pausedGroups.contains x := by
        funext x
        by_cases hx : x = g
        · simp [hx, hmemory]
        · simp [hx, σ₁, Groups.released]
      rw [hsame] at hboth
      rw [← hboth]
      rfl
    · rw [resume_round_unknown sha256 lastCheck due (clock g) hcalls hmemory]
      let σ₁ : Groups := { σ with held := σ.held.filter (· != g) }
      obtain ⟨held, hrest⟩ := ih (σ := σ₁) hcalls
      refine ⟨held, hrest.trans ?_⟩
      have hsame : (fun x => due.contains x && σ.pausedGroups.contains x) =
          fun x => (g :: due).contains x && σ.pausedGroups.contains x := by
        funext x
        by_cases hx : x = g
        · simp [hx, hmemory]
        · simp [hx]
      rw [← hsame]
      rfl

/-- A resume takes the GROUP bit from every row that has reasons while it is paused only. -/
theorem TaskRow.unpause_group (hr : r.pauseReasons ≠ .none → r.status = .paused) (now : Int) :
    (r.unpause .group now).pauseReasons &&& .group = 0 := by
  rw [TaskRow.unpause]
  split
  · exact BitVec.zero_and
  · split
    · show (r.pauseReasons &&& ~~~PauseReasons.group) &&& PauseReasons.group = 0
      rw [BitVec.and_assoc, show ~~~PauseReasons.group &&& PauseReasons.group = 0 by decide]
      exact BitVec.and_zero
    · rename_i hbit
      by_contra hset
      refine hbit ⟨hr fun hnone => hset ?_, hset⟩
      rw [hnone]
      exact BitVec.zero_and

end Release

/-- What a poll with nobody in between leaves. -/
structure Timers.AutoResumed (σ : Timers) (now : Int) (clock : String → Int) (σ' : Timers) : Prop where
  /-- the groups that are due have lost their reason and their entry, everything else is as it was -/
  store : σ'.groups.store = σ.groups.store.released ((σ.groups.store.groupsDueForResume now).contains ·) clock
  memory : ∀ g, g ∈ σ'.groups.pausedGroups ↔ g ∈ σ.groups.pausedGroups ∧ g ∉ σ.groups.store.groupsDueForResume now
  active : σ'.groups.active = σ.groups.active
  done : σ'.groups.calls = [] ∧ σ'.due = []
  /-- no group is late -/
  none : σ'.groups.store.groupsDueForResume now = []
  agree : (∀ r ∈ σ.groups.store.tasks, r.pauseReasons ≠ .none → r.status = .paused) → σ'.groups.Agree

section Poll

variable {σ : Timers} {instant now : Int} {clock : String → Int}

theorem Store.mem_groupsDueForResume {s : Store} {g : String} :
    g ∈ s.groupsDueForResume now ↔ ∃ e ∈ s.pausedGroups, e.1 = g ∧ e.2.2.any (· ≤ now) = true := by
  rw [Store.groupsDueForResume, List.mem_map]
  constructor
  · rintro ⟨e, he, hg⟩
    exact ⟨e, (List.mem_filter.1 he).1, hg, (List.mem_filter.1 he).2⟩
  · rintro ⟨e, he, hg, hdue⟩
    exact ⟨e, List.mem_filter.2 ⟨he, hdue⟩, hg⟩

/-- The groups that are due are in memory. -/
private theorem memory_of_due (hagree : σ.groups.Agree) (hcalls : σ.groups.calls = []) {g : String}
    (hg : g ∈ σ.groups.store.groupsDueForResume now) : g ∈ σ.groups.pausedGroups := by
  obtain ⟨e, he, rfl, -⟩ := Store.mem_groupsDueForResume.1 hg
  refine (hagree e.1 fun call hcall => ?_).2.1 (Store.groupPaused_iff.2 ⟨e, he, rfl⟩)
  rw [hcalls] at hcall
  cases hcall

private theorem autoResume_eq (sha256 : List UInt8 → String) (now : Int) (clock : String → Int)
    (hagree : σ.groups.Agree) (hcalls : σ.groups.calls = []) (hdue : σ.due = [])
    (htime : 5000 ≤ instant - σ.lastCheck) :
    ∃ held lastCheck, σ.autoResume sha256 instant now clock =
      ⟨{ σ.groups.released ((σ.groups.store.groupsDueForResume now).contains ·) clock with held := held },
        lastCheck, []⟩ := by
  by_cases hnone : σ.groups.pausedGroups = []
  · -- the poll does not look, and nothing is due
    have hlist : σ.groups.store.groupsDueForResume now = [] := by
      refine List.eq_nil_iff_forall_not_mem.2 fun g hg => ?_
      have hmemory := memory_of_due hagree hcalls hg
      rw [hnone] at hmemory
      cases hmemory
    have hpred : (([] : List String).contains ·) = fun _ => false := rfl
    refine ⟨σ.groups.held, σ.lastCheck, ?_⟩
    rw [Timers.autoResume, TimerStep.exec, if_pos (.inr (.inl hnone)), hlist, hpred, Groups.released_false]
    simp only [hdue, List.foldl_nil]
    rw [← hdue]
  · obtain ⟨held, hloop⟩ := resume_loop sha256 clock instant (σ.groups.store.groupsDueForResume now) hcalls
    have hpred : (fun g => (σ.groups.store.groupsDueForResume now).contains g && σ.groups.pausedGroups.contains g) =
        ((σ.groups.store.groupsDueForResume now).contains ·) := by
      funext g
      cases hg : (σ.groups.store.groupsDueForResume now).contains g with
      | false => rfl
      | true => exact List.contains_iff_mem.2 (memory_of_due hagree hcalls (List.contains_iff_mem.1 hg))
    rw [hpred] at hloop
    refine ⟨held, instant, ?_⟩
    rw [Timers.autoResume, TimerStep.exec, if_neg (by simp [hdue, hnone, htime])]
    exact hloop

/-- No entry that is left is due. -/
private theorem groupsDueForResume_released (s : Store) :
    (s.released ((s.groupsDueForResume now).contains ·) clock).groupsDueForResume now = [] := by
  refine List.eq_nil_iff_forall_not_mem.2 fun g hg => ?_
  obtain ⟨e, he, rfl, hpast⟩ := Store.mem_groupsDueForResume.1 hg
  obtain ⟨htable, hleft⟩ := List.mem_filter.1 he
  have hdue : e.1 ∈ s.groupsDueForResume now := Store.mem_groupsDueForResume.2 ⟨e, htable, rfl, hpast⟩
  simp [hdue] at hleft

private theorem agree_released (hagree : σ.groups.Agree) (hcalls : σ.groups.calls = [])
    (hpaused : ∀ r ∈ σ.groups.store.tasks, r.pauseReasons ≠ .none → r.status = .paused) (p : String → Bool)
    (held : List String) : Groups.Agree { σ.groups.released p clock with held := held } := by
  intro g _
  have hg := hagree g fun call hcall => by
    rw [hcalls] at hcall
    cases hcall
  have htable : (σ.groups.store.released p clock).groupPaused (some g) = true ↔
      σ.groups.store.groupPaused (some g) = true ∧ p g = false := by
    simp only [Store.groupPaused_iff, Store.released, List.mem_filter, Bool.not_eq_true']
    constructor
    · rintro ⟨e, ⟨he, hp⟩, rfl⟩
      exact ⟨⟨e, he, rfl⟩, hp⟩
    · rintro ⟨⟨e, he, rfl⟩, hp⟩
      exact ⟨e, ⟨he, hp⟩, rfl⟩
  refine ⟨fun r' hr' hgroup hbit => htable.2 ?_, htable.trans ?_⟩
  · obtain ⟨r, hr, rfl⟩ := List.mem_map.1 hr'
    rw [TaskRow.groupKey_released] at hgroup
    rw [TaskRow.released_some hgroup] at hbit
    cases hp : p g with
    | true =>
      rw [hp, if_pos rfl] at hbit
      exact absurd (TaskRow.unpause_group (hpaused r hr) _) hbit
    | false =>
      rw [hp, if_neg (by decide)] at hbit
      exact ⟨hg.1 r hr hgroup hbit, rfl⟩
  · rw [hg.2]
    exact (List.mem_filter.trans (and_congr_right fun _ => by simp)).symm

/-- Between two calls, a poll that looks for groups resumes exactly those that are due. -/
theorem auto_resume_exact (sha256 : List UInt8 → String) (σ : Timers) (instant now : Int) (clock : String → Int)
    (hagree : σ.groups.Agree) (hcalls : σ.groups.calls = []) (hdue : σ.due = [])
    (htime : 5000 ≤ instant - σ.lastCheck) :
    σ.AutoResumed now clock (σ.autoResume sha256 instant now clock) := by
  obtain ⟨held, lastCheck, heq⟩ := autoResume_eq sha256 now clock hagree hcalls hdue htime
  rw [heq]
  refine ⟨rfl, fun g => ?_, rfl, ⟨hcalls, rfl⟩, groupsDueForResume_released σ.groups.store, fun hpaused => ?_⟩
  · exact List.mem_filter.trans (and_congr_right fun _ => by simp)
  · exact agree_released hagree hcalls hpaused _ held

end Poll

/-- Of two paused groups with a task each, one has a deadline. -/
private def twoPaused : List TimerStep :=
  [.group (.record 0), .group (.mark 0), .group (.sweep 0 0), .group (.drain 0), .group (.returnPaused 0),
    .group (.pauseGroup "h" none 0), .group (.record 0), .group (.mark 0), .group (.sweep 0 0), .group (.drain 0),
    .group (.returnPaused 0), .group (.store (.submitDirect { TaskSubmission.new "a" with groupKey := some "g" } 0)),
    .group (.store (.submitDirect { TaskSubmission.new "b" with groupKey := some "h" } 0))]

theorem twoPaused_resumed :
    ((timersState twoPaused).autoResume sampleSha256 5000 100 fun _ => 100).groups.store.tasks.map (·.status) =
        [.pending, .paused] ∧
      (timersState twoPaused).AutoResumed 100 (fun _ => 100)
        ((timersState twoPaused).autoResume sampleSha256 5000 100 fun _ => 100) := by
  refine ⟨by decide +kernel, auto_resume_exact sampleSha256 _ 5000 100 _ ?_ ?_ (by decide +kernel) (by
    decide +kernel)⟩
  · have htable : (timersState twoPaused).groups.store.pausedGroups = [("g", 0, some 100), ("h", 0, none)] := by
      decide +kernel
    have hmemory : (timersState twoPaused).groups.pausedGroups = ["h", "g"] := by decide +kernel
    have hrows : ∀ r ∈ (timersState twoPaused).groups.store.tasks, r.groupKey = some "g" ∨ r.groupKey = some "h" := by
      decide +kernel
    intro g _
    refine ⟨fun r hr hgroup _ => ?_, ?_⟩
    · rw [Store.groupPaused_iff, htable]
      rcases hrows r hr with hg | hg
      · exact ⟨_, List.mem_cons_self .., Option.some.inj (hg.symm.trans hgroup)⟩
      · exact ⟨_, List.mem_cons_of_mem _ (List.mem_cons_self ..), Option.some.inj (hg.symm.trans hgroup)⟩
    · rw [Store.groupPaused_iff, htable, hmemory]
      simp [eq_comm, or_comm]
  · exact List.length_eq_zero_iff.1 (by decide +kernel)

end Taskmill
