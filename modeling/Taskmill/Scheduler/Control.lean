import Taskmill.PauseBits
import Taskmill.Scheduler.Bits

/-!
# Global and module pauses

`pause_all` and `resume_all` (`src/scheduler/control.rs`) and the `pause` and `resume` of a module handle
(`src/module.rs`), in any order and with any other steps of the store in between.  The MODULE bit is to be carried by
tasks of paused modules only, and the GLOBAL bit only while the scheduler is paused.

The `resume` of a module leaves the database alone while the scheduler is paused, and `resume_all` clears the GLOBAL
bit only, so a module that is resumed under a global pause leaves its tasks behind.  The pattern of the pause may
also match the tasks of another module.
-/

namespace Taskmill

open Transact

structure Control where
  store : Store
  active : ActiveTaskMap
  paused : Bool
  modulePaused : String → Bool

/-- `cancel_pause_emit`: the drained tasks are paused one by one. -/
def Store.pauseEach (s : Store) (ids : List Int) (reason : PauseReasons) (now : Int) : Store :=
  ids.foldl (fun s id => s.pause id reason now) s

/-- `pause_all` -/
def Control.pauseAll (σ : Control) (now : Int) : Control :=
  { σ with
    paused := true
    active := []
    store := σ.store.pauseEach (σ.active.map (·.id)) .global now }

/-- `resume_all` -/
def Control.resumeAll (σ : Control) (now : Int) : Control :=
  { σ with paused := false, store := σ.store.clearPauseBit .global now }

/-- `ModuleHandle::pause` -/
def Control.pauseModule (σ : Control) (name : String) (now : Int) : Control :=
  let (drained, active) := σ.active.drainWhere fun task => hasModulePrefix name task.taskType
  { σ with
    modulePaused := Function.update σ.modulePaused name true
    active := active
    store := (σ.store.pauseEach (drained.map (·.id)) .module now).pausePendingByTypePrefix (likeModule name) now }

/-- `ModuleHandle::resume` -/
def Control.resumeModule (σ : Control) (name : String) (now : Int) : Control :=
  { σ with
    modulePaused := Function.update σ.modulePaused name false
    store := if σ.paused then σ.store else σ.store.resumePausedByTypePrefix (likeModule name) now }

inductive ControlStep where
  /-- a step of the store besides the pauses of this module -/
  | store (a : Action)
  /-- an execution starts -/
  | spawn (task : TaskRecord)
  /-- an execution ends -/
  | remove (id : Int)
  | pauseAll (now : Int)
  | resumeAll (now : Int)
  | pauseModule (name : String) (now : Int)
  | resumeModule (name : String) (now : Int)

def ControlStep.exec (sha256 : List UInt8 → String) (σ : Control) : ControlStep → Control
  | .store a => { σ with store := a.exec sha256 σ.store }
  | .spawn task => { σ with active := σ.active.insert task }
  | .remove id => { σ with active := σ.active.remove id }
  | .pauseAll now => σ.pauseAll now
  | .resumeAll now => σ.resumeAll now
  | .pauseModule name now => σ.pauseModule name now
  | .resumeModule name now => σ.resumeModule name now

structure Control.Fresh (σ : Control) : Prop where
  store : σ.store.Fresh
  active : σ.active = []
  paused : σ.paused = false
  modulePaused : ∀ name, σ.modulePaused name = false

/-- Other steps neither set the bits nor separate them from the status. -/
def ControlStep.Foreign (sha256 : List UInt8 → String) (σ : Control) : ControlStep → Prop
  | .store a => a.PauseClean sha256 σ.store ∧ a.SetsNone (.module ||| .global)
  | _ => True

/-- Moreover the pause of a module reaches its own tasks only, and the resume of a module during a global pause
finds no task of it with the MODULE bit. -/
def ControlStep.Clean (sha256 : List UInt8 → String) (σ : Control) : ControlStep → Prop
  | .store a => (ControlStep.store a).Foreign sha256 σ
  | .pauseModule name _ =>
    ∀ r ∈ σ.store.tasks,
      ((likeModule name r.taskType = true ∧ (r.status = .pending ∨ r.status = .paused)) ∨
        ∃ task ∈ σ.active, task.id = r.id ∧ hasModulePrefix name task.taskType = true) →
      moduleName r.taskType = some name
  | .resumeModule name _ =>
    σ.paused = true → ∀ r ∈ σ.store.tasks, moduleName r.taskType = some name → r.pauseReasons &&& .module = 0
  | _ => True

/-- Every MODULE bit and every GLOBAL bit has its cause. -/
def Control.Caused (σ : Control) : Prop :=
  ∀ r ∈ σ.store.tasks,
    (r.pauseReasons &&& .module ≠ 0 → ∃ name, moduleName r.taskType = some name ∧ σ.modulePaused name = true) ∧
    (r.pauseReasons &&& .global ≠ 0 → σ.paused = true)

/-! ### Pausing and resuming rows -/

section Pausing

variable {s : Store} {reason : PauseReasons} {now : Int}

/-- A property that survives the `pause` of a row survives the pause of several. -/
theorem Store.Rows.pauseEach {P : TaskRow → Prop} {ids : List Int} (hs : s.Rows P)
    (hpause : ∀ r, P r → r.id ∈ ids → P { r.pauseFor reason now with startedAt := none }) :
    (s.pauseEach ids reason now).Rows P := by
  have hall : ∀ (todo : List Int) (s : Store), (∀ id ∈ todo, id ∈ ids) → s.Rows P →
      (s.pauseEach todo reason now).Rows P := by
    intro todo
    induction todo with
    | nil => exact fun s _ hs => hs
    | cons id todo ih =>
      intro s htodo hs
      refine ih _ (fun x hx => htodo x (List.mem_cons_of_mem _ hx)) (hs.update fun r hr hid => ?_)
      refine hpause r (hs r hr) ?_
      rw [beq_iff_eq.1 hid]
      exact htodo id (List.mem_cons_self ..)
  exact hall ids s (fun _ hid => hid) hs

theorem Store.Schema.pauseEach (hs : s.Schema) (ids : List Int) : (s.pauseEach ids reason now).Schema := by
  induction ids generalizing s with
  | nil => exact hs
  | cons id ids ih => exact ih (hs.steps ((Action.update (.pause id reason now)).steps (fun _ => "") s))

/-- If a single bit is not all there is, something is left when it is cleared. -/
theorem PauseReasons.clear_ne_none {x bit : PauseReasons} {i : Nat} (hbit : bit = BitVec.twoPow 64 i) (hx : x ≠ bit)
    (h : x &&& bit ≠ 0) : x &&& ~~~bit ≠ .none := by
  intro hclear
  have hsplit : x &&& bit = x := by
    have hall : x &&& (bit ||| ~~~bit) = x := by
      rw [BitVec.or_not_self]
      exact BitVec.and_allOnes
    rw [BitVec.and_or_distrib_left, hclear] at hall
    exact (BitVec.or_zero).symm.trans hall
  rw [hbit, BitVec.and_twoPow] at hsplit h
  split at hsplit
  · exact hx (hsplit.symm.trans hbit.symm)
  · rename_i hget
    rw [if_neg hget] at h
    exact h rfl

/-- What the two statements of a bit-wise resume do to the rows. -/
theorem Store.resumeBit_rows (p : TaskRow → Bool) (now : Int) {bit : PauseReasons} {i : Nat}
    (hbit : bit = BitVec.twoPow 64 i) (hs : s.Rows TaskRow.PauseOk) :
    ∀ r' ∈ ((s.resumeSole p bit now).clearBit p bit).tasks, ∃ r ∈ s.tasks, r'.PauseOk ∧ r'.taskType = r.taskType ∧
      (∀ c, r'.pauseReasons &&& c ≠ 0 → r.pauseReasons &&& c ≠ 0) ∧ (p r = true → r'.pauseReasons &&& bit = 0) := by
  intro r' hr'
  obtain ⟨r₁, hr₁, rfl⟩ := List.mem_map.1 hr'
  obtain ⟨r, hr, rfl⟩ := List.mem_map.1 hr₁
  refine ⟨r, hr, ?_⟩
  by_cases hsole : (p r && r.status == .paused && r.pauseReasons == bit) = true
  · -- the bit was the only reason
    rw [if_pos hsole, if_neg]
    · refine ⟨.of_none nofun rfl nofun, rfl, fun c hc => absurd (BitVec.zero_and) hc, fun _ => BitVec.zero_and⟩
    · simp [TaskRow.resume]
  · rw [if_neg hsole]
    by_cases hset : (p r && r.status == .paused && r.pauseReasons &&& bit != 0) = true
    · rw [if_pos hset]
      simp only [Bool.and_eq_true, beq_iff_eq, bne_iff_ne, ne_eq] at hset
      have hne : r.pauseReasons ≠ bit := by
        intro heq
        apply hsole
        simp [hset.1.1, hset.1.2, heq]
      refine ⟨.of_some hset.1.2 (PauseReasons.clear_ne_none hbit hne hset.2), rfl, fun c hc hzero =>
        hc ?_, fun _ => ?_⟩
      · show r.pauseReasons &&& ~~~bit &&& c = 0
        rw [BitVec.and_assoc, BitVec.and_comm (~~~bit), ← BitVec.and_assoc, hzero]
        exact BitVec.zero_and
      · show r.pauseReasons &&& ~~~bit &&& bit = 0
        rw [BitVec.and_assoc, BitVec.and_comm (~~~bit), BitVec.and_not_self]
        exact BitVec.and_zero
    · rw [if_neg hset]
      refine ⟨hs r hr, rfl, fun c hc => hc, fun hpr => ?_⟩
      by_contra hne
      apply hset
      have hst : r.status = .paused := by
        refine (hs r hr).paused_iff.2 fun hnone => hne ?_
        rw [hnone]
        exact BitVec.zero_and
      rw [hpr, hst]
      simpa using hne

end Pausing

/-! ### Runs -/

private structure Control.Ok (σ : Control) : Prop where
  schema : σ.store.Schema
  status : σ.store.Rows TaskRow.PauseOk
  module : σ.store.Rows (TaskRow.BitsOn .module fun t =>
    ∃ name, moduleName t = some name ∧ σ.modulePaused name = true)
  global : σ.store.Rows (TaskRow.BitsOn .global fun _ => σ.paused = true)

private theorem Action.SetsNone.of_or {a : Action} {x y : PauseReasons} (h : a.SetsNone (x ||| y)) :
    a.SetsNone x ∧ a.SetsNone y := by
  cases a with
  | update u =>
    cases u with
    | pause id reason now =>
      have hor : reason &&& (x ||| y) = 0 := h
      rw [BitVec.and_or_distrib_left] at hor
      exact BitVec.or_eq_zero_iff.1 hor
    | pausePendingByTypePrefix like now =>
      have hor : PauseReasons.module &&& (x ||| y) = 0 := h
      rw [BitVec.and_or_distrib_left] at hor
      exact BitVec.or_eq_zero_iff.1 hor
    | _ => exact ⟨trivial, trivial⟩
  | _ => exact ⟨trivial, trivial⟩

/-- The pause of a row for a reason keeps status and reasons together. -/
private theorem pause_pauseOk {reason : PauseReasons} (hreason : reason ≠ .none) (r : TaskRow) (now : Int) :
    TaskRow.PauseOk { r.pauseFor reason now with startedAt := none } :=
  .of_some rfl (PauseReasons.or_ne_none (.inr hreason))

section Steps

variable {σ : Control}

private theorem ok_store (sha256 : List UInt8 → String) {a : Action} (h : σ.Ok)
    (hc : (ControlStep.store a).Clean sha256 σ) : ((ControlStep.store a).exec sha256 σ).Ok := by
  obtain ⟨hclean, hset⟩ := hc
  obtain ⟨hmodule, hglobal⟩ := hset.of_or
  exact ⟨h.schema.steps (a.steps sha256 σ.store), a.pauseOk_exec sha256 h.schema h.status hclean,
    a.bitsOn_exec sha256 h.schema (by decide) h.module hmodule,
    a.bitsOn_exec sha256 h.schema (by decide) h.global hglobal⟩

private theorem ok_pauseAll (h : σ.Ok) (now : Int) : (σ.pauseAll now).Ok where
  schema := h.schema.pauseEach _
  status := h.status.pauseEach fun r _ _ => pause_pauseOk (by decide) r now
  module := h.module.pauseEach fun r hr _ => hr.or (show PauseReasons.global &&& .module = 0 by decide) rfl rfl
  global := by
    have hset : σ.store.Rows (TaskRow.BitsOn .global fun _ => true = true) := fun r _ _ => rfl
    exact hset.pauseEach fun r _ _ _ => rfl

private theorem ok_resumeAll (h : σ.Ok) (now : Int) : (σ.resumeAll now).Ok := by
  have hrows := Store.resumeBit_rows (fun _ => true) now
    (show PauseReasons.global = BitVec.twoPow 64 2 by decide) h.status
  refine ⟨?_, fun r' hr' => ?_, fun r' hr' => ?_, fun r' hr' => ?_⟩
  · exact (h.schema.steps ((Action.update (.resumeSole .all .global now)).steps (fun _ => "") _)).steps
      ((Action.update (.clearBit .all .global)).steps (fun _ => "") _)
  · obtain ⟨r, _, hok, _⟩ := hrows r' hr'
    exact hok
  · obtain ⟨r, hr, _, htype, hbits, _⟩ := hrows r' hr'
    exact (h.module r hr).of_le htype (hbits _)
  · obtain ⟨r, _, _, _, _, hclear⟩ := hrows r' hr'
    exact fun hbit => absurd (hclear rfl) hbit

private theorem ok_pauseModule {sha256 : List UInt8 → String} (h : σ.Ok) {name : String} {now : Int}
    (hc : (ControlStep.pauseModule name now).Clean sha256 σ) : (σ.pauseModule name now).Ok := by
  let ids := (σ.active.filter fun task => hasModulePrefix name task.taskType).map (·.id)
  -- the tasks of the module may carry the bit from now on
  let caused := fun t => ∃ n, moduleName t = some n ∧ Function.update σ.modulePaused name true n = true
  have hown : ∀ t, moduleName t = some name → caused t := fun t ht => ⟨name, ht, Function.update_self ..⟩
  have hschema : (σ.store.pauseEach ids .module now).Schema := h.schema.pauseEach _
  refine ⟨hschema.steps ((Action.update (.pausePendingByTypePrefix (likeModule name) now)).steps (fun _ => "") _),
    ?_, ?_, ?_⟩
  · have hrows : (σ.store.pauseEach ids .module now).Rows TaskRow.PauseOk :=
      h.status.pauseEach fun r _ _ => pause_pauseOk (by decide) r now
    exact hrows.update fun r _ _ => .of_some rfl (PauseReasons.or_ne_none (.inr (by decide)))
  · let swept := fun r : TaskRow => r.BitsOn .module caused ∧
      (r.id ∈ ids ∨ (likeModule name r.taskType = true ∧ (r.status = .pending ∨ r.status = .paused)) →
        caused r.taskType)
    have hrows : σ.store.Rows swept := by
      intro r hr
      refine ⟨fun hbit => ?_, fun hin => hown _ (hc r hr ?_)⟩
      · obtain ⟨n, hn, hflag⟩ := h.module r hr hbit
        refine ⟨n, hn, ?_⟩
        by_cases hname : n = name
        · rw [hname, Function.update_self]
        · rw [Function.update_of_ne hname]
          exact hflag
      · rcases hin with hin | hin
        · obtain ⟨task, htask, hid⟩ := List.mem_map.1 hin
          obtain ⟨htask, hprefix⟩ := List.mem_filter.1 htask
          exact .inr ⟨task, htask, hid, hprefix⟩
        · exact .inl hin
    have hpaused : (σ.store.pauseEach ids .module now).Rows swept :=
      hrows.pauseEach fun r hr hid => ⟨fun _ => hr.2 (.inl hid), fun _ => hr.2 (.inl hid)⟩
    have hswept : ((σ.store.pauseEach ids .module now).pausePendingByTypePrefix (likeModule name) now).Rows
        (TaskRow.BitsOn .module caused) := by
      refine Store.Rows.update (fun r hr => (hpaused r hr).1) fun r hr hsel _ => (hpaused r hr).2 (.inr ?_)
      simpa using hsel
    exact hswept
  · have hrows : (σ.store.pauseEach ids .module now).Rows (TaskRow.BitsOn .global fun _ => σ.paused = true) :=
      h.global.pauseEach fun r hr _ => hr.or (show PauseReasons.module &&& .global = 0 by decide) rfl rfl
    exact hrows.update fun r hr _ => (hrows r hr).or (show PauseReasons.module &&& .global = 0 by decide) rfl rfl

private theorem ok_resumeModule {sha256 : List UInt8 → String} (h : σ.Ok) {name : String} {now : Int}
    (hc : (ControlStep.resumeModule name now).Clean sha256 σ) : (σ.resumeModule name now).Ok := by
  -- a task of another module keeps its cause
  have hother : ∀ r ∈ σ.store.tasks, (moduleName r.taskType = some name → r.pauseReasons &&& .module = 0) →
      r.BitsOn .module fun t => ∃ n, moduleName t = some n ∧ Function.update σ.modulePaused name false n = true := by
    intro r hr hclear hbit
    obtain ⟨n, hn, hflag⟩ := h.module r hr hbit
    refine ⟨n, hn, ?_⟩
    have hname : n ≠ name := by
      intro heq
      rw [heq] at hn
      exact hbit (hclear hn)
    rw [Function.update_of_ne hname]
    exact hflag
  unfold Control.resumeModule
  cases hpaused : σ.paused with
  | true =>
    exact ⟨h.schema, h.status, fun r hr => hother r hr (hc hpaused r hr), fun _ _ _ => rfl⟩
  | false =>
    have hrows := Store.resumeBit_rows (fun r => likeModule name r.taskType) now
      (show PauseReasons.module = BitVec.twoPow 64 1 by decide) h.status
    refine ⟨?_, fun r' hr' => ?_, fun r' hr' => ?_, fun r' hr' => ?_⟩
    · exact (h.schema.steps
        ((Action.update (.resumeSole (.typePrefix (likeModule name)) .module now)).steps (fun _ => "") _)).steps
        ((Action.update (.clearBit (.typePrefix (likeModule name)) .module)).steps (fun _ => "") _)
    · obtain ⟨r, _, hok, _⟩ := hrows r' hr'
      exact hok
    · obtain ⟨r, hr, _, htype, hbits, hclear⟩ := hrows r' hr'
      intro hbit
      rw [htype]
      refine hother r hr (fun hname => ?_) (hbits _ hbit)
      exact absurd (hclear (likeModule_of_moduleName hname)) hbit
    · obtain ⟨r, hr, _, htype, hbits, _⟩ := hrows r' hr'
      have hg := h.global r hr
      rw [hpaused] at hg
      exact hg.of_le htype (hbits _)

end Steps

/-- In every state of a run of clean steps the MODULE and GLOBAL bits have their causes; so when nothing is paused any
more no task carries them, and a task without another reason is not paused. -/
theorem pauses_caused (sha256 : List UInt8 → String) (σ : Control)
    (h : Runs Control.Fresh (fun σ (a : ControlStep) => a.exec sha256 σ) (fun σ a => a.Clean sha256 σ) σ) :
    σ.Caused ∧ (σ.paused = false → (∀ name, σ.modulePaused name = false) → ∀ r ∈ σ.store.tasks,
      r.pauseReasons &&& (.module ||| .global) = 0 ∧ (r.pauseReasons = .none → r.status ≠ .paused)) := by
  have hok : σ.Ok := by
    refine Runs.invariant (I := Control.Ok) h (fun σ hfresh => ?_) fun σ st hσ hc => ?_
    · have hnone : ∀ P : TaskRow → Prop, σ.store.Rows P := by
        intro P r hr
        rw [hfresh.store.tasks] at hr
        cases hr
      exact ⟨hfresh.store.schema, hnone _, hnone _, hnone _⟩
    · cases st with
      | store a => exact ok_store sha256 hσ hc
      | spawn task => exact ⟨hσ.schema, hσ.status, hσ.module, hσ.global⟩
      | remove id => exact ⟨hσ.schema, hσ.status, hσ.module, hσ.global⟩
      | pauseAll now => exact ok_pauseAll hσ now
      | resumeAll now => exact ok_resumeAll hσ now
      | pauseModule name now => exact ok_pauseModule hσ hc
      | resumeModule name now => exact ok_resumeModule hσ hc
  refine ⟨fun r hr => ⟨hok.module r hr, hok.global r hr⟩, fun hpaused hmodules r hr => ⟨?_, fun hnone hst => ?_⟩⟩
  · rw [BitVec.and_or_distrib_left]
    refine BitVec.or_eq_zero_iff.2 ⟨?_, ?_⟩
    · by_contra hbit
      obtain ⟨name, _, hflag⟩ := hok.module r hr hbit
      rw [hmodules name] at hflag
      cases hflag
    · by_contra hbit
      have hflag := hok.global r hr hbit
      rw [hpaused] at hflag
      cases hflag
  · exact (hok.status r hr).paused_iff.1 hst hnone

/-- A module is paused during a global pause and both are resumed, the module last. -/
private def nestedRun : List ControlStep :=
  [.store (.submitDirect (.new "a::t") 0), .pauseAll 0, .pauseModule "a" 0, .resumeAll 0, .resumeModule "a" 0]

private def controlState (steps : List ControlStep) : Control :=
  steps.foldl (fun σ a => a.exec sampleSha256 σ) ⟨openMemory, [], false, fun _ => false⟩

private theorem controlState_fresh : Control.Fresh ⟨openMemory, [], false, fun _ => false⟩ :=
  ⟨openMemory_fresh, rfl, rfl, fun _ => rfl⟩

theorem nested_caused :
    (controlState nestedRun).store.tasks.map (·.status) = [.pending] ∧ (controlState nestedRun).Caused ∧
      ((controlState nestedRun).paused = false → (∀ name, (controlState nestedRun).modulePaused name = false) →
        ∀ r ∈ (controlState nestedRun).store.tasks,
          r.pauseReasons &&& (.module ||| .global) = 0 ∧ (r.pauseReasons = .none → r.status ≠ .paused)) := by
  refine ⟨by decide +kernel, pauses_caused sampleSha256 _ ?_⟩
  refine Runs.list (.start controlState_fresh) nestedRun ⟨⟨nofun, trivial⟩, trivial, ?_, trivial, nofun, trivial⟩
  show ∀ r ∈ (controlState (nestedRun.take 2)).store.tasks, _ → moduleName r.taskType = some "a"
  have htypes : ∀ r ∈ (controlState (nestedRun.take 2)).store.tasks, moduleName r.taskType = some "a" := by
    decide +kernel
  exact fun r hr _ => htypes r hr

/-- The module is resumed first. -/
private def crossedRun : List ControlStep :=
  [.store (.submitDirect (.new "a::t") 0), .pauseModule "a" 0, .pauseAll 0, .resumeModule "a" 0, .resumeAll 0]

theorem crossed_not_caused :
    ¬ ∀ σ, Runs Control.Fresh (fun σ (a : ControlStep) => a.exec sampleSha256 σ)
    (fun σ a => a.Foreign sampleSha256 σ) σ →
      σ.Caused := by
  intro h
  have hrun := Runs.list (.start controlState_fresh) crossedRun
    (show Along (fun σ (a : ControlStep) => a.exec sampleSha256 σ) (fun σ a => a.Foreign sampleSha256 σ) _
      crossedRun from ⟨⟨nofun, trivial⟩, trivial, trivial, trivial, trivial, trivial⟩)
  obtain ⟨r, hr, hbit, hmodule⟩ : ∃ r ∈ (controlState crossedRun).store.tasks,
      r.pauseReasons &&& .module ≠ 0 ∧ moduleName r.taskType = some "a" := by decide +kernel
  obtain ⟨name, hname, hflag⟩ := (h _ hrun r hr).1 hbit
  rw [hmodule] at hname
  cases hname
  cases hflag

end Taskmill
