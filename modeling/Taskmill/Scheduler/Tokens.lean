import Taskmill.Scheduler.Spawn

/-!
# The token of an attempt

An executor sees the token and the tracker of its own attempt.  `spawn_task` puts those of the first attempt into the
active map and tests that token after a failure, but an inline retry calls `build_task_context` again, which makes new
ones: what is cancelled from then on is not what the executor looks at.
-/

namespace Taskmill

open Transact

/-- The executors that run see what the entries of their futures hold and what their futures test. -/
structure Futures.Wired (c : SpawnConfig) (σ : Futures) : Prop where
  tested : ∀ f ∈ σ.futures, f.stage = .executing → f.prepared.token = f.token
  entry : ∀ e ∈ σ.active, ∀ f, σ.futures[e.future]? = some f → f.stage = .executing →
    f.prepared.token = e.token ∧ f.prepared.io = e.io
  /-- whoever cancels, cancels what the executor sees -/
  drained : ∀ d ∈ σ.drained, ∀ f, σ.futures[d.entry.future]? = some f → f.stage = .executing →
    f.prepared.token = d.entry.token
  /-- and an attempt that has been cancelled is the last one -/
  heeded : ∀ (i : Nat) (f : Future), σ.futures[i]? = some f → f.stage = .executing → f.prepared.token ∈ σ.cancelled →
    ∀ (error : TaskError) (metrics : IoBudget) (random : Nat),
      FutureStep.execReturns c σ i (.err error) metrics random f = σ.leave i f

/-- Every attempt so far is the first one of its future. -/
private def Futures.First (σ : Futures) : Prop :=
  ∀ f ∈ σ.futures, f.stage = .executing → f.prepared = ⟨f.token, f.token⟩

section Wired

variable {c : SpawnConfig} {sha256 : List UInt8 → String} {σ : Futures}

/-- In the first attempt everything is wired. -/
private theorem first_wired (hl : σ.Linked) (h : σ.First) : σ.Wired c := by
  have hmem {n : Nat} {f : Future} (hf : σ.futures[n]? = some f) : f ∈ σ.futures := List.mem_of_getElem? hf
  have hfirst {e : ActiveTask} (he : σ.EntryOf e) {f : Future} (hf : σ.futures[e.future]? = some f)
      (hstage : f.stage = .executing) : f.prepared.token = e.token ∧ f.prepared.io = e.io := by
    obtain ⟨g, hg, _, htoken, hio⟩ := he
    rw [hf] at hg
    cases hg
    rw [h f (hmem hf) hstage, hio, htoken]
    exact ⟨rfl, rfl⟩
  refine ⟨fun f hf hstage => ?_, fun e he f hf hstage => hfirst (hl.active e he) hf hstage,
    fun d hd f hf hstage => (hfirst (hl.drained d hd) hf hstage).1,
      fun i f hf hstage hcancel error metrics random => ?_⟩
  · rw [h f hf hstage]
  · have htoken : f.token ∈ σ.cancelled := by
      rw [h f (hmem hf) hstage] at hcancel
      exact hcancel
    unfold FutureStep.execReturns
    rw [hstage]
    exact if_pos htoken

private theorem first_exec (h : σ.First) {st : FutureStep} (hst : ¬ st.Inline σ) : (st.exec c sha256 σ).First := by
  intro f' hf' hstage
  obtain ⟨n, hn⟩ := List.mem_iff_getElem?.1 hf'
  cases hspawn : st.isSpawn with
  | false =>
    obtain ⟨f, hf, hfollows⟩ := (st.keeps_exec c sha256 σ hspawn).futures n f' hn
    obtain ⟨hstage₀, hprepared⟩ := (hfollows.executing hstage).resolve_left hst
    rw [hprepared, hfollows.token]
    exact h f (List.mem_of_getElem? hf) hstage₀
  | true =>
    cases st with
    | spawn task phase =>
      rcases Futures.spawn_futures hn with hf | ⟨_, rfl⟩
      · exact h f' (List.mem_of_getElem? hf) hstage
      · rfl
    | _ => cases hspawn

/-- After an inline retry the executor looks at a token that nobody knows. -/
private theorem inline_not_wired (hl : σ.Linked) {st : FutureStep} (hst : st.Inline σ) :
    ¬ (st.exec c sha256 σ).Wired c := by
  intro h
  cases st with
  | retryInline i fault =>
    obtain ⟨f, error, hf, hstage⟩ := hst
    have hi : i < σ.futures.length := (List.getElem?_eq_some_iff.1 hf).1
    have hexec : (FutureStep.exec c sha256 σ (.retryInline i fault)).futures = σ.futures.set i
        { f with task := { f.task with retryCount := f.task.retryCount + 1 }, prepared := ⟨σ.tokens, σ.tokens⟩,
                 stage := .executing } := by
      rw [FutureStep.exec, Futures.step, hf]
      dsimp only
      unfold FutureStep.execRetry
      rw [hstage]
    have htested := h.tested _ (hexec ▸ List.mem_set hi _) rfl
    exact absurd htested.symm (Nat.ne_of_lt (hl.tokens i f hf))
  | _ => exact hst

end Wired

/-- In every state of a run the executors are wired, if and only if no retry of the run is inline. -/
theorem wired_iff (c : SpawnConfig) (sha256 : List UInt8 → String) (σ : Futures) (hfresh : σ.Fresh)
    (steps : List FutureStep) :
    (∀ n, ((steps.take n).foldl (fun σ st => st.exec c sha256 σ) σ).Wired c) ↔
      Along (fun σ (st : FutureStep) => st.exec c sha256 σ) (fun σ st => ¬ st.Inline σ) σ steps := by
  have hfirst : σ.First := by
    intro f hf
    rw [hfresh.futures] at hf
    cases hf
  have hl := hfresh.linked
  clear hfresh
  induction steps generalizing σ with
  | nil => exact iff_of_true (fun n => by rw [List.take_nil]; exact first_wired hl hfirst) trivial
  | cons st steps ih =>
    have hl' := st.linked_exec c sha256 hl
    rw [Along]
    constructor
    · intro hall
      have hinline : ¬ st.Inline σ := fun hst => inline_not_wired hl hst (hall 1)
      exact ⟨hinline, (ih _ (first_exec hfirst hinline) hl').1 fun n => hall (n + 1)⟩
    · rintro ⟨hinline, halong⟩ n
      cases n with
      | zero => exact first_wired hl hfirst
      | succ n => exact (ih _ (first_exec hfirst hinline) hl').2 halong n

/-- The task is preempted while it runs, and gives up. -/
private def preemptRun : List FutureStep :=
  startFirst (.new "media::a") ++
    ([.setHandle 0, .drain (fun _ => true) (.pause .preemption), .cancelToken 0, .settle 0 false 0,
     .returns 0 (.err ⟨"gave up", true, none⟩) {} 0] : List FutureStep)

theorem preemptedRun_wired : (futuresState preemptRun).futures.map (·.over) = [true] ∧
    ∀ n, ((preemptRun.take n).foldl (fun σ st => st.exec threeRetries sampleSha256 σ) futuresStart).Wired
      threeRetries := by
  refine ⟨rfl, (wired_iff threeRetries sampleSha256 futuresStart futuresStart_fresh preemptRun).2 ?_⟩
  exact ⟨id, id, id, id, id, id, id, id, trivial⟩

/-- The task fails once, and is preempted while it runs again. -/
private def retriedRun : List FutureStep :=
  startFirst (.new "media::a") ++
    ([.returns 0 (.err ⟨"failed", true, none⟩) {} 0, .retryInline 0 false,
     .drain (fun _ => true) (.pause .preemption), .cancelToken 0] : List FutureStep)

/-- The token that has been cancelled is not the one that the executor sees. -/
theorem retried_not_wired : ¬ ∀ (c : SpawnConfig) (sha256 : List UInt8 → String) (σ : Futures), σ.Fresh →
    ∀ (steps : List FutureStep) (n : Nat), ((steps.take n).foldl (fun σ st => st.exec c sha256 σ) σ).Wired c := by
  intro h
  have hwired : (futuresState retriedRun).Wired threeRetries :=
    h threeRetries sampleSha256 futuresStart futuresStart_fresh retriedRun 7
  obtain ⟨f, hf, hstage, hseen, hcancelled⟩ : ∃ f ∈ (futuresState retriedRun).futures, f.stage = .executing ∧
      f.prepared.token = 1 ∧ (futuresState retriedRun).cancelled = [f.token] :=
    ⟨_, List.mem_singleton.2 rfl, rfl, rfl, rfl⟩
  have htested := hwired.tested f hf hstage
  have htoken : (futuresState retriedRun).cancelled = [0] := rfl
  rw [htoken, ← htested, hseen] at hcancelled
  cases hcancelled

end Taskmill
