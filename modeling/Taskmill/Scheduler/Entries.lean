import Taskmill.Scheduler.Spawn

/-!
# The entry of an execution

The active map is keyed by the id of the task, and a future removes its entry, and stores its handle and its
progress, by this id.  When the task has been spawned again in between, because it was paused and resumed before its
executor came back or because it became pending before its future had removed the entry, the entry under the id is
the one of the newer future.
-/

namespace Taskmill

open Transact

/-- The future touches no entry any more. -/
def Future.settled (f : Future) : Bool := f.over && f.handled

/-- A task is spawned when the earlier futures of the task are settled. -/
def FutureStep.Alone (σ : Futures) : FutureStep → Prop
  | .spawn task _ => ∀ f ∈ σ.futures, f.task.id = task.id → f.settled = true
  | _ => True

/-- Every future has touched its own entry only, and the entries are those of the futures under way: such a future
is in the map until somebody takes it out and cancels its token. -/
structure Futures.Own (σ : Futures) : Prop where
  touches : ∀ t ∈ σ.log, t.entry = t.future
  handles : ∀ e ∈ σ.active, ∀ i, e.handle = some i → i = e.future
  counted : ∀ (n : Nat) (f : Future), σ.futures[n]? = some f → f.over = false →
    (∃ e ∈ σ.active, e.future = n) ∨ (∃ d ∈ σ.drained, d.entry.future = n) ∨ f.token ∈ σ.cancelled

/-! ### What a step does to the map -/

/-- A future that is not settled has the id of the entry. -/
def Futures.Open (σ : Futures) (i : Nat) (e : ActiveTask) : Prop :=
  ∃ f, σ.futures[i]? = some f ∧ f.settled = false ∧ f.task.id = e.record.id

/-- Entries are touched by futures that are not settled, and leave the map with their future or are drained. -/
structure Futures.Tidy (σ σ' : Futures) : Prop where
  log : ∀ t ∈ σ'.log, t ∈ σ.log ∨ ∃ e ∈ σ.active, σ.Open t.future e ∧ t.entry = e.future
  handle : ∀ e' ∈ σ'.active, ∃ e ∈ σ.active, e'.future = e.future ∧
    ∀ i, e'.handle = some i → e.handle = some i ∨ σ.Open i e
  gone : ∀ e ∈ σ.active, (∃ e' ∈ σ'.active, e'.future = e.future) ∨ (∃ d ∈ σ'.drained, d.entry.future = e.future) ∨
    ∃ i, σ.Open i e ∧ ∀ f', σ'.futures[i]? = some f' → f'.over = true
  drained : ∀ d ∈ σ.drained, (∃ d' ∈ σ'.drained, d'.entry = d.entry) ∨ d.entry.token ∈ σ'.cancelled
  cancelled : ∀ t ∈ σ.cancelled, t ∈ σ'.cancelled
  flag : ∀ d' ∈ σ'.drained, d'.cancelled = true →
    (∃ d ∈ σ.drained, d.cancelled = true ∧ d.entry = d'.entry) ∨ d'.entry.token ∈ σ'.cancelled

section Tidy

variable {σ τ : Futures} {i : Nat} {f : Future}

theorem Futures.Tidy.refl (σ : Futures) : σ.Tidy σ where
  log := fun _ ht => .inl ht
  handle := fun e he => ⟨e, he, rfl, fun _ hi => .inl hi⟩
  gone := fun e he => .inl ⟨e, he, rfl⟩
  drained := fun d hd => .inl ⟨d, hd, rfl⟩
  cancelled := fun _ ht => ht
  flag := fun d hd hc => .inl ⟨d, hd, hc, rfl⟩

/-- What is not listed in `Tidy` does not matter. -/
theorem Futures.Tidy.congr {τ' : Futures} (h : σ.Tidy τ) (hl : τ'.log = τ.log) (ha : τ'.active = τ.active)
    (hd : τ'.drained = τ.drained) (hc : τ'.cancelled = τ.cancelled) (hf : τ'.futures = τ.futures) : σ.Tidy τ' where
  log := by rw [hl]; exact h.log
  handle := by rw [ha]; exact h.handle
  gone := by rw [ha, hd, hf]; exact h.gone
  drained := by rw [hd, hc]; exact h.drained
  cancelled := by rw [hc]; exact h.cancelled
  flag := by rw [hd, hc]; exact h.flag

/-- The map and the drained entries stay as they are. -/
theorem Futures.Tidy.of_same (hl : τ.log = σ.log) (ha : τ.active = σ.active) (hd : τ.drained = σ.drained)
    (hc : τ.cancelled = σ.cancelled) : σ.Tidy τ where
  log := by rw [hl]; exact (Futures.Tidy.refl σ).log
  handle := by rw [ha]; exact (Futures.Tidy.refl σ).handle
  gone := by
    rw [ha]
    exact fun e he => .inl ⟨e, he, rfl⟩
  drained := by rw [hd, hc]; exact (Futures.Tidy.refl σ).drained
  cancelled := by rw [hc]; exact fun _ ht => ht
  flag := by rw [hd, hc]; exact (Futures.Tidy.refl σ).flag

theorem Futures.Tidy.attempt (fault : Bool) (s : Store) : σ.Tidy (σ.attempt fault s) := by
  cases fault with
  | true => exact .refl σ
  | false => exact .of_same rfl rfl rfl rfl

private theorem settled_of_over (h : f.over = false) : f.settled = false := by
  rw [Future.settled, h]
  rfl

private theorem mem_touches {t : Touch} {id : Int} (ht : t ∈ σ.touches i id) :
    t.future = i ∧ ∃ e ∈ σ.active, e.record.id = id ∧ t.entry = e.future := by
  obtain ⟨e, he, rfl⟩ := List.mem_map.1 ht
  obtain ⟨he, hid⟩ := List.mem_filter.1 he
  exact ⟨rfl, e, he, beq_iff_eq.1 hid, rfl⟩

/-- The log after a future that is not settled has touched the entries of its task. -/
private theorem log_touched (hf : σ.futures[i]? = some f) (hopen : f.settled = false) :
    ∀ t ∈ σ.touches i f.task.id ++ σ.log, t ∈ σ.log ∨ ∃ e ∈ σ.active, σ.Open t.future e ∧ t.entry = e.future := by
  intro t ht
  rcases List.mem_append.1 ht with ht | ht
  · obtain ⟨rfl, e, he, hid, hentry⟩ := mem_touches ht
    exact .inr ⟨e, he, ⟨f, hf, hopen, hid.symm⟩, hentry⟩
  · exact .inl ht

theorem Futures.Tidy.leave (hf : σ.futures[i]? = some f) (hopen : f.over = false) : σ.Tidy (σ.leave i f) where
  log := log_touched hf (settled_of_over hopen)
  handle := fun e he => ⟨e, List.mem_of_mem_filter he, rfl, fun _ hi => .inl hi⟩
  gone := by
    intro e he
    by_cases hid : f.task.id = e.record.id
    · refine .inr (.inr ⟨i, ⟨f, hf, settled_of_over hopen, hid⟩, fun f' hf' => ?_⟩)
      have hi : i < σ.futures.length := (List.getElem?_eq_some_iff.1 hf).1
      rw [Futures.leave, List.getElem?_set_self hi] at hf'
      cases hf'
      rfl
    · refine .inl ⟨e, List.mem_filter.2 ⟨he, ?_⟩, rfl⟩
      simpa using fun h => hid h.symm
  drained := fun d hd => .inl ⟨d, hd, rfl⟩
  cancelled := fun _ ht => ht
  flag := fun d hd hc => .inl ⟨d, hd, hc, rfl⟩

theorem Futures.Tidy.leave_attempt (hf : σ.futures[i]? = some f) (hopen : f.over = false) (fault : Bool) (s : Store) :
    σ.Tidy ((σ.attempt fault s).leave i f) := by
  cases fault with
  | true => exact .leave hf hopen
  | false => exact (Tidy.leave hf hopen).congr rfl rfl rfl rfl rfl

theorem Futures.step_tidy {next : Future → Futures} (h : ∀ f, σ.futures[i]? = some f → σ.Tidy (next f)) :
    σ.Tidy (σ.step i next) := by
  rw [step]
  split
  · exact .refl σ
  · rename_i f hf
    exact h f hf

variable {c : SpawnConfig} {sha256 : List UInt8 → String}

private theorem over_eq_false {stage : Stage} (hstage : f.stage = stage)
    (h : ({ f with stage := stage } : Future).over = false) : f.over = false := (Future.over_of_stage hstage).trans h

private theorem execReturns_tidy (hf : σ.futures[i]? = some f) (outcome : Outcome) (metrics : IoBudget)
    (random : Nat) :
    σ.Tidy (FutureStep.execReturns c σ i outcome metrics random f) := by
  unfold FutureStep.execReturns
  split
  · rename_i memo hstage
    split
    · exact .of_same rfl rfl rfl rfl
    · exact (Futures.Tidy.leave hf (over_eq_false hstage rfl)).congr rfl rfl rfl rfl rfl
  · rename_i error hstage
    split
    · exact .leave hf (over_eq_false hstage rfl)
    · split
      · exact .of_same rfl rfl rfl rfl
      · exact .of_same rfl rfl rfl rfl
      · exact .of_same rfl rfl rfl rfl
  · exact .of_same rfl rfl rfl rfl
  · exact .refl σ

private theorem execFailure_tidy (hf : σ.futures[i]? = some f) (fault : Bool) (random : Nat) (now : Int) :
    σ.Tidy (FutureStep.execFailure c sha256 σ i fault random now f) := by
  unfold FutureStep.execFailure
  split
  · rename_i error metrics hstage
    split
    · split
      · exact .of_same rfl rfl rfl rfl
      · exact .leave_attempt hf (over_eq_false hstage rfl) fault _
    · split
      · exact .leave_attempt hf (over_eq_false hstage rfl) fault _
      · exact .of_same rfl rfl rfl rfl
  · exact .refl σ

private theorem setHandle_tidy (hf : σ.futures[i]? = some f) (hh : f.handled = false) :
    σ.Tidy { σ with
      active := σ.active.map fun entry => if entry.record.id ==
        f.task.id then { entry with handle := some i } else entry
      futures := σ.futures.set i { f with handled := true }
      log := σ.touches i f.task.id ++ σ.log } := by
  have hopen : f.settled = false := by rw [Future.settled, hh, Bool.and_false]
  refine ⟨log_touched hf hopen, fun e' he' => ?_, fun e he => .inl ?_, fun d hd => .inl ⟨d, hd, rfl⟩, fun _ ht => ht,
    fun d hd hc => .inl ⟨d, hd, hc, rfl⟩⟩
  · obtain ⟨e, he, rfl⟩ := List.mem_map.1 he'
    refine ⟨e, he, ?_⟩
    split
    · rename_i hid
      refine ⟨rfl, fun j hj => .inr ?_⟩
      cases hj
      exact ⟨f, hf, hopen, (beq_iff_eq.1 hid).symm⟩
    · exact ⟨rfl, fun j hj => .inl hj⟩
  · refine ⟨_, List.mem_map_of_mem he, ?_⟩
    split
    · rfl
    · rfl

/-- The token of a drained entry that may be settled is cancelled. -/
def Futures.Flagged (σ : Futures) : Prop := ∀ d ∈ σ.drained, d.cancelled = true → d.entry.token ∈ σ.cancelled

private theorem settle_tidy (hflag : σ.Flagged) (fault : Bool) (now : Int) :
    σ.Tidy (FutureStep.exec c sha256 σ (.settle i fault now)) := by
  rw [FutureStep.exec]
  split
  · exact .refl σ
  · rename_i d₀ hfind
    have hd₀ := List.find?_some hfind
    rw [Bool.and_eq_true, beq_iff_eq] at hd₀
    have hmem₀ := List.mem_of_find?_eq_some hfind
    have htidy : σ.Tidy (σ.carryOut sha256 d₀ fault now) := by
      rw [Futures.carryOut]
      split
      · exact .refl σ
      · exact .attempt fault _
    have hactive : (σ.carryOut sha256 d₀ fault now).active = σ.active := by
      rw [Futures.carryOut]
      split
      · rfl
      · cases fault with
        | true => rfl
        | false => rfl
    refine ⟨htidy.log, htidy.handle, fun e he => .inl ⟨e, hactive ▸ he, rfl⟩, fun d hd => ?_, htidy.cancelled,
      fun d hd hc => ?_⟩
    · rcases mem_eraseP_or hd hfind with hd | rfl
      · exact .inl ⟨d, hd, rfl⟩
      · exact .inr (htidy.cancelled _ (hflag d hmem₀ hd₀.2))
    · exact .inl ⟨d, List.mem_of_mem_eraseP hd, hc, rfl⟩

theorem FutureStep.tidy_exec (c : SpawnConfig) (sha256 : List UInt8 → String) (hflag : σ.Flagged)
    (st : FutureStep) (hst : st.isSpawn = false) : σ.Tidy (st.exec c sha256 σ) := by
  cases st with
  | spawn task phase => cases hst
  | store a => exact .of_same rfl rfl rfl rfl
  | setHandle i =>
    refine Futures.step_tidy fun f hf => ?_
    split
    · exact .refl σ
    · rename_i hh
      exact setHandle_tidy hf (Bool.eq_false_of_not_eq_true hh)
  | progress i =>
    refine Futures.step_tidy fun f hf => ?_
    split
    · rename_i hstage
      have hopen := settled_of_over (over_eq_false hstage rfl)
      have hrefl := Futures.Tidy.refl σ
      exact ⟨log_touched hf hopen, hrefl.handle, hrefl.gone, hrefl.drained, hrefl.cancelled, hrefl.flag⟩
    · exact .refl σ
  | returns i outcome metrics random => exact Futures.step_tidy fun f hf => execReturns_tidy hf outcome metrics random
  | countChildren i fault =>
    refine Futures.step_tidy fun f hf => ?_
    split
    · rename_i memo metrics hstage
      split
      · exact .of_same rfl rfl rfl rfl
      · exact (Futures.Tidy.leave hf (over_eq_false hstage rfl)).congr rfl rfl rfl rfl rfl
    · exact .refl σ
  | setWaiting i fault =>
    refine Futures.step_tidy fun f hf => ?_
    split
    · rename_i memo hstage
      exact .leave_attempt hf (over_eq_false hstage rfl) fault _
    · exact .refl σ
  | retryInline i fault =>
    refine Futures.step_tidy fun f hf => ?_
    unfold execRetry
    split
    · cases fault with
      | true => exact .of_same rfl rfl rfl rfl
      | false => exact .of_same rfl rfl rfl rfl
    · exact .refl σ
  | handleFailure i fault random now => exact Futures.step_tidy fun f hf => execFailure_tidy hf fault random now
  | cleanUp i =>
    refine Futures.step_tidy fun f hf => ?_
    split
    · rename_i hstage
      exact .leave hf (over_eq_false hstage rfl)
    · exact .refl σ
  | drainCompletions => exact .of_same rfl rfl rfl rfl
  | completeBatch k fault now =>
    rw [exec]
    split
    · exact .refl σ
    · exact (Futures.Tidy.attempt fault _).congr rfl rfl rfl rfl rfl
  | drainFailures => exact .of_same rfl rfl rfl rfl
  | failBatch k fault now =>
    rw [exec]
    split
    · exact .refl σ
    · exact (Futures.Tidy.attempt fault _).congr rfl rfl rfl rfl rfl
  | drain p purpose =>
    refine ⟨fun _ ht => .inl ht, fun e he => ⟨e, List.mem_of_mem_filter he, rfl, fun _ hi => .inl hi⟩, fun e he => ?_,
      fun d hd => .inl ⟨d, List.mem_append_left _ hd, rfl⟩, fun _ ht => ht, fun d hd hc => ?_⟩
    · cases hp : p e.record with
      | true =>
        refine .inr (.inl ⟨⟨e, purpose, false⟩, List.mem_append_right _ (List.mem_map.2 ⟨e, ?_, rfl⟩), rfl⟩)
        exact List.mem_filter.2 ⟨he, hp⟩
      | false => exact .inl ⟨e, List.mem_filter.2 ⟨he, by rw [hp]; rfl⟩, rfl⟩
    · rcases List.mem_append.1 hd with hd | hd
      · exact .inl ⟨d, hd, hc, rfl⟩
      · obtain ⟨e, _, rfl⟩ := List.mem_map.1 hd
        cases hc
  | cancelToken i =>
    have hrefl := Futures.Tidy.refl σ
    refine ⟨hrefl.log, hrefl.handle, fun e he => .inl ⟨e, he, rfl⟩, fun d hd => .inl ⟨_, List.mem_map_of_mem hd, ?_⟩,
      fun t ht => List.mem_append_right _ ht, fun d' hd' hc => ?_⟩
    · split
      · rfl
      · rfl
    · obtain ⟨d, hd, rfl⟩ := List.mem_map.1 hd'
      by_cases hi : (d.entry.future == i) = true
      · rw [if_pos hi]
        refine .inr (List.mem_append_left _ (List.mem_map.2 ⟨d, ?_, rfl⟩))
        exact List.mem_filter.2 ⟨hd, hi⟩
      · rw [if_neg hi] at hc ⊢
        exact .inl ⟨d, hd, hc, rfl⟩
  | settle i fault now => exact settle_tidy hflag fault now

end Tidy

/-! ### Runs -/

/-- What holds in every state of a run in which tasks are spawned alone.  An entry is that of the only future of its
task that is not settled. -/
private structure Futures.Orderly (σ : Futures) : Prop where
  linked : σ.Linked
  flagged : σ.Flagged
  latest : ∀ e ∈ σ.active, ∀ (n : Nat) (f : Future), σ.futures[n]? = some f → f.task.id = e.record.id →
    f.settled = true ∨ e.future = n
  own : σ.Own

section Runs

variable {c : SpawnConfig} {sha256 : List UInt8 → String} {σ σ' : Futures} {inline : Prop}

private theorem Future.Follows.settled {f f' : Future} (h : f.Follows inline f') (hf : f.settled = true) :
    f'.settled = true := by
  rw [Future.settled, Bool.and_eq_true] at hf ⊢
  exact ⟨h.closed hf.1, h.handled hf.2⟩

/-- A future that is not settled is the one that the entry of its task was made for. -/
private theorem Futures.Orderly.eq_of_open (h : σ.Orderly) {e : ActiveTask} (he : e ∈ σ.active) {i : Nat}
    (hopen : σ.Open i e) : e.future = i := by
  obtain ⟨f, hf, hs, hid⟩ := hopen
  rcases h.latest e he i f hf hid with hsettled | hi
  · rw [hs] at hsettled
    cases hsettled
  · exact hi

private theorem orderly_next (h : σ.Orderly) (hk : σ.Keeps inline σ') (ht : σ.Tidy σ') : σ'.Orderly where
  linked := hk.linked h.linked
  flagged := by
    intro d' hd' hc
    rcases ht.flag d' hd' hc with ⟨d, hd, hcd, heq⟩ | hin
    · rw [← heq]
      exact ht.cancelled _ (h.flagged d hd hcd)
    · exact hin
  latest := by
    intro e' he' n f' hf' hid
    obtain ⟨e, he, hsame⟩ := hk.active e' he'
    obtain ⟨f, hf, hfollows⟩ := hk.futures n f' hf'
    rw [hfollows.id, hsame.record] at hid
    rcases h.latest e he n f hf hid with hs | hn
    · exact .inl (hfollows.settled hs)
    · exact .inr (hsame.future.trans hn)
  own := by
    refine ⟨fun t ht' => ?_, fun e' he' i hi => ?_, fun n f' hf' hover => ?_⟩
    · rcases ht.log t ht' with hold | ⟨e, he, hopen, hentry⟩
      · exact h.own.touches t hold
      · rw [hentry]
        exact h.eq_of_open he hopen
    · obtain ⟨e, he, hfuture, hhandle⟩ := ht.handle e' he'
      rw [hfuture]
      rcases hhandle i hi with hold | hopen
      · exact h.own.handles e he i hold
      · exact (h.eq_of_open he hopen).symm
    · obtain ⟨f, hf, hfollows⟩ := hk.futures n f' hf'
      have hover₀ : f.over = false := by
        by_contra hf₀
        rw [hfollows.closed (by simpa using hf₀)] at hover
        cases hover
      rcases h.own.counted n f hf hover₀ with ⟨e, he, rfl⟩ | ⟨d, hd, rfl⟩ | hcancel
      · rcases ht.gone e he with hin | hout | ⟨i, hopen, hleft⟩
        · exact .inl hin
        · exact .inr (.inl hout)
        · -- the future that has left is this one
          rw [hleft f' (h.eq_of_open he hopen ▸ hf')] at hover
          cases hover
      · rcases ht.drained d hd with ⟨d', hd', heq⟩ | hcancel
        · exact .inr (.inl ⟨d', hd', by rw [heq]⟩)
        · obtain ⟨g, hg, _, htoken, _⟩ := h.linked.drained d hd
          rw [hf] at hg
          cases hg
          rw [hfollows.token, htoken]
          exact .inr (.inr hcancel)
      · rw [hfollows.token]
        exact .inr (.inr (ht.cancelled _ hcancel))

private theorem orderly_spawn (h : σ.Orderly) {task : TaskRecord} {phase : ExecutionPhase}
    (halone : (FutureStep.spawn task phase).Alone σ) : (σ.spawn task phase).Orderly where
  linked := h.linked.spawn task phase
  flagged := h.flagged
  latest := by
    intro e he n f hf hid
    rcases List.mem_append.1 he with he | he
    · obtain ⟨he, hne⟩ := List.mem_filter.1 he
      rcases Futures.spawn_futures hf with hf | ⟨_, rfl⟩
      · exact h.latest e he n f hf hid
      · simp [← hid] at hne
    · rw [List.mem_singleton.1 he] at hid ⊢
      rcases Futures.spawn_futures hf with hf | ⟨rfl, _⟩
      · exact .inl (halone f (List.mem_of_getElem? hf) hid)
      · exact .inr rfl
  own := by
    refine ⟨h.own.touches, fun e he i hi => ?_, fun n f hf hover => ?_⟩
    · rcases List.mem_append.1 he with he | he
      · exact h.own.handles e (List.mem_of_mem_filter he) i hi
      · rw [List.mem_singleton.1 he] at hi
        cases hi
    · rcases Futures.spawn_futures hf with hf | ⟨rfl, _⟩
      · rcases h.own.counted n f hf hover with ⟨e, he, rfl⟩ | hrest
        · -- an entry that has been replaced would be that of a settled future
          obtain ⟨g, hg, hid, _⟩ := h.linked.active e he
          rw [hf] at hg
          cases hg
          refine .inl ⟨e, List.mem_append_left _ (List.mem_filter.2 ⟨he, ?_⟩), rfl⟩
          rw [Bool.not_eq_true', beq_eq_false_iff_ne, ← hid]
          intro htask
          have hsettled := halone f (List.mem_of_getElem? hf) htask
          rw [settled_of_over hover] at hsettled
          cases hsettled
        · exact .inr hrest
      · exact .inl ⟨_, List.mem_append_right _ (List.mem_singleton.2 rfl), rfl⟩

private theorem orderly_exec (h : σ.Orderly) {st : FutureStep} (hst : st.Alone σ) : (st.exec c sha256 σ).Orderly := by
  cases hspawn : st.isSpawn with
  | false => exact orderly_next h (st.keeps_exec c sha256 σ hspawn) (st.tidy_exec c sha256 h.flagged hspawn)
  | true =>
    cases st with
    | spawn task phase => exact orderly_spawn h hst
    | _ => cases hspawn

private theorem orderly_fresh (h : σ.Fresh) : σ.Orderly := by
  refine ⟨h.linked, fun d hd => ?_, fun e he => ?_, fun t ht => ?_, fun e he => ?_, fun n f hf => ?_⟩
  · rw [h.drained] at hd
    cases hd
  · rw [h.active] at he
    cases he
  · rw [h.log] at ht
    cases ht
  · rw [h.active] at he
    cases he
  · rw [h.futures] at hf
    cases hf

end Runs

/-- If tasks are spawned alone, the futures touch their own entries only. -/
theorem futures_own_entries (c : SpawnConfig) (sha256 : List UInt8 → String) (σ : Futures)
    (h : Runs Futures.Fresh (fun σ (st : FutureStep) => st.exec c sha256 σ) (fun σ st => st.Alone σ) σ) : σ.Own :=
  (Runs.invariant (I := Futures.Orderly) h (fun _ => orderly_fresh) fun _ _ hσ hst => orderly_exec hσ hst).own

/-- The task is preempted, gives up, is resumed and spawned again. -/
private def resumedRun : List FutureStep :=
  startFirst (.new "media::a") ++
    ([.setHandle 0, .drain (fun _ => true) (.pause .preemption), .cancelToken 0, .settle 0 false 0,
     .returns 0 (.err ⟨"gave up", true, none⟩) {} 0, .store (.update (.resume 1 0)), .store (.popNextBatch 1 none 0),
     .spawn (firstTask (.new "media::a")) .execute, .setHandle 1, .progress 1] : List FutureStep)

theorem resumedRun_own : (futuresState resumedRun).active.map (·.future) = [1] ∧ (futuresState resumedRun).Own := by
  refine ⟨rfl, futures_own_entries threeRetries sampleSha256 _ (Runs.list (.start futuresStart_fresh) resumedRun ?_)⟩
  refine ⟨trivial, trivial, fun _ hf => absurd hf List.not_mem_nil, trivial, trivial, trivial, trivial,
    trivial, trivial, trivial, ?_, trivial, trivial, trivial⟩
  intro f hf _
  rw [List.mem_singleton.1 hf]
  rfl

/-- It gives up after it has been spawned again. -/
private def lateRun : List FutureStep :=
  startFirst (.new "media::a") ++
    ([.setHandle 0, .drain (fun _ => true) (.pause .preemption), .cancelToken 0, .settle 0 false 0,
     .store (.update (.resume 1 0)), .store (.popNextBatch 1 none 0), .spawn (firstTask (.new "media::a")) .execute,
     .setHandle 1, .returns 0 (.err ⟨"gave up", true, none⟩) {} 0] : List FutureStep)

/-- The old future removes the entry of the new one. -/
theorem late_return_not_own : ¬ ∀ (c : SpawnConfig) (sha256 : List UInt8 → String) (σ : Futures),
    Runs Futures.Fresh (fun σ (st : FutureStep) => st.exec c sha256 σ) (fun _ _ => True) σ → σ.Own := by
  intro h
  have hown := h threeRetries sampleSha256 (futuresState lateRun)
    (Runs.list (.start futuresStart_fresh) lateRun (.of_forall fun _ _ => trivial))
  have htouch : (⟨0, 1⟩ : Touch) ∈ (futuresState lateRun).log := List.mem_cons_self
  cases hown.touches _ htouch

end Taskmill
