import Taskmill.Scheduler.Slots

/-!
# Leaks

A row that runs is somebody's duty: that of its future until the outcome is on its way, then that of the batch, or
that of whoever has taken the entry of the future out of the map and cancelled its token.  As long as nothing panics
and the statements of the outcomes do not fail, nobody drops a duty, and a future that comes to its end has given
back its slot.
-/

namespace Taskmill

open Transact

/-- The future will record its outcome, unless its token is cancelled before. -/
def Future.Bound (cancelled : List Nat) (f : Future) : Prop :=
  match f.stage with
  | .executing | .retrying _ => f.token ∉ cancelled
  | .counting .. | .waiting _ | .failing .. => True
  | .sent | .ended | .panicked => False

/-- Somebody will change the row of future `n`. -/
def Futures.Carried (σ : Futures) (n : Nat) : Prop :=
  (∃ f, σ.futures[n]? = some f ∧ f.Bound σ.cancelled) ∨ n ∈ σ.messages.map (·.1) ∨
    ∃ d ∈ σ.drained, d.entry.future = n ∧ d.purpose ≠ .supersede

/-- The messages are those of futures. -/
def Futures.Addressed (σ : Futures) : Prop := ∀ m ∈ σ.messages, ∃ f, σ.futures[m.1]? = some f ∧ f.task.id = m.2

/-- As long as the row of a future runs, its duty is not dropped. -/
structure Futures.Duties (σ τ : Futures) : Prop where
  carried : ∀ (n : Nat) (f : Future), σ.futures[n]? = some f → τ.store.running f.task.id = true →
    τ.owner f.task.id = some n → σ.Carried n → τ.Carried n
  messages : ∀ m ∈ τ.messages, m ∈ σ.messages ∨ ∃ f, σ.futures[m.1]? = some f ∧ f.task.id = m.2

section Duties

variable {c : SpawnConfig} {sha256 : List UInt8 → String} {σ τ : Futures} {i : Nat} {f f' : Future}

/-- The futures stay as they are, and a message goes only when the row of its task does not run. -/
private theorem duties_record (hσ : σ.Addressed) (hf : τ.futures = σ.futures) (hd : τ.drained = σ.drained)
    (hc : τ.cancelled = σ.cancelled) (hm : ∀ m ∈ σ.messages, m ∈ τ.messages ∨ τ.store.running m.2 = false)
    (hm' : ∀ m ∈ τ.messages, m ∈ σ.messages) : σ.Duties τ := by
  refine ⟨fun n f hfn hr _ hcarried => ?_, fun m hmem => .inl (hm' m hmem)⟩
  rw [Futures.Carried, hf, hc, hd]
  rcases hcarried with hbound | hmsg | hdrained
  · exact .inl hbound
  · obtain ⟨m, hmem, rfl⟩ := List.mem_map.1 hmsg
    rcases hm m hmem with hin | hidle
    · exact .inr (.inl (List.mem_map_of_mem hin))
    · obtain ⟨g, hg, hid⟩ := hσ m hmem
      rw [hfn] at hg
      cases hg
      rw [hid, hidle] at hr
      cases hr
  · exact .inr (.inr hdrained)

private theorem duties_same (hf : τ.futures = σ.futures) (hd : τ.drained = σ.drained) (hc : τ.cancelled = σ.cancelled)
    (hm : τ.messages = σ.messages) : σ.Duties τ := by
  refine ⟨fun n f _ _ _ hcarried => ?_, fun m hmem => .inl (hm ▸ hmem)⟩
  rw [Futures.Carried, hf, hc, hd, hm]
  exact hcarried

/-- Future `i` goes on: it stays bound, or its outcome has become a message, or its row does not run any more. -/
private theorem duties_set (hf : σ.futures[i]? = some f) (hset : τ.futures = σ.futures.set i f')
    (hb : τ.store.running f.task.id = true → f.Bound σ.cancelled → f'.Bound σ.cancelled ∨ i ∈ τ.messages.map (·.1))
    (hm : ∀ m ∈ σ.messages, m ∈ τ.messages) (hm' : ∀ m ∈ τ.messages, m ∈ σ.messages ∨ m = (i, f.task.id))
    (hd : τ.drained = σ.drained) (hc : τ.cancelled = σ.cancelled) : σ.Duties τ := by
  refine ⟨fun n g hg hr _ hcarried => ?_, fun m hmem => ?_⟩
  · rcases hcarried with ⟨g', hg', hbound⟩ | hmsg | hdrained
    · rw [hg] at hg'
      cases hg'
      by_cases hn : i = n
      · subst hn
        rw [hf] at hg
        cases hg
        have hi : i < σ.futures.length := (List.getElem?_eq_some_iff.1 hf).1
        rcases hb hr hbound with hbound' | hmsg
        · exact .inl ⟨f', by rw [hset, List.getElem?_set_self hi], hc ▸ hbound'⟩
        · exact .inr (.inl hmsg)
      · exact .inl ⟨g, by rw [hset, List.getElem?_set_ne hn, hg], hc ▸ hbound⟩
    · obtain ⟨m, hmem, rfl⟩ := List.mem_map.1 hmsg
      exact .inr (.inl (List.mem_map_of_mem (hm m hmem)))
    · exact .inr (.inr (hd ▸ hdrained))
  · rcases hm' m hmem with hin | rfl
    · exact .inl hin
    · exact .inr ⟨f, hf, rfl⟩

private theorem duties_enter (hf : σ.futures[i]? = some f) {stage : Stage}
    (hb : f.Bound σ.cancelled → ({ f with stage := stage } : Future).Bound σ.cancelled) :
    σ.Duties (σ.enter i f stage) :=
  duties_set hf rfl (fun _ hbound => .inl (hb hbound)) (fun _ hm => hm) (fun _ hm => .inl hm) rfl rfl

/-- Future `i` leaves when its row does not run or is not its duty. -/
private theorem duties_leave {s : Store} (hf : σ.futures[i]? = some f)
    (hb : s.running f.task.id = true → ¬ f.Bound σ.cancelled) : σ.Duties ((σ.attempt false s).leave i f) :=
  duties_set hf rfl (fun hr hbound => absurd hbound (hb hr)) (fun _ hm => hm) (fun _ hm => .inl hm) rfl rfl

private theorem mem_messages_complete {metrics : IoBudget} {m : Nat × Int} :
    m ∈ (σ.complete i f metrics).messages ↔ m ∈ σ.messages ∨ m = (i, f.task.id) := by
  simp only [Futures.messages, Futures.complete, Futures.leave, List.map_append, List.map_cons, List.map_nil,
    List.mem_append, List.mem_singleton]
  tauto

private theorem duties_complete (hf : σ.futures[i]? = some f) (metrics : IoBudget) :
    σ.Duties (σ.complete i f metrics) := by
  refine duties_set hf rfl (fun _ _ => .inr ?_) (fun m hm => mem_messages_complete.2 (.inl hm))
    (fun m hm => mem_messages_complete.1 hm) rfl rfl
  exact List.mem_map.2 ⟨(i, f.task.id), mem_messages_complete.2 (.inr rfl), rfl⟩

private theorem duties_step {next : Future → Futures} (h : ∀ f, σ.futures[i]? = some f → σ.Duties (next f)) :
    σ.Duties (σ.step i next) := by
  rw [Futures.step]
  split
  · exact duties_same rfl rfl rfl rfl
  · rename_i f hf
    exact h f hf

private theorem bound_of_stage {cancelled : List Nat} {stage : Stage} (hstage : f.stage = stage) :
    f.Bound cancelled ↔ ({ f with stage := stage } : Future).Bound cancelled := by
  rw [Future.Bound, Future.Bound, hstage]

private theorem execReturns_duties (hf : σ.futures[i]? = some f) {outcome : Outcome}
    {metrics : IoBudget} {random : Nat} (hclean : (FutureStep.returns i outcome metrics random).Clean c σ) :
    σ.Duties (FutureStep.execReturns c σ i outcome metrics random f) := by
  unfold FutureStep.execReturns
  split
  · split
    · exact duties_enter hf fun _ => trivial
    · exact duties_complete hf metrics
  · rename_i error hstage
    split
    · -- the token is cancelled: the row is up to somebody else
      rename_i hcancel
      refine duties_set hf rfl (fun _ hbound => ?_) (fun _ hm => hm) (fun _ hm => .inl hm) rfl rfl
      exact absurd hcancel ((bound_of_stage hstage).1 hbound)
    · rename_i hcancel
      split
      · rename_i hpanic
        exact absurd hpanic (hclean f hf hstage)
      · exact duties_enter hf fun _ => hcancel
      · exact duties_enter hf fun _ => trivial
  · rename_i hstage
    exact absurd (hclean f hf hstage) id
  · exact duties_same rfl rfl rfl rfl

private theorem idle_singleton {s : Store} {id : Int} (h : s.Idle [id]) : s.running id = false :=
  h.running (List.mem_singleton.2 rfl)

private theorem setWaiting_idle (s : Store) (id : Int) (memo : Option (List UInt8)) :
    (s.setWaiting id memo).Idle [id] := by
  refine Store.Idle.update .nil (fun _ => TaskStatus.noConfusion) fun r _ hid => ?_
  by_cases hst : r.status = .running
  · exact .inl (by simp [hid, hst])
  · exact .inr hst

private theorem requeueForRetry_idle (s : Store) (id : Int) (error : String) (delay : Duration) (now : Int) :
    (s.requeueForRetry id error delay now).Idle [id] :=
  Store.Idle.update .nil (fun _ => TaskStatus.noConfusion) fun _ _ hid => .inl (beq_iff_eq.2 hid)

private theorem pause_idle (s : Store) (id : Int) (reason : PauseReasons) (now : Int) :
    (s.pause id reason now).Idle [id] :=
  Store.Idle.update .nil (fun _ => TaskStatus.noConfusion) fun _ _ hid => .inl (beq_iff_eq.2 hid)

private theorem execFailure_duties (hf : σ.futures[i]? = some f) {fault : Bool} {random : Nat} {now : Int}
    (hclean : (FutureStep.handleFailure i fault random now).Clean c σ) :
    σ.Duties (FutureStep.execFailure c sha256 σ i fault random now f) := by
  obtain ⟨rfl, hclean⟩ := hclean
  unfold FutureStep.execFailure
  split
  · rename_i error metrics hstage
    have hc := hclean f error metrics hf hstage
    split
    · rename_i hretry
      rw [if_pos hretry] at hc
      split
      · rename_i hpanic
        exact absurd hpanic hc
      · refine duties_leave hf fun hr => ?_
        rw [idle_singleton (requeueForRetry_idle σ.store f.task.id error.message _ now)] at hr
        cases hr
    · rename_i hretry
      rw [if_neg hretry] at hc
      split
      · rename_i hparent
        refine duties_leave hf fun hr => ?_
        obtain ⟨s, hs⟩ := hc hparent _
        rw [Action.exec, hs, idle_singleton (failWithRecordTx_idle (Bool.eq_false_of_not_eq_true hretry) hs)] at hr
        cases hr
      · have hmem {m : Nat × Int} : m ∈ Futures.messages
            { σ.enter i f .sent with
              failures := σ.failures ++ [(i, ⟨f.task, error.message, error.retryable, metrics⟩)] } ↔
            m ∈ σ.messages ∨ m = (i, f.task.id) := by
          simp only [Futures.messages, Futures.enter, List.map_append, List.map_cons, List.map_nil, List.mem_append,
            List.mem_singleton]
          tauto
        refine duties_set hf rfl (fun _ _ => .inr ?_) (fun m hm => hmem.2 (.inl hm)) (fun m hm => hmem.1 hm) rfl rfl
        exact List.mem_map.2 ⟨(i, f.task.id), hmem.2 (.inr rfl), rfl⟩
  · exact duties_same rfl rfl rfl rfl

/-- One of the batches is recorded. -/
private theorem mem_flatten_or {α : Type} {l : List (List α)} {k : Nat} {batch : List α}
    (hk : l[k]? = some batch) {m : α} (hm : m ∈ l.flatten) : m ∈ (l.eraseIdx k).flatten ∨ m ∈ batch := by
  obtain ⟨b, hb, hmb⟩ := List.mem_flatten.1 hm
  obtain ⟨j, hj⟩ := List.mem_iff_getElem?.1 hb
  by_cases hjk : j = k
  · rw [hjk, hk] at hj
    cases hj
    exact .inr hmb
  · exact .inl (List.mem_flatten.2 ⟨b, List.mem_eraseIdx_iff_getElem?.2 ⟨j, hjk, hj⟩, hmb⟩)

private theorem mem_of_eraseIdx_flatten {α : Type} {l : List (List α)} {k : Nat} {m : α}
    (hm : m ∈ (l.eraseIdx k).flatten) :
    m ∈ l.flatten := by
  obtain ⟨b, hb, hmb⟩ := List.mem_flatten.1 hm
  exact List.mem_flatten.2 ⟨b, List.mem_of_mem_eraseIdx hb, hmb⟩

private theorem mem_messages {m : Nat × Int} : m ∈ σ.messages ↔
    (∃ x ∈ σ.completions ++ σ.completing.flatten, (x.1, x.2.1.id) = m) ∨
      ∃ x ∈ σ.failures ++ σ.failing.flatten, (x.1, x.2.task.id) = m := by
  rw [Futures.messages, List.mem_append, List.mem_map, List.mem_map]

private theorem completeBatch_duties (hσ : σ.Addressed) (hschema : σ.store.Schema) {k : Nat}
    {fault : Bool} {now : Int} (hclean : (FutureStep.completeBatch k fault now).Clean c σ) :
    σ.Duties (FutureStep.exec c sha256 σ (.completeBatch k fault now)) := by
  obtain ⟨rfl, hclean⟩ := hclean
  rw [FutureStep.exec]
  split
  · exact duties_same rfl rfl rfl rfl
  · rename_i batch hk
    obtain ⟨results, s, hs⟩ := hclean batch hk
    have hidle := completeBatchTx_idle hschema hs
    rw [Action.exec, hs]
    refine duties_record hσ rfl rfl rfl (fun m hm => ?_) fun m hm => ?_
    · rcases mem_messages.1 hm with ⟨x, hx, rfl⟩ | hm
      · rcases List.mem_append.1 hx with hx | hx
        · exact .inl (mem_messages.2 (.inl ⟨x, List.mem_append_left _ hx, rfl⟩))
        · rcases mem_flatten_or hk hx with hx | hx
          · exact .inl (mem_messages.2 (.inl ⟨x, List.mem_append_right _ hx, rfl⟩))
          · exact .inr (hidle.running (List.mem_map.2 ⟨x.2, List.mem_map_of_mem hx, rfl⟩))
      · exact .inl (mem_messages.2 (.inr hm))
    · rcases mem_messages.1 hm with ⟨x, hx, rfl⟩ | hm
      · rcases List.mem_append.1 hx with hx | hx
        · exact mem_messages.2 (.inl ⟨x, List.mem_append_left _ hx, rfl⟩)
        · exact mem_messages.2 (.inl ⟨x, List.mem_append_right _ (mem_of_eraseIdx_flatten hx), rfl⟩)
      · exact mem_messages.2 (.inr hm)

private theorem failBatch_duties (hσ : σ.Addressed) {k : Nat} {fault : Bool} {now : Int}
    (hclean : (FutureStep.failBatch k fault now).Clean c σ) :
    σ.Duties (FutureStep.exec c sha256 σ (.failBatch k fault now)) := by
  obtain ⟨rfl, hclean⟩ := hclean
  rw [FutureStep.exec]
  split
  · exact duties_same rfl rfl rfl rfl
  · rename_i batch hk
    obtain ⟨s, hs⟩ := hclean batch hk
    have hidle := failBatchTx_idle hs
    rw [Action.exec, hs]
    refine duties_record hσ rfl rfl rfl (fun m hm => ?_) fun m hm => ?_
    · rcases mem_messages.1 hm with hm | ⟨x, hx, rfl⟩
      · exact .inl (mem_messages.2 (.inl hm))
      · rcases List.mem_append.1 hx with hx | hx
        · exact .inl (mem_messages.2 (.inr ⟨x, List.mem_append_left _ hx, rfl⟩))
        · rcases mem_flatten_or hk hx with hx | hx
          · exact .inl (mem_messages.2 (.inr ⟨x, List.mem_append_right _ hx, rfl⟩))
          · exact .inr (hidle.running (List.mem_map.2 ⟨x.2, List.mem_map_of_mem hx, rfl⟩))
    · rcases mem_messages.1 hm with hm | ⟨x, hx, rfl⟩
      · exact mem_messages.2 (.inl hm)
      · rcases List.mem_append.1 hx with hx | hx
        · exact mem_messages.2 (.inr ⟨x, List.mem_append_left _ hx, rfl⟩)
        · exact mem_messages.2 (.inr ⟨x, List.mem_append_right _ (mem_of_eraseIdx_flatten hx), rfl⟩)

/-- Other tokens may be cancelled. -/
private theorem Future.Bound.cancel {cancelled more : List Nat} (h : f.Bound cancelled) (hnew : f.token ∉ more) :
    f.Bound (more ++ cancelled) := by
  have hnot (hold : f.token ∉ cancelled) : f.token ∉ more ++ cancelled :=
    fun hmem => (List.mem_append.1 hmem).elim hnew hold
  unfold Future.Bound at h ⊢
  cases hstage : f.stage with
  | executing =>
    rw [hstage] at h
    exact hnot h
  | retrying error =>
    rw [hstage] at h
    exact hnot h
  | counting memo metrics => trivial
  | waiting memo => trivial
  | failing error metrics => trivial
  | sent =>
    rw [hstage] at h
    exact h
  | ended =>
    rw [hstage] at h
    exact h
  | panicked =>
    rw [hstage] at h
    exact h

/-- A future whose token is cancelled is left to whoever has taken its entry out of the map. -/
private theorem cancelToken_duties (hl : σ.Linked) (hclean : (FutureStep.cancelToken i).Clean c σ) :
    σ.Duties (FutureStep.exec c sha256 σ (.cancelToken i)) := by
  refine ⟨fun n f hf hr ho hcarried => ?_, fun m hm => .inl hm⟩
  rcases hcarried with ⟨g, hg, hbound⟩ | hmsg | ⟨d, hd, hn, hpurpose⟩
  · rw [hf] at hg
    cases hg
    by_cases hin : ∃ d ∈ σ.drained, d.entry.future = i ∧ i = n
    · obtain ⟨d, hd, hi, rfl⟩ := hin
      obtain ⟨g, hg, hid, _⟩ := hl.drained d hd
      rw [hi, hf] at hg
      cases hg
      refine .inr (.inr ⟨{ d with cancelled := true }, ?_, hi, fun hs => ?_⟩)
      · refine List.mem_map.2 ⟨d, hd, ?_⟩
        rw [if_pos (beq_iff_eq.2 hi)]
      · rw [hid] at hr ho
        exact hclean d hd hi hs hr ho
    · -- the token of another future is another one
      refine .inl ⟨f, hf, ?_⟩
      have hnew : f.token ∉ (σ.drained.filter (·.entry.future == i)).map (·.entry.token) := by
        intro hmem
        obtain ⟨d, hd, htoken⟩ := List.mem_map.1 hmem
        obtain ⟨hd, hi⟩ := List.mem_filter.1 hd
        rw [beq_iff_eq] at hi
        obtain ⟨g, hg, _, hgtoken, _⟩ := hl.drained d hd
        exact hin ⟨d, hd, hi, hl.distinct i n g f (hi ▸ hg) hf (hgtoken.trans htoken)⟩
      exact hbound.cancel hnew
  · exact .inr (.inl hmsg)
  · refine .inr (.inr ⟨_, List.mem_map_of_mem hd, ?_, ?_⟩)
    · split
      · exact hn
      · exact hn
    · split
      · exact hpurpose
      · exact hpurpose

private theorem settle_duties (hl : σ.Linked) {fault : Bool} {now : Int}
    (hclean : (FutureStep.settle i fault now).Clean c σ) :
    σ.Duties (FutureStep.exec c sha256 σ (.settle i fault now)) := by
  obtain ⟨rfl, hclean⟩ := hclean
  rw [FutureStep.exec]
  split
  · exact duties_same rfl rfl rfl rfl
  · rename_i d₀ hfind
    have hmem₀ := List.mem_of_find?_eq_some hfind
    have hkeep : (σ.carryOut sha256 d₀ false now).futures = σ.futures ∧
        (σ.carryOut sha256 d₀ false now).cancelled = σ.cancelled ∧
        (σ.carryOut sha256 d₀ false now).messages = σ.messages := by
      rw [Futures.carryOut]
      split
      · exact ⟨rfl, rfl, rfl⟩
      · exact ⟨rfl, rfl, rfl⟩
    -- unless the entry was that of a superseded task, its row does not run any more
    have hidle : d₀.purpose = .supersede ∨
        (σ.carryOut sha256 d₀ false now).store.running d₀.entry.record.id = false := by
      cases hp : d₀.purpose with
      | supersede => exact .inl rfl
      | pause reason =>
        right
        rw [Futures.carryOut, hp]
        exact idle_singleton (pause_idle σ.store d₀.entry.record.id reason now)
      | cancel =>
        right
        obtain ⟨s, hs⟩ := hclean d₀ hfind hp
        rw [Futures.carryOut, hp]
        show ((cancelToHistoryWithRecordTx d₀.entry.record now σ.store).2).running d₀.entry.record.id = false
        rw [hs]
        exact idle_singleton (cancelToHistoryWithRecordTx_idle hs)
      | delete =>
        right
        rw [Futures.carryOut, hp]
        show (σ.store.delete d₀.entry.record.id).running d₀.entry.record.id = false
        rw [Store.running, List.any_eq_false]
        intro r hr
        obtain ⟨_, hne⟩ := List.mem_filter.1 hr
        simp at hne
        simp [hne]
    refine ⟨fun n f hf hr _ hcarried => ?_, fun m hm => .inl ?_⟩
    · rcases hcarried with ⟨g, hg, hbound⟩ | hmsg | ⟨d, hd, hn, hpurpose⟩
      · refine .inl ⟨g, ?_, ?_⟩
        · show (σ.carryOut sha256 d₀ false now).futures[n]? = some g
          rw [hkeep.1, hg]
        · show g.Bound (σ.carryOut sha256 d₀ false now).cancelled
          rw [hkeep.2.1]
          exact hbound
      · refine .inr (.inl ?_)
        show n ∈ (σ.carryOut sha256 d₀ false now).messages.map (·.1)
        rw [hkeep.2.2]
        exact hmsg
      · rcases mem_eraseP_or hd hfind with hd' | rfl
        · exact .inr (.inr ⟨d, hd', hn, hpurpose⟩)
        · obtain ⟨g, hg, hid, _⟩ := hl.drained d hd
          rw [hn, hf] at hg
          cases hg
          have hrun : (σ.carryOut sha256 d false now).store.running d.entry.record.id = true := hid ▸ hr
          rw [hidle.resolve_left hpurpose] at hrun
          cases hrun
    · rw [← hkeep.2.2]
      exact hm

theorem FutureStep.duties_exec (sha256 : List UInt8 → String) (st : FutureStep) (hst : st.isSpawn = false)
    (hl : σ.Linked) (hσ : σ.Addressed) (hschema : σ.store.Schema) (hclean : st.Clean c σ) :
    σ.Duties (st.exec c sha256 σ) := by
  cases st with
  | spawn task phase => cases hst
  | store a => exact duties_same rfl rfl rfl rfl
  | setHandle i =>
    refine duties_step fun f hf => ?_
    split
    · exact duties_same rfl rfl rfl rfl
    · exact duties_set hf rfl (fun _ hbound => .inl hbound) (fun _ hm => hm) (fun _ hm => .inl hm) rfl rfl
  | progress i =>
    refine duties_step fun f hf => ?_
    split
    · exact duties_same rfl rfl rfl rfl
    · exact duties_same rfl rfl rfl rfl
  | returns i outcome metrics random => exact duties_step fun f hf => execReturns_duties hf hclean
  | countChildren i fault =>
    refine duties_step fun f hf => ?_
    split
    · split
      · exact duties_enter hf fun _ => trivial
      · exact duties_complete hf _
    · exact duties_same rfl rfl rfl rfl
  | setWaiting i fault =>
    obtain rfl : fault = false := hclean
    refine duties_step fun f hf => ?_
    split
    · refine duties_leave hf fun hr => ?_
      rw [idle_singleton (setWaiting_idle σ.store f.task.id _)] at hr
      cases hr
    · exact duties_same rfl rfl rfl rfl
  | retryInline i fault =>
    refine duties_step fun f hf => ?_
    unfold execRetry
    split
    · rename_i error hstage
      have hb : f.Bound σ.cancelled → f.token ∉ σ.cancelled := fun hbound => (bound_of_stage hstage).1 hbound
      cases fault with
      | true =>
        exact duties_set hf rfl (fun _ hbound => .inl (hb hbound)) (fun _ hm => hm) (fun _ hm => .inl hm) rfl rfl
      | false =>
        exact duties_set hf rfl (fun _ hbound => .inl (hb hbound)) (fun _ hm => hm) (fun _ hm => .inl hm) rfl rfl
    · exact duties_same rfl rfl rfl rfl
  | handleFailure i fault random now => exact duties_step fun f hf => execFailure_duties hf hclean
  | cleanUp i =>
    refine duties_step fun f hf => ?_
    split
    · rename_i hstage
      refine duties_set hf rfl (fun _ hbound => ?_) (fun _ hm => hm) (fun _ hm => .inl hm) rfl rfl
      exact absurd ((bound_of_stage hstage).1 hbound) id
    · exact duties_same rfl rfl rfl rfl
  | drainCompletions =>
    have hmem (m : Nat × Int) : m ∈ (exec c sha256 σ .drainCompletions).messages ↔ m ∈ σ.messages := by
      simp only [Futures.messages, exec, List.flatten_append, List.flatten_singleton, List.nil_append,
        List.map_append, List.mem_append]
      tauto
    exact duties_record hσ rfl rfl rfl (fun m hm => .inl ((hmem m).2 hm)) fun m hm => (hmem m).1 hm
  | completeBatch k fault now => exact completeBatch_duties hσ hschema hclean
  | drainFailures =>
    have hmem (m : Nat × Int) : m ∈ (exec c sha256 σ .drainFailures).messages ↔ m ∈ σ.messages := by
      simp only [Futures.messages, exec, List.flatten_append, List.flatten_singleton, List.nil_append,
        List.map_append, List.mem_append]
      tauto
    exact duties_record hσ rfl rfl rfl (fun m hm => .inl ((hmem m).2 hm)) fun m hm => (hmem m).1 hm
  | failBatch k fault now => exact failBatch_duties hσ hclean
  | drain p purpose =>
    refine ⟨fun n f _ _ _ hcarried => ?_, fun m hm => .inl hm⟩
    rcases hcarried with hbound | hmsg | ⟨d, hd, hrest⟩
    · exact .inl hbound
    · exact .inr (.inl hmsg)
    · exact .inr (.inr ⟨d, List.mem_append_left _ hd, hrest⟩)
  | cancelToken i => exact cancelToken_duties hl hclean
  | settle i fault now => exact settle_duties hl hclean

end Duties

/-! ### Runs -/

private structure Futures.Kept (σ : Futures) : Prop where
  linked : σ.Linked
  schema : σ.store.Schema
  balanced : σ.Balanced
  entries : ∀ e ∈ σ.active, ∀ f, σ.futures[e.future]? = some f → f.over = false
  once : ∀ (n : Nat) (f : Future), σ.futures[n]? = some f → f.over = true → f.decremented = true
  addressed : σ.Addressed
  owners : ∀ id n, σ.owner id = some n → ∃ f, σ.futures[n]? = some f ∧ f.task.id = id
  rows : ∀ id n, σ.store.running id = true → σ.owner id = some n → σ.Carried n

section Runs

variable {c : SpawnConfig} {sha256 : List UInt8 → String} {σ τ : Futures} {inline : Prop}

private theorem kept_next (h : σ.Kept) (hk : σ.Keeps inline τ) (hw : σ.Wrote sha256 τ) (hs : σ.FreesSlots τ)
    (hd : σ.Duties τ) (howner : ∀ id n, τ.owner id = some n → σ.owner id = some n) : τ.Kept where
  linked := hk.linked h.linked
  schema := hw.schema h.schema
  balanced := hs.balanced h.balanced
  entries := by
    intro e' he' f' hf'
    obtain ⟨e, he, hsame⟩ := hk.active e' he'
    rw [hsame.future] at hf'
    obtain ⟨f, hf, _⟩ := hk.futures _ f' hf'
    obtain ⟨g, hg, hid, _⟩ := h.linked.active e he
    rw [hf] at hg
    cases hg
    by_contra hover
    rw [Bool.not_eq_false] at hover
    refine (hs.closed _ f f' hf hf' (h.entries e he f hf) hover).2 e' he' ?_
    rw [hsame.record, hid]
  once := by
    intro n f' hf' hover
    obtain ⟨f, hf, hfollows⟩ := hk.futures n f' hf'
    cases hfo : f.over with
    | true => exact hfollows.decremented (h.once n f hf hfo)
    | false => exact (hs.closed n f f' hf hf' hfo hover).1
  addressed := by
    intro m hm
    obtain ⟨f, hf, hid⟩ : ∃ f, σ.futures[m.1]? = some f ∧ f.task.id = m.2 := by
      rcases hd.messages m hm with hold | hnew
      · exact h.addressed m hold
      · exact hnew
    obtain ⟨f', hf', hfollows⟩ := hk.future hf
    exact ⟨f', hf', hfollows.id.trans hid⟩
  owners := by
    intro id n ho
    obtain ⟨f, hf, hid⟩ := h.owners id n (howner id n ho)
    obtain ⟨f', hf', hfollows⟩ := hk.future hf
    exact ⟨f', hf', hfollows.id.trans hid⟩
  rows := by
    intro id n hr ho
    obtain ⟨hr₀, ho₀⟩ := hw.running hr ho
    obtain ⟨f, hf, rfl⟩ := h.owners id n ho₀
    exact hd.carried n f hf hr ho (h.rows _ n hr₀ ho₀)

private theorem Futures.Wrote.owner_of (h : σ.Wrote sha256 τ) {id : Int} {n : Nat} (ho : τ.owner id = some n) :
    σ.owner id = some n := by
  rcases h with ⟨_, howner⟩ | ⟨a, _, howner⟩
  · exact howner ▸ ho
  · rw [howner] at ho
    simp only [Futures.write] at ho
    split at ho
    · cases ho
    · exact ho

/-- A new future counts. -/
private theorem balanced_spawn (h : σ.Balanced) (task : TaskRecord) (phase : ExecutionPhase) :
    (σ.spawn task phase).Balanced := by
  intro module n hn
  rw [Futures.spawn, lookup_bumpModule, Option.map_eq_some_iff] at hn
  obtain ⟨k, hk, rfl⟩ := hn
  have hcounts : (σ.spawn task phase).counts module =
      σ.counts module + if moduleName task.taskType = some module then 1 else 0 := by
    rw [Futures.counts, Futures.spawn, List.countP_append, List.countP_singleton]
    simp [Futures.counts]
  rw [hcounts, h module k hk]
  by_cases hm : moduleName task.taskType = some module
  · simp [hm]
  · simp [hm]

private theorem kept_spawn (h : σ.Kept) (task : TaskRecord) (phase : ExecutionPhase) : (σ.spawn task phase).Kept where
  linked := h.linked.spawn task phase
  schema := h.schema
  balanced := balanced_spawn h.balanced task phase
  entries := by
    intro e he f hf
    rcases Futures.spawn_futures hf with hf | ⟨_, rfl⟩
    · rcases List.mem_append.1 he with he | he
      · exact h.entries e (List.mem_of_mem_filter he) f hf
      · rw [List.mem_singleton.1 he] at hf
        simp at hf
    · rfl
  once := by
    intro n f hf hover
    rcases Futures.spawn_futures hf with hf | ⟨_, rfl⟩
    · exact h.once n f hf hover
    · cases hover
  addressed := by
    intro m hm
    obtain ⟨f, hf, hid⟩ := h.addressed m hm
    exact ⟨f, Futures.spawn_future_old hf, hid⟩
  owners := by
    intro id n ho
    by_cases hid : id = task.id
    · subst hid
      have hn : n = σ.futures.length := by simpa [Futures.spawn] using ho.symm
      subst hn
      exact ⟨_, List.getElem?_concat_length, rfl⟩
    · have ho' : σ.owner id = some n := by
        rw [← ho]
        exact (Function.update_of_ne hid ..).symm
      obtain ⟨f, hf, hfid⟩ := h.owners id n ho'
      exact ⟨f, Futures.spawn_future_old hf, hfid⟩
  rows := by
    intro id n hr ho
    by_cases hid : id = task.id
    · subst hid
      have hn : n = σ.futures.length := by simpa [Futures.spawn] using ho.symm
      subst hn
      refine .inl ⟨_, List.getElem?_concat_length, fun hmem => ?_⟩
      exact absurd (h.linked.cancelled _ hmem) (Nat.lt_irrefl _)
    · have ho' : σ.owner id = some n := by
        rw [← ho]
        exact (Function.update_of_ne hid ..).symm
      rcases h.rows id n hr ho' with ⟨f, hf, hbound⟩ | hrest
      · exact .inl ⟨f, Futures.spawn_future_old hf, hbound⟩
      · exact .inr hrest

private theorem kept_exec (h : σ.Kept) {st : FutureStep} (hst : st.Clean c σ) : (st.exec c sha256 σ).Kept := by
  cases hspawn : st.isSpawn with
  | false =>
    have hw := st.wrote_exec c sha256 σ hspawn
    exact kept_next h (st.keeps_exec c sha256 σ hspawn) hw (st.freesSlots_exec sha256 hspawn hst)
      (st.duties_exec sha256 hspawn h.linked h.addressed h.schema hst) fun _ _ => hw.owner_of
  | true =>
    cases st with
    | spawn task phase => exact kept_spawn h task phase
    | _ => cases hspawn

private theorem kept_fresh (h : σ.Fresh) : σ.Kept where
  linked := h.linked
  schema := h.store.schema
  balanced := by
    intro module n hn
    rw [h.moduleRunning module n hn, Futures.counts, h.futures]
    rfl
  entries := by
    rw [h.active]
    exact fun _ he => absurd he List.not_mem_nil
  once := by
    intro n f hf
    rw [h.futures] at hf
    cases hf
  addressed := by
    intro m hm
    rw [Futures.messages, h.completions, h.completing, h.failures, h.failing] at hm
    cases hm
  owners := by
    intro id n ho
    rw [h.owner id] at ho
    cases ho
  rows := by
    intro id n _ ho
    rw [h.owner id] at ho
    cases ho

private theorem Future.Bound.not_over {f : Future} {cancelled : List Nat} (h : f.Bound cancelled) :
    f.over = false := by
  unfold Future.Bound at h
  unfold Future.over
  cases hstage : f.stage with
  | ended =>
    rw [hstage] at h
    exact absurd h id
  | panicked =>
    rw [hstage] at h
    exact absurd h id
  | _ => rfl

private theorem Futures.Kept.noLeak (h : σ.Kept) : σ.NoLeak where
  entry := by
    rintro n f hf hover e he rfl
    rw [h.entries e he f hf] at hover
    cases hover
  decremented := by
    intro f hf hover
    obtain ⟨n, hn⟩ := List.mem_iff_getElem?.1 hf
    exact h.once n f hn hover
  counter := h.balanced
  row := by
    intro n f hf hover hmsg hdrained id hr ho
    rcases h.rows id n hr ho with ⟨g, hg, hbound⟩ | hin | ⟨d, hd, hn, _⟩
    · rw [hf] at hg
      cases hg
      rw [hbound.not_over] at hover
      cases hover
    · exact hmsg hin
    · exact hdrained d hd hn

end Runs

/-- If nothing panics and no statement fails that should change the row of an execution, no execution leaks its slot
or leaves its row behind. -/
theorem futures_no_leak (c : SpawnConfig) (sha256 : List UInt8 → String) (σ : Futures)
    (h : Runs Futures.Fresh (fun σ (st : FutureStep) => st.exec c sha256 σ) (fun σ st => st.Clean c σ) σ) :
    σ.NoLeak :=
  (Runs.invariant (I := Futures.Kept) h (fun _ => kept_fresh) fun _ _ hσ hst => kept_exec hσ hst).noLeak

/-- The task fails once, succeeds in the second attempt, and its completion is recorded. -/
private def completedRun : List FutureStep :=
  startFirst (.new "media::a") ++
    ([.setHandle 0, .returns 0 (.err ⟨"failed", true, none⟩) {} 0, .retryInline 0 false, .returns 0 (.ok none) {} 0,
     .drainCompletions, .completeBatch 0 false 0] : List FutureStep)

theorem completedRun_noLeak : (futuresState completedRun).futures.map (·.over) = [true] ∧
    (futuresState completedRun).store.tasks = [] ∧ (futuresState completedRun).NoLeak := by
  refine ⟨rfl, by decide +kernel, futures_no_leak threeRetries sampleSha256 _ (Runs.list (.start futuresStart_fresh)
    completedRun ?_)⟩
  refine ⟨trivial, trivial, trivial, trivial, fun f hf _ => ?_, trivial, fun f hf _ => trivial, trivial,
    ⟨rfl, fun batch hb => ?_⟩, trivial⟩
  · cases hf
    exact Option.some_ne_none _
  · cases hb
    exact ⟨_, _, rfl⟩

/-- The executor panics. -/
private def panickedRun : List FutureStep := startFirst (.new "media::a") ++ [.setHandle 0, .returns 0 .panic {} 0]

/-- The entry and the count of the task are still there, and its row runs. -/
theorem panicked_leaks : ¬ ∀ (c : SpawnConfig) (sha256 : List UInt8 → String) (σ : Futures),
    Runs Futures.Fresh (fun σ (st : FutureStep) => st.exec c sha256 σ) (fun _ _ => True) σ → σ.NoLeak := by
  intro h
  have hleak := h threeRetries sampleSha256 (futuresState panickedRun)
    (Runs.list (.start futuresStart_fresh) panickedRun (.of_forall fun _ _ => trivial))
  exact hleak.entry 0 _ rfl rfl _ (List.mem_singleton.2 rfl) rfl

end Taskmill
