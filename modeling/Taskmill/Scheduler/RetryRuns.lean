import Taskmill.Scheduler.RetryCounts

/-!
# Retries along runs

A life is followed from step to step (`tracked_exec`).  The steps of other tasks leave its row running and its
futures and messages alone; its own steps move it from one place to the next, and the count moves with it.
-/

namespace Taskmill

open Transact

/-! ### Steps of others -/

/-- The future is where it was, as far as the outcome is concerned. -/
structure Future.Rests (f f' : Future) : Prop where
  task : f'.task = f.task
  stage : f'.stage = f.stage ∨ f.idle = true ∧ f'.idle = true

/-- The futures and the messages of the life are the same. -/
structure Futures.SameLife (life : Nat) (σ τ : Futures) : Prop where
  forth : ∀ (n : Nat) (f : Future), σ.futures[n]? = some f → f.task.inst = life →
    ∃ f', τ.futures[n]? = some f' ∧ f.Rests f'
  back : ∀ (n : Nat) (f' : Future), τ.futures[n]? = some f' → f'.task.inst = life →
    ∃ f, σ.futures[n]? = some f ∧ f.Rests f'
  failures : τ.failuresOf life = σ.failuresOf life
  completions : τ.completionsOf life = σ.completionsOf life

section Frame

variable {c : SpawnConfig} {sha256 : List UInt8 → String} {life : Nat} {q : Quota} {limit : Int} {id : Int} {k : Nat}
  {σ τ : Futures} {t : Tally} {i : Nat} {f f' : Future}

theorem Future.Rests.refl (f : Future) : f.Rests f := ⟨rfl, .inl rfl⟩

theorem Futures.SameLife.of_eq (hf : τ.futures = σ.futures) (hfail : τ.failuresOf life = σ.failuresOf life)
    (hdone : τ.completionsOf life = σ.completionsOf life) : σ.SameLife life τ where
  forth n f hn _ := ⟨f, by rw [hf]; exact hn, .refl f⟩
  back n f hn _ := ⟨f, by rw [← hf]; exact hn, .refl f⟩
  failures := hfail
  completions := hdone

/-- A future of another task goes on, or one of the task itself in a way that does not matter. -/
theorem Futures.SameLife.of_set (hf : σ.futures[i]? = some f) (hset : τ.futures = σ.futures.set i f')
    (hinst : f'.task.inst = f.task.inst) (h : f.task.inst = life → f.Rests f')
    (hfail : τ.failuresOf life = σ.failuresOf life) (hdone : τ.completionsOf life = σ.completionsOf life) :
    σ.SameLife life τ where
  forth n g hn hg := by
    rw [hset]
    by_cases hin : i = n
    · subst hin
      rw [hf] at hn
      cases hn
      exact ⟨f', List.getElem?_set_self (List.getElem?_eq_some_iff.1 hf).1, h hg⟩
    · exact ⟨g, by rw [List.getElem?_set_ne hin]; exact hn, .refl g⟩
  back n g hn hg := by
    rw [hset] at hn
    by_cases hin : i = n
    · subst hin
      rw [List.getElem?_set_self (List.getElem?_eq_some_iff.1 hf).1] at hn
      cases hn
      exact ⟨f, hf, h (hinst.symm.trans hg)⟩
    · rw [List.getElem?_set_ne hin] at hn
      exact ⟨g, hn, .refl g⟩
  failures := hfail
  completions := hdone

private theorem clear_same (hs : σ.SameLife life τ) {except : Option Nat} (h : σ.Clear life except) :
    τ.Clear life except := by
  intro n f' hn hinst hne
  obtain ⟨f, hf, hrest⟩ := hs.back n f' hn hinst
  have hidle := h n f hf (by rw [← hrest.task]; exact hinst) hne
  rcases hrest.stage with hstage | ⟨_, hidle'⟩
  · unfold Future.idle at hidle ⊢
    rw [hstage]
    exact hidle
  · exact hidle'

/-- A future that executes the task has something to do. -/
theorem Future.Stands.not_idle (h : f.Stands limit k t) : f.idle = false := by
  unfold Future.Stands at h
  unfold Future.idle
  cases hstage : f.stage with
  | sent =>
    rw [hstage] at h
    exact h.elim
  | ended =>
    rw [hstage] at h
    exact h.elim
  | panicked =>
    rw [hstage] at h
    exact h.elim
  | _ => rfl

/-- The place of the task does not change if the row stays running or gone. -/
private theorem place_same (hs : σ.SameLife life τ) (hbusy : σ.Busy life id → τ.Busy life id)
    (hgone : (∀ r ∈ σ.store.tasks, r.inst ≠ life) → life < σ.store.nextInst →
      (∀ r ∈ τ.store.tasks, r.inst ≠ life) ∧ life < τ.store.nextInst) {t' : Tally} (hf : t'.failures = t.failures)
    (hr : t'.retried = t.retried) (hrec : ∀ w ∈ t.recorded, w ∈ t'.recorded) (h : σ.Place life limit id k t) :
    τ.Place life limit id k t' := by
  have heven : t.Even limit k → t'.Even limit k := fun h => ⟨by rw [hf]; exact h.counted, by rw [hr]; exact h.retried⟩
  have hdue : ∀ e, t.Due limit k e → t'.Due limit k e := fun e h =>
    ⟨by rw [hf]; exact h.failures, by rw [hr]; exact h.retried⟩
  have hfinal : ∀ e, t.Final limit k e → t'.Final limit k e := fun e h =>
    ⟨by rw [hf]; exact h.failures, by rw [hr]; exact h.retried, h.refused⟩
  cases h with
  | idle clear failures completions even =>
    exact .idle (clear_same hs clear) (hs.failures.trans failures) (hs.completions.trans completions) (heven even)
  | failed n item e clear failures completions busy task retryable final =>
    exact .failed n item e (clear_same hs clear) (hs.failures.trans failures)
      (hs.completions.trans completions) (hbusy busy) task retryable (hfinal e final)
  | completed n task metrics clear failures completions busy count even =>
    exact .completed n task metrics (clear_same hs clear) (hs.failures.trans failures)
      (hs.completions.trans completions) (hbusy busy) count (heven even)
  | ended e clear failures completions gone born final recorded =>
    obtain ⟨w, hw, hst, hfs⟩ := recorded
    obtain ⟨hgone, hborn⟩ := hgone gone born
    exact .ended e (clear_same hs clear) (hs.failures.trans failures) (hs.completions.trans completions) hgone hborn
      (hfinal e final) ⟨w, hrec w hw, hst, by rw [hf]; exact hfs⟩
  | held n f h =>
    obtain ⟨f', hf', hrest⟩ := hs.forth n f h.future h.inst
    have hstage : f'.stage = f.stage := hrest.stage.resolve_right fun hidle => by
      rw [h.stands.not_idle] at hidle
      cases hidle.1
    refine .held n f' ⟨hf', by rw [hrest.task]; exact h.inst, clear_same hs h.clear, hs.failures.trans h.failures,
      hs.completions.trans h.completions, hbusy h.busy, by rw [hrest.task]; exact h.count, ?_⟩
    have hstands := h.stands
    unfold Future.Stands at hstands ⊢
    rw [hstage]
    split at hstands
    · exact heven hstands
    · exact heven hstands
    · exact ⟨hdue _ hstands.1, hstands.2⟩
    · exact hdue _ hstands
    · exact hstands
    · exact hstands
    · exact hstands
    · exact hstands

private theorem futures_same (hs : σ.SameLife life τ) (hn : σ.store.nextInst ≤ τ.store.nextInst)
    (h : ∀ f ∈ σ.futures, f.task.inst = life → life < σ.store.nextInst ∧
      f.task.id = q.id ∧ f.task.maxRetries = q.maxRetries ∧ f.task.taskType = q.taskType) :
    ∀ f ∈ τ.futures, f.task.inst = life → life < τ.store.nextInst ∧
      f.task.id = q.id ∧ f.task.maxRetries = q.maxRetries ∧ f.task.taskType = q.taskType := by
  intro f' hf' hinst
  obtain ⟨n, hn'⟩ := List.mem_iff_getElem?.1 hf'
  obtain ⟨f, hf, hrest⟩ := hs.back n f' hn' hinst
  have hold := h f (List.mem_of_getElem? hf) (by rw [← hrest.task]; exact hinst)
  rw [hrest.task]
  exact ⟨by omega, hold.2⟩

/-- The store is the same. -/
private theorem tracked_same (h : σ.Tracked c life q t) (hs : σ.SameLife life τ) (hstore : τ.store = σ.store)
    (howner : ∀ r ∈ σ.store.tasks, r.inst = life → τ.owner r.id = σ.owner r.id) : τ.Tracked c life q t where
  schema := by rw [hstore]; exact h.schema
  rows := by rw [hstore]; exact h.rows
  futures := futures_same hs (by rw [hstore]) h.futures
  written := h.written
  unborn := by rw [hstore]; exact h.unborn
  place := by
    refine place_same hs (fun hbusy => ?_) (fun hgone hborn => ?_) rfl rfl (fun _ hw => hw) h.place
    · obtain ⟨r, hr, hinst, hst⟩ := hbusy.running
      refine ⟨⟨r, by rw [hstore]; exact hr, hinst, hst⟩, ?_⟩
      have hid : q.id = r.id := by rw [← h.row_quota hr hinst]; rfl
      rw [hid, howner r hr hinst, ← hid]
      exact hbusy.spawned
    · rw [hstore]
      exact ⟨hgone, hborn⟩

/-- The history rows that a step of others writes for the life. -/
private theorem writes_ignored {s : Store} {a : Action} (ha : a.Ignores sha256 life s) {h : TaskHistoryRow}
    (hw : a.Writes s h) (hinst : h.inst = life) : h.status.withdrawn = true ∨
      ∃ r ∈ s.tasks, r.inst = life ∧ r.status ≠ .running ∧ h.status = .expired ∧ h.retryCount = r.retryCount := by
  have hrecord : ∀ task ∈ a.outcomeRecords, ∀ st, h.Of task st → False := fun task htask st hof =>
    ha.records task htask (hof.inst.symm.trans hinst)
  have hread : ∀ r ∈ s.tasks, ∀ id, r.id = id → id ∈ a.outcomeIds → ∀ st, h.Of (rowToTaskRecord r) st → False := by
    intro r hr id hid hmem st hof
    exact ha.ids r hr (hof.inst.symm.trans hinst) (hid ▸ hmem)
  have hexpired : (∃ r ∈ s.tasks, r.status ≠ .running ∧ h.Of (rowToTaskRecord r) .expired) →
      ∃ r ∈ s.tasks, r.inst = life ∧ r.status ≠ .running ∧ h.status = .expired ∧ h.retryCount = r.retryCount := by
    rintro ⟨r, hr, hst, hof⟩
    exact ⟨r, hr, hof.inst.symm.trans hinst, hst, hof.status, hof.retryCount⟩
  cases a with
  | complete id metrics now =>
    obtain ⟨r, hr, hid, hof⟩ := hw
    exact (hread r hr id hid (List.mem_singleton_self _) _ hof).elim
  | completeWithRecord task metrics now => exact (hrecord task (List.mem_singleton_self _) _ hw).elim
  | completeBatch items now =>
    obtain ⟨item, hitem, hof⟩ := hw
    exact (hrecord item.1 (List.mem_map_of_mem hitem) _ hof).elim
  | fail id error retryable maxRetries metrics backoff now =>
    obtain ⟨r, hr, hid, hof⟩ := hw
    exact (hread r hr id hid (List.mem_singleton_self _) _ hof).elim
  | failWithRecord task error retryable maxRetries metrics backoff now =>
    exact (hrecord task (List.mem_singleton_self _) _ hw).elim
  | failBatch items now =>
    obtain ⟨item, hitem, hof⟩ := hw
    exact (hrecord item.task (List.mem_map_of_mem hitem) _ hof).elim
  | expireTasks now => exact .inr (hexpired hw)
  | expireSingle id now => exact .inr (hexpired hw)
  | _ => exact .inl hw

/-- The tally after a step that has written to the history. -/
def Tally.record (life : Nat) (s s' : Store) (t : Tally) : Tally :=
  { t with recorded := t.recorded ++ (s.newHistory life s').map fun h => (h, t.failures) }

theorem Store.mem_newHistory {s s' : Store} {h : TaskHistoryRow} :
    h ∈ s.newHistory life s' ↔ h ∈ s'.taskHistory ∧ h.inst = life ∧ h ∉ s.taskHistory := by
  simp [Store.newHistory]

private theorem mem_record {s s' : Store} {w : TaskHistoryRow × List TaskError}
    (hw : w ∈ (t.record life s s').recorded) :
    w ∈ t.recorded ∨ (w.1 ∈ s.newHistory life s' ∧ w.2 = t.failures) := by
  rcases List.mem_append.1 hw with hw | hw
  · exact .inl hw
  · obtain ⟨h, hh, rfl⟩ := List.mem_map.1 hw
    exact .inr ⟨hh, rfl⟩

private theorem written_withdrawn {w : TaskHistoryRow × List TaskError} (h : w.1.status.withdrawn = true) :
    Written limit w where
  count hw := by
    rw [h] at hw
    cases hw
  deadLetter hw := by
    rw [hw] at h
    cases h
  failed hw := by
    rw [hw] at h
    cases h

private theorem even_zero {limit' : Int} {s s' : Store} (h : t.Even limit 0) : (t.record life s s').Even limit' 0 :=
  ⟨⟨h.counted.length, h.counted.retryable, fun hlt => absurd hlt (Nat.lt_irrefl 0)⟩, h.retried⟩

/-- Before the life has begun, its task is nowhere. -/
private theorem place_unborn (hschema : σ.store.Schema) (hn : σ.store.nextInst ≤ life)
    (h : σ.Place life limit id k t) :
    σ.Clear life none ∧ σ.failuresOf life = [] ∧ σ.completionsOf life = [] ∧ t.Even limit k := by
  have hbusy : ¬ σ.Busy life id := by
    rintro ⟨⟨r, hr, rfl, _⟩, _⟩
    have := hschema.inst_lt r hr
    omega
  cases h with
  | idle clear failures completions even => exact ⟨clear, failures, completions, even⟩
  | held n f h => exact absurd h.busy hbusy
  | failed n item e clear failures completions busy => exact absurd busy hbusy
  | completed n task metrics clear failures completions busy => exact absurd busy hbusy
  | ended e clear failures completions gone born => omega

/-- A task with a row that does not run has no failure that is not retried. -/
private theorem place_resting (h : σ.Tracked c life q t) {r : TaskRow} (hr : r ∈ σ.store.tasks)
    (hinst : r.inst = life) (hst : r.status ≠ .running) : t.Even (c.limit q) q.retryCount := by
  have hbusy : ¬ σ.Busy life q.id := by
    rintro ⟨⟨r', hr', hinst', hst'⟩, _⟩
    rw [List.inj_on_of_nodup_map h.schema.insts hr' hr (hinst'.trans hinst.symm)] at hst'
    exact hst hst'
  cases h.place with
  | idle clear failures completions even => exact even
  | held n f h => exact absurd h.busy hbusy
  | failed n item e clear failures completions busy => exact absurd busy hbusy
  | completed n task metrics clear failures completions busy => exact absurd busy hbusy
  | ended e clear failures completions gone => exact absurd hinst (gone r hr)

/-- A step of others. -/
private theorem tracked_action (h : σ.Tracked c life q t) (hs : σ.SameLife life τ) {a : Action}
    (ha : a.Ignores sha256 life σ.store) (hstore : τ.store = a.exec sha256 σ.store)
    (howner : τ.owner = (σ.write (a.exec sha256 σ.store)).owner) :
    ∃ q', τ.Tracked c life q' (t.record life σ.store τ.store) := by
  have hschema : τ.store.Schema := by rw [hstore]; exact h.schema.steps (a.steps sha256 σ.store)
  have hnext : σ.store.nextInst ≤ τ.store.nextInst := by rw [hstore]; exact (a.steps sha256 σ.store).nextInst_le
  have hcounts : ∀ r ∈ σ.store.tasks, r.inst = life → r.id ∉ a.countsFor := fun r hr hinst hmem =>
    ha.ids r hr hinst (a.countsFor_subset hmem)
  have hnew : ∀ h ∈ σ.store.newHistory life τ.store, h.status.withdrawn = true ∨
      ∃ r ∈ σ.store.tasks, r.inst = life ∧ r.status ≠ .running ∧ h.status = .expired ∧
          h.retryCount = r.retryCount := by
    intro h hh
    obtain ⟨hmem, hinst, hold⟩ := Store.mem_newHistory.1 hh
    rw [hstore] at hmem
    exact writes_ignored ha ((a.logs_exec sha256 σ.store h hmem).resolve_left hold) hinst
  by_cases hborn : life < σ.store.nextInst
  · have hvacuous : ∀ S : Quota → Prop, σ.store.nextInst ≤ life → ∀ q : Quota, q.retryCount = 0 → S q :=
      fun S hle => absurd hborn (by omega)
    refine ⟨q, hschema, ?_, futures_same hs hnext h.futures, fun w hw => ?_, fun hle => by omega, ?_⟩
    · rw [hstore]
      exact a.quota_exec h.schema h.rows (hvacuous _) hcounts
    · rcases mem_record hw with hw | ⟨hw, hfs⟩
      · exact h.written w hw
      · rcases hnew w.1 hw with hwd | ⟨r, hr, hinst, hst, hexp, hcount⟩
        · exact written_withdrawn hwd
        · have heven := place_resting h hr hinst hst
          refine ⟨fun _ => ?_, fun hd => ?_, fun hd => ?_⟩
          · rw [hfs, heven.counted.length, hcount, ← h.row_quota hr hinst]
            rfl
          · rw [hexp] at hd
            cases hd
          · rw [hexp] at hd
            cases hd
    · refine place_same (t := t) hs (fun hbusy => ?_) (fun hgone _ => ⟨?_, by omega⟩) rfl rfl
        (fun w hw => List.mem_append_left _ hw) h.place
      · obtain ⟨r, hr, hinst, hst⟩ := hbusy.running
        have hid : r.id = q.id := by rw [← h.row_quota hr hinst]; rfl
        have hruns : σ.store.running q.id = true := by
          rw [Store.running, List.any_eq_true]
          exact ⟨r, hr, by simp [hid, hst]⟩
        refine ⟨by rw [hstore]; exact ha.running r hr hinst hst, ?_⟩
        rw [howner]
        simp only [Futures.write, hruns, Bool.not_true, Bool.and_false, Bool.false_eq_true, if_false]
        exact hbusy.spawned
      · have hnone : (a.exec sha256 σ.store).Rows (TaskRow.QuotaIn life fun _ => False) :=
          a.quota_exec h.schema (fun r hr hinst => hgone r hr hinst) (hvacuous _) hcounts
        rw [hstore]
        exact fun r hr hinst => hnone r hr hinst
  · have hle : σ.store.nextInst ≤ life := by omega
    obtain ⟨hzero, hwithdrawn⟩ := h.unborn hle
    obtain ⟨hclear, hfail, hdone, heven⟩ := place_unborn h.schema hle h.place
    rw [hzero] at heven
    have hrecorded : ∀ w ∈ (t.record life σ.store τ.store).recorded, w.1.status.withdrawn = true := by
      intro w hw
      rcases mem_record hw with hw | ⟨hw, _⟩
      · exact hwithdrawn w hw
      · rcases hnew w.1 hw with hwd | ⟨r, hr, hinst, _⟩
        · exact hwd
        · have := h.schema.inst_lt r hr
          omega
    have hnofuture : ∀ f ∈ τ.futures, f.task.inst ≠ life := by
      intro f' hf' hinst
      obtain ⟨n, hn⟩ := List.mem_iff_getElem?.1 hf'
      obtain ⟨f, hf, hrest⟩ := hs.back n f' hn hinst
      exact hborn (h.futures f (List.mem_of_getElem? hf) (by rw [← hrest.task]; exact hinst)).1
    have hrows : (a.exec sha256 σ.store).Rows (TaskRow.QuotaIn life fun q => q.retryCount = 0) :=
      a.quota_exec h.schema (fun r hr hinst => absurd (h.schema.inst_lt r hr) (by omega)) (fun _ q hq => hq) hcounts
    rw [← hstore] at hrows
    have hplace : ∀ limit' id', τ.Place life limit' id' 0 (t.record life σ.store τ.store) := fun limit' id' =>
      .idle (clear_same hs hclear) (hs.failures.trans hfail) (hs.completions.trans hdone) (even_zero heven)
    -- the quota is that of the row, if the life has begun now
    by_cases hrow : ∃ r ∈ τ.store.tasks, r.inst = life
    · obtain ⟨r, hr, hinst⟩ := hrow
      have hcount : r.quota.retryCount = 0 := hrows r hr hinst
      refine ⟨r.quota, hschema, fun r' hr' hinst' => ?_, fun f hf hf' => absurd hf' (hnofuture f hf),
        fun w hw => written_withdrawn (hrecorded w hw), fun _ => ⟨hcount, hrecorded⟩, ?_⟩
      · rw [List.inj_on_of_nodup_map hschema.insts hr' hr (hinst'.trans hinst.symm)]
      · rw [hcount]
        exact hplace _ _
    · refine ⟨q, hschema, fun r' hr' hinst' => absurd ⟨r', hr', hinst'⟩ hrow, fun f hf hf' =>
        absurd hf' (hnofuture f hf),
        fun w hw => written_withdrawn (hrecorded w hw), fun _ => ⟨hzero, hrecorded⟩, ?_⟩
      rw [hzero]
      exact hplace _ _

end Frame

/-! ### Outcomes of others -/

section Foreign

variable {sha256 : List UInt8 → String} {life : Nat} {s : Store} {now : Int}

/-- A step that spares the running task and keeps it running is a step of others. -/
private theorem ignores_of {a : Action} (hschema : s.Schema)
    (hids : ∀ r ∈ s.tasks, r.inst = life → r.id ∉ a.outcomeIds) (hrec : ∀ task ∈ a.outcomeRecords, task.inst ≠ life)
    (hsp : ∀ r ∈ s.tasks, r.inst = life → a.Spares sha256 true r s)
    (hk : life < s.nextInst → a.KeepsRows sha256 (fun r => r.inst = life → r.status = .running) s) :
    a.Ignores sha256 life s where
  running r hr hinst hst := by
    obtain ⟨r', hr', his⟩ := a.holds_exec sha256 hschema hr (hsp r hr hinst)
    have hrows : s.Rows fun r => r.inst = life → r.status = .running := by
      intro r₁ hr₁ hinst₁
      rw [List.inj_on_of_nodup_map hschema.insts hr₁ hr (hinst₁.trans hinst.symm)]
      exact hst
    have hinst' : r'.inst = life := (his.inst rfl).trans hinst
    exact ⟨r', hr', hinst', a.rows_exec sha256 hschema hrows (hk (hinst ▸ hschema.inst_lt r hr)) r' hr' hinst'⟩
  ids := hids
  records := hrec

private theorem ne_of_owns {task : TaskRecord} (howns : s.Owns life task) (hinst : task.inst ≠ life) :
    ∀ r ∈ s.tasks, r.inst = life → r.id ≠ task.id := fun r hr hr' hid => hinst (howns r hr hr' hid.symm)

private theorem ignores_update {u : RowUpdate} (id : Int) (hschema : s.Schema)
    (hsel : ∀ r, u.selects r = true → r.id = id) (hout : ∀ id' ∈ (Action.update u).outcomeIds, id' = id)
    (hid : ∀ r ∈ s.tasks, r.inst = life → r.id ≠ id) : (Action.update u).Ignores sha256 life s := by
  refine ignores_of hschema (fun r hr hinst hmem => hid r hr hinst (hout _ hmem)) ?_ (fun _ _ _ => trivial)
    fun _ r hr hs hinst => ?_
  · exact fun task htask => absurd htask List.not_mem_nil
  · have hinst' : r.inst = life := by
      rw [← hinst]
      cases u <;> rfl
    exact absurd (hsel r hs) (hid r hr hinst')

private theorem ignores_failWithRecord {task : TaskRecord} {error : String} {retryable : Bool} {maxRetries : Int}
    {metrics : IoBudget} {backoff : FailBackoff} (hschema : s.Schema) (howns : s.Owns life task)
    (hinst : task.inst ≠ life) :
    (Action.failWithRecord task error retryable maxRetries metrics backoff now).Ignores sha256 life s := by
  have hne := ne_of_owns howns hinst
  refine ignores_of hschema (fun r hr hr' hmem => hne r hr hr' (List.mem_singleton.1 hmem)) (fun task' h => ?_)
    (fun r hr hr' hid => absurd hid (hne r hr hr')) fun _ _ r hr hid hr' => absurd hid (hne r hr hr')
  rw [List.mem_singleton.1 h]
  exact hinst

private theorem ignores_completeBatch {items : List (TaskRecord × IoBudget)} (hschema : s.Schema)
    (howns : ∀ item ∈ items, s.Owns life item.1) (hinst : ∀ item ∈ items, item.1.inst ≠ life) :
    (Action.completeBatch items now).Ignores sha256 life s := by
  have hids : ∀ r ∈ s.tasks, r.inst = life → r.id ∉ items.map (·.1.id) := by
    intro r hr hr' hmem
    obtain ⟨item, hitem, hid⟩ := List.mem_map.1 hmem
    exact ne_of_owns (howns item hitem) (hinst item hitem) r hr hr' hid.symm
  refine ignores_of hschema hids (fun task h => ?_) hids fun hborn => ⟨⟨?_, ?_⟩, ?_⟩
  · obtain ⟨item, hitem, rfl⟩ := List.mem_map.1 h
    exact hinst item hitem
  -- what a completion resets or inserts begins another life
  · intro r _ _ _ inst hnext (hr : inst = life)
    omega
  · intro task _ interval _ id inst hnext
    split
    · intro (hr : inst = life)
      omega
    · intro (hr : inst = life)
      omega
  · intro r hr hst
    rw [Store.freeRow]
    split
    · intro hlife
      rw [hr hlife] at hst
      cases hst
    · intro hlife
      rw [hr hlife] at hst
      cases hst

private theorem ignores_failBatch {items : List FailureItem} (hschema : s.Schema)
    (howns : ∀ item ∈ items, s.Owns life item.task) (hinst : ∀ item ∈ items, item.task.inst ≠ life) :
    (Action.failBatch items now).Ignores sha256 life s := by
  have hids : ∀ r ∈ s.tasks, r.inst = life → r.id ∉ items.map (·.task.id) := by
    intro r hr hr' hmem
    obtain ⟨item, hitem, hid⟩ := List.mem_map.1 hmem
    exact ne_of_owns (howns item hitem) (hinst item hitem) r hr hr' hid.symm
  refine ignores_of hschema hids (fun task h => ?_) hids fun _ => trivial
  obtain ⟨item, hitem, rfl⟩ := List.mem_map.1 h
  exact hinst item hitem

end Foreign

/-! ### Steps of the task itself -/

section Own

variable {c : SpawnConfig} {sha256 : List UInt8 → String} {life : Nat} {q : Quota} {limit : Int} {id : Int} {k : Nat}
  {σ τ : Futures} {t : Tally} {i : Nat} {f f' : Future} {st : FutureStep}

theorem Store.newHistory_self (life : Nat) (s : Store) : s.newHistory life s = [] := by
  rw [Store.newHistory, List.filter_eq_nil_iff]
  intro h hh
  simp [hh]

theorem Tally.record_self (life : Nat) (s : Store) (t : Tally) : t.record life s s = t := by
  simp [Tally.record, Store.newHistory_self]

private theorem observe_record (hfails : st.fails life σ = none) (hdeals : st.deals life σ = none) :
    t.observe life σ st τ = t.record life σ.store τ.store := by
  simp [Tally.observe, Tally.record, hfails, hdeals]

private theorem clear_set (h : σ.Clear life (some i)) (hset : τ.futures = σ.futures.set i f') :
    τ.Clear life (some i) := by
  intro n g hn hinst hne
  have hin : i ≠ n := fun hin => hne (hin ▸ rfl)
  rw [hset, List.getElem?_set_ne hin] at hn
  exact h n g hn hinst hne

private theorem clear_set_idle (h : σ.Clear life (some i)) (hf : σ.futures[i]? = some f)
    (hset : τ.futures = σ.futures.set i f') (hidle : f'.idle = true) : τ.Clear life none := by
  intro n g hn hinst _
  by_cases hin : i = n
  · subst hin
    rw [hset, List.getElem?_set_self (List.getElem?_eq_some_iff.1 hf).1] at hn
    cases hn
    exact hidle
  · exact clear_set h hset n g hn hinst fun he => hin (Option.some.inj he).symm

private theorem futures_set (hf : σ.futures[i]? = some f) (hset : τ.futures = σ.futures.set i f')
    (htask : f'.task.inst = f.task.inst ∧ f'.task.id = f.task.id ∧ f'.task.maxRetries = f.task.maxRetries ∧
      f'.task.taskType = f.task.taskType) (hn : σ.store.nextInst ≤ τ.store.nextInst) {q' : Quota}
    (hq : q'.id = q.id ∧ q'.maxRetries = q.maxRetries ∧ q'.taskType = q.taskType)
    (h : ∀ f ∈ σ.futures, f.task.inst = life → life < σ.store.nextInst ∧
      f.task.id = q.id ∧ f.task.maxRetries = q.maxRetries ∧ f.task.taskType = q.taskType) :
    ∀ f ∈ τ.futures, f.task.inst = life → life < τ.store.nextInst ∧
      f.task.id = q'.id ∧ f.task.maxRetries = q'.maxRetries ∧ f.task.taskType = q'.taskType := by
  intro g hg hinst
  rw [hset] at hg
  rw [hq.1, hq.2.1, hq.2.2]
  rcases List.mem_or_eq_of_mem_set hg with hg | rfl
  · obtain ⟨hlt, hrest⟩ := h g hg hinst
    exact ⟨by omega, hrest⟩
  · obtain ⟨hlt, hid, hmax, htype⟩ := h f (List.mem_of_getElem? hf) (htask.1.symm.trans hinst)
    exact ⟨by omega, htask.2.1.trans hid, htask.2.2.1.trans hmax, htask.2.2.2.trans htype⟩

/-- A future goes on and the store stays the same. -/
private theorem tracked_move (h : σ.Tracked c life q t) (hf : σ.futures[i]? = some f)
    (hset : τ.futures = σ.futures.set i f') (htask : f'.task = f.task) (hstore : τ.store = σ.store) {t' : Tally}
    (hrec : t'.recorded = t.recorded) (hplace : τ.Place life (c.limit q) q.id q.retryCount t') :
    τ.Tracked c life q t' where
  schema := by rw [hstore]; exact h.schema
  rows := by rw [hstore]; exact h.rows
  futures := futures_set hf hset (by rw [htask]; exact ⟨rfl, rfl, rfl, rfl⟩) (by rw [hstore])
    ⟨rfl, rfl, rfl⟩ h.futures
  written := by rw [hrec]; exact h.written
  unborn := by rw [hstore, hrec]; exact h.unborn
  place := hplace

private theorem completionsOf_complete (σ : Futures) (i : Nat) (f : Future) (metrics : IoBudget) :
    (σ.complete i f metrics).completionsOf life =
      σ.completionsOf life ++ if f.task.inst = life then [(i, f.task, metrics)] else [] := by
  rw [Futures.completionsOf, Futures.completionsOf, Futures.complete, ← List.append_assoc, List.filter_append]
  congr 1
  by_cases h : f.task.inst = life
  · simp [h]
  · simp [h]

/-- The outcome of a success goes to the channel. -/
private theorem tracked_complete (h : σ.Tracked c life q t) (hf : σ.futures[i]? = some f) (metrics : IoBudget)
    (hstands : f.task.inst = life → f.idle = false ∧
      (f.Stands (c.limit q) q.retryCount t → t.Even (c.limit q) q.retryCount)) :
    (σ.complete i f metrics).Tracked c life q t := by
  by_cases hinst : f.task.inst = life
  · have hheld := h.place.held_of hf hinst (hstands hinst).1
    have hset : (σ.complete i f metrics).futures =
      σ.futures.set i { f with decremented := true, stage := .ended } := rfl
    refine tracked_move h hf hset rfl rfl rfl ?_
    refine .completed i f.task metrics (clear_set_idle hheld.clear hf hset rfl) hheld.failures ?_ ?_ hheld.count
      ((hstands hinst).2 hheld.stands)
    · rw [completionsOf_complete, hheld.completions, if_pos hinst]
      rfl
    · exact ⟨hheld.busy.running, hheld.busy.spawned⟩
  · refine tracked_same h (.of_set hf rfl rfl (fun h => absurd h hinst) rfl ?_) rfl fun _ _ _ => rfl
    rw [completionsOf_complete, if_neg hinst, List.append_nil]

/-- The future that executes the task goes on with it. -/
private theorem tracked_enter (h : σ.Tracked c life q t) (hheld : σ.Held life (c.limit q) q.id q.retryCount t i f)
    {stage : Stage} {t' : Tally} (hrec : t'.recorded = t.recorded)
    (hstands : ({ f with stage := stage } : Future).Stands (c.limit q) q.retryCount t') :
    (σ.enter i f stage).Tracked c life q t' := by
  have hset : (σ.enter i f stage).futures = σ.futures.set i { f with stage := stage } := rfl
  refine tracked_move h hheld.future hset rfl rfl hrec (.held i { f with stage := stage } ?_)
  exact
    { future := List.getElem?_set_self (List.getElem?_eq_some_iff.1 hheld.future).1
      inst := hheld.inst
      clear := clear_set hheld.clear hset
      failures := hheld.failures
      completions := hheld.completions
      busy := ⟨hheld.busy.running, hheld.busy.spawned⟩
      count := hheld.count
      stands := hstands }

private theorem due_of_even {e : TaskError} (h : t.Even limit k) :
    ({ t with failures := t.failures ++ [e] } : Tally).Due limit k e := ⟨⟨t.failures, h.counted, rfl⟩, h.retried⟩

private theorem observe_returns (hf : σ.futures[i]? = some f) (hinst : f.task.inst = life)
    (hstage : f.stage = .executing) {e : TaskError} {metrics : IoBudget} {random : Nat} (hstore : τ.store = σ.store) :
    t.observe life σ (.returns i (.err e) metrics random) τ = { t with failures := t.failures ++ [e] } := by
  have hfails : (FutureStep.returns i (.err e) metrics random).fails life σ = some e := by
    simp [FutureStep.fails, hf, hinst, Future.executing, hstage]
  have hdeals : (FutureStep.returns i (.err e) metrics random).deals life σ = none := rfl
  simp [Tally.observe, hfails, hdeals, hstore, Store.newHistory_self]

private theorem willRetry_iff {task : TaskRecord} {e : TaskError} (hlimit : c.effectiveMax task = limit)
    (hcount : task.retryCount = k) : c.willRetry task e = true ↔ e.retryable = true ∧ (k : Int) < limit := by
  rw [SpawnConfig.willRetry, TaskRecord.willRetry, hlimit, hcount]
  simp

private theorem tracked_limit (h : σ.Tracked c life q t) (hf : σ.futures[i]? = some f) (hinst : f.task.inst = life) :
    c.effectiveMax f.task = c.limit q := h.exact.record f (List.mem_of_getElem? hf) hinst

/-- An execution of the task is over. -/
private theorem tracked_returns (h : σ.Tracked c life q t) (hf : σ.futures[i]? = some f) (hinst : f.task.inst = life)
    (outcome : Outcome) (metrics : IoBudget) (random : Nat) (htoken : f.token ∉ σ.cancelled)
    (hpanic : ∀ e, outcome = .err e → f.stage = .executing → c.retriesInline f e random ≠ none) :
    (FutureStep.execReturns c σ i outcome metrics random f).Tracked c life q
      (t.observe life σ (.returns i outcome metrics random)
        (FutureStep.execReturns c σ i outcome metrics random f)) := by
  by_cases hstage : f.stage = .executing
  · have hidle : f.idle = false := by rw [Future.idle, hstage]
    have hheld := h.place.held_of hf hinst hidle
    have heven : t.Even (c.limit q) q.retryCount := by
      have hstands := hheld.stands
      unfold Future.Stands at hstands
      rwa [hstage] at hstands
    cases outcome with
    | ok memo =>
      rw [observe_record rfl rfl]
      unfold FutureStep.execReturns
      rw [hstage]
      dsimp only
      split
      · rw [show (σ.enter i f (.counting memo metrics)).store = σ.store from rfl, Tally.record_self]
        have hstands : ({ f with stage := .counting memo metrics } : Future).Stands (c.limit q) q.retryCount t :=
          heven
        exact tracked_enter h hheld rfl hstands
      · rw [show (σ.complete i f metrics).store = σ.store from rfl, Tally.record_self]
        exact tracked_complete h hf metrics fun _ => ⟨hidle, fun _ => heven⟩
    | panic =>
      rw [observe_record rfl rfl]
      unfold FutureStep.execReturns
      rw [hstage]
      dsimp only
      rw [show (σ.enter i f .panicked).store = σ.store from rfl, Tally.record_self]
      have hset : (σ.enter i f .panicked).futures = σ.futures.set i { f with stage := .panicked } := rfl
      exact tracked_move h hf hset rfl rfl rfl
        (.idle (clear_set_idle hheld.clear hf hset rfl) hheld.failures hheld.completions heven)
    | err e =>
      have hnot := hpanic e rfl hstage
      unfold FutureStep.execReturns
      rw [hstage]
      dsimp only
      rw [if_neg htoken]
      cases hinline : c.retriesInline f e random with
      | none => exact absurd hinline hnot
      | some b =>
        cases b with
        | true =>
          have hwill : c.willRetry f.task e = true := by
            by_contra hno
            rw [SpawnConfig.retriesInline, if_neg fun hand => hno hand.2] at hinline
            cases hinline
          have hstands : ({ f with stage := .retrying e } : Future).Stands (c.limit q) q.retryCount
              { t with failures := t.failures ++ [e] } :=
            ⟨due_of_even heven, (willRetry_iff (tracked_limit h hf hinst) hheld.count).1 hwill⟩
          dsimp only
          rw [observe_returns hf hinst hstage (show (σ.enter i f (.retrying e)).store = σ.store from rfl)]
          exact tracked_enter h hheld rfl hstands
        | false =>
          have hstands : ({ f with stage := .failing e metrics } : Future).Stands (c.limit q) q.retryCount
              { t with failures := t.failures ++ [e] } := due_of_even heven
          dsimp only
          rw [observe_returns hf hinst hstage (show (σ.enter i f (.failing e metrics)).store = σ.store from rfl)]
          exact tracked_enter h hheld rfl hstands
  · have hsame : FutureStep.execReturns c σ i outcome metrics random f = σ := by
      unfold FutureStep.execReturns
      split
      · exact absurd ‹_› hstage
      · exact absurd ‹_› hstage
      · exact absurd ‹_› hstage
      · rfl
    have hfails : (FutureStep.returns i outcome metrics random).fails life σ = none := by
      cases outcome with
      | err e =>
        have hex : f.executing = false := by
          unfold Future.executing
          split
          · exact absurd ‹_› hstage
          · rfl
        simp [FutureStep.fails, hf, hex]
      | _ => rfl
    rw [observe_record hfails rfl, hsame, Tally.record_self]
    exact h

/-- The stored count is raised with the one in memory. -/
private theorem rows_counted (h : σ.Tracked c life q t) {change : TaskRow → TaskRow}
    (hinst : ∀ r, (change r).inst = r.inst)
    (hq : ∀ r, (change r).quota = { r.quota with retryCount := r.retryCount + 1 }) :
    (σ.store.updateTasks (·.id == q.id) change).Rows
      (TaskRow.QuotaIn life (· = { q with retryCount := q.retryCount + 1 })) := by
  intro r' hr' hlife
  obtain ⟨r, hr, rfl⟩ := List.mem_map.1 hr'
  have hrinst : r.inst = life := by
    rw [← hlife]
    split
    · exact (hinst r).symm
    · rfl
  have hrow := h.row_quota hr hrinst
  have hid : r.id = q.id := by rw [← hrow]; rfl
  rw [if_pos (by simpa using hid), hq, hrow]
  rw [← hrow]
  rfl

private theorem even_succ {e : TaskError} (h : t.Due limit k e)
    (he : e.retryable = true ∧ (k : Int) < limit) {t' : Tally} (hf : t'.failures = t.failures)
    (hr : t'.retried = t.retried ++ [true]) : t'.Even limit (k + 1) := by
  obtain ⟨before, hc, hfs⟩ := h.failures
  refine ⟨⟨by rw [hf, hfs]; simp [hc.length], fun e' he' => ?_, fun _ => by omega⟩, ?_⟩
  · rw [hf, hfs] at he'
    rcases List.mem_append.1 he' with he' | he'
    · exact hc.retryable e' he'
    · rw [List.mem_singleton.1 he']
      exact he.1
  · rw [hr, h.retried, List.replicate_succ']

private theorem newHistory_of_eq {s s' : Store} (h : s'.taskHistory = s.taskHistory) : s.newHistory life s' = [] := by
  rw [Store.newHistory, h]
  exact Store.newHistory_self life s

private theorem running_of_busy (h : σ.Tracked c life q t) (hbusy : σ.Busy life q.id) :
    ∃ r ∈ σ.store.tasks, r.inst = life ∧ r.status = .running ∧ r.id = q.id := by
  obtain ⟨r, hr, hinst, hst⟩ := hbusy.running
  exact ⟨r, hr, hinst, hst, by rw [← h.row_quota hr hinst]; rfl⟩

/-- The owner of a task that runs stays the same. -/
private theorem owner_write (h : σ.Tracked c life q t) (hbusy : σ.Busy life q.id) (s : Store) :
    (σ.write s).owner q.id = σ.owner q.id := by
  obtain ⟨r, hr, _, hst, hid⟩ := running_of_busy h hbusy
  have hruns : σ.store.running q.id = true := by
    rw [Store.running, List.any_eq_true]
    exact ⟨r, hr, by simp [hid, hst]⟩
  simp [Futures.write, hruns]

/-- The task is retried inside its future. -/
private theorem tracked_retryInline (h : σ.Tracked c life q t) (hf : σ.futures[i]? = some f)
    (hinst : f.task.inst = life) :
    ∃ q', (FutureStep.execRetry σ i false f).Tracked c life q'
      (t.observe life σ (.retryInline i false) (FutureStep.execRetry σ i false f)) := by
  by_cases hstage : ∃ e, f.stage = .retrying e
  · obtain ⟨e, hstage⟩ := hstage
    have hheld := h.place.held_of hf hinst (by rw [Future.idle, hstage])
    obtain ⟨hdue, hbelow⟩ : t.Due (c.limit q) q.retryCount e ∧ e.retryable = true ∧
        (q.retryCount : Int) < c.limit q := by
      have hstands := hheld.stands
      unfold Future.Stands at hstands
      rwa [hstage] at hstands
    obtain ⟨_, hid, hmax, htype⟩ := h.futures f (List.mem_of_getElem? hf) hinst
    obtain ⟨τ, hτ⟩ : ∃ τ, τ = FutureStep.execRetry σ i false f := ⟨_, rfl⟩
    have hstep : τ =
        { σ.write (σ.store.incrementRetry f.task.id e.message) with
          tokens := σ.tokens + 1
          futures := σ.futures.set i
            { f with
              task := { f.task with retryCount := f.task.retryCount + 1 }
              prepared := ⟨σ.tokens, σ.tokens⟩
              stage := .executing } } := by
      rw [hτ, FutureStep.execRetry, hstage]
      rfl
    rw [← hτ]
    have hset : τ.futures = σ.futures.set i
        { f with
          task := { f.task with retryCount := f.task.retryCount + 1 }
          prepared := ⟨σ.tokens, σ.tokens⟩
          stage := .executing } := by rw [hstep]
    have hstore : τ.store = σ.store.incrementRetry q.id e.message := by rw [hstep, hid]; rfl
    have hnow : τ.futures[i]? = some
        { f with
          task := { f.task with retryCount := f.task.retryCount + 1 }
          prepared := ⟨σ.tokens, σ.tokens⟩
          stage := .executing } := by
      rw [hset]
      exact List.getElem?_set_self (List.getElem?_eq_some_iff.1 hf).1
    have hagain : τ.again life i = true := by
      rw [Futures.again, hnow, Option.any_some, show Future.executing _ = true from rfl, Bool.or_true]
    have hdeals : (FutureStep.retryInline i false).deals life σ = some i := by
      simp [FutureStep.deals, hf, hinst, hstage]
    have hobserve : t.observe life σ (.retryInline i false) τ = { t with retried := t.retried ++ [true] } := by
      have hfails : (FutureStep.retryInline i false).fails life σ = none := rfl
      have hhistory : τ.store.taskHistory = σ.store.taskHistory := by rw [hstore]; rfl
      simp [Tally.observe, hfails, hdeals, hagain, newHistory_of_eq hhistory]
    rw [hobserve]
    refine ⟨{ q with retryCount := q.retryCount + 1 }, ?_, ?_, ?_, h.written, ?_,
      .held i _ ⟨hnow, hinst, clear_set hheld.clear hset, ?_, ?_, ?_, ?_, ?_⟩⟩
    · rw [hstore]
      exact h.schema.steps ((Action.update (.incrementRetry q.id e.message)).steps (fun _ => "") σ.store)
    · rw [hstore]
      exact rows_counted h (fun _ => rfl) fun _ => rfl
    · exact futures_set hf hset ⟨rfl, rfl, rfl, rfl⟩ (by rw [hstore]; exact Nat.le_refl _) ⟨rfl, rfl, rfl⟩ h.futures
    · intro hle
      have hle' : σ.store.nextInst ≤ life := by rw [hstore] at hle; exact hle
      have hlt := (h.futures f (List.mem_of_getElem? hf) hinst).1
      omega
    · rw [← hheld.failures, hstep]
      rfl
    · rw [← hheld.completions, hstep]
      rfl
    · obtain ⟨r, hr, hrinst, hst, hrid⟩ := running_of_busy h hheld.busy
      refine ⟨⟨{ r with retryCount := r.retryCount + 1, lastError := some e.message }, ?_, hrinst, hst⟩, ?_⟩
      · rw [hstore]
        refine List.mem_map.2 ⟨r, hr, ?_⟩
        rw [if_pos (by simpa using hrid)]
      · rw [hstep]
        show (σ.write _).owner q.id ≠ none
        rw [owner_write h hheld.busy]
        exact hheld.busy.spawned
    · show f.task.retryCount + 1 = q.retryCount + 1
      rw [hheld.count]
    · exact even_succ hdue hbelow rfl rfl
  · have hsame : FutureStep.execRetry σ i false f = σ := by
      unfold FutureStep.execRetry
      split
      · exact absurd ⟨_, ‹_›⟩ hstage
      · rfl
    have hdeals : (FutureStep.retryInline i false).deals life σ = none := by
      cases hs : f.stage with
      | retrying e => exact absurd ⟨e, hs⟩ hstage
      | _ => simp [FutureStep.deals, hf, hs]
    rw [observe_record rfl hdeals, hsame, Tally.record_self]
    exact ⟨q, h⟩

/-- The history row of a failure that is recorded, and the row that is gone. -/
structure Store.Recorded (task : TaskRecord) (retryable : Bool) (s s' : Store) : Prop where
  row : ∃ h ∈ s'.taskHistory, h ∉ s.taskHistory ∧ h.Of task (terminalStatus retryable)
  rest : ∀ r ∈ s'.tasks, r ∈ s.tasks
  gone : ∀ r ∈ s'.tasks, r.id ≠ task.id

private theorem insertHistory_new {task : TaskRecord} {status : HistoryStatus} {metrics : IoBudget}
    {durationMs : Option Int} {lastError : Option String} {skipTags : Bool} {now : Int} {s s' : Store}
    {u : Except StoreError Unit}
    (h : insertHistory task status metrics durationMs lastError skipTags now s = (u, s')) :
    (∃ h ∈ s'.taskHistory, h ∉ s.taskHistory ∧ h.Of task status) ∧ ∀ h ∈ s.taskHistory, h ∈ s'.taskHistory := by
  obtain ⟨tags, rfl⟩ := insertHistory_leaves h
  refine ⟨⟨_, List.mem_append_right _ (List.mem_singleton_self _), fun hmem => ?_, historyRow_of ..⟩, fun h hh => ?_⟩
  · exact nextRowid_not_mem (s.taskHistory.map (·.id)) (List.mem_map_of_mem (f := (·.id)) hmem)
  · exact List.mem_append_left _ hh

theorem failWithRecordTx_recorded {task : TaskRecord} {error : String} {retryable : Bool} {maxRetries : Int}
    {metrics : IoBudget} {backoff : FailBackoff} {now : Int} {u : Unit} {s s' : Store}
    (hretry : task.willRetry retryable maxRetries = false)
    (h : failWithRecordTx task error retryable maxRetries metrics backoff now s = (.ok u, s')) :
    s.Recorded task retryable s' := by
  have hok := transaction_ok h
  rw [failInner, if_neg (by simp [hretry])] at hok
  obtain ⟨_, s₁, h₁, hok⟩ := Txn.bind_ok hok
  cases hok
  refine ⟨(insertHistory_new h₁).1, fun r hr => ?_, fun r hr => ?_⟩
  · obtain ⟨tags, rfl⟩ := insertHistory_leaves h₁
    exact List.mem_of_mem_filter hr
  · obtain ⟨_, hne⟩ := List.mem_filter.1 hr
    simpa using hne

/-- Without a clash of tags the failure is recorded. -/
private theorem failWithRecordTx_ok {task : TaskRecord} {retryable : Bool} {maxRetries : Int} {s : Store}
    (error : String) (metrics : IoBudget) (backoff : FailBackoff) (now : Int)
    (hretry : task.willRetry retryable maxRetries = false) (hclash : s.historyTagClash task.id = false) :
    ∃ s', failWithRecordTx task error retryable maxRetries metrics backoff now s = (.ok (), s') := by
  obtain ⟨s', hs'⟩ : ∃ s', failInner task error retryable maxRetries metrics backoff now s = (.ok (), s') := by
    rw [failInner, if_neg (by simp [hretry]), Txn.bind_apply, insertHistory_apply, hclash]
    exact ⟨_, rfl⟩
  exact ⟨s', Txn.atomically_of_ok hs'⟩

theorem failBatchTx_recorded {items : List FailureItem} {now : Int} {u : Unit} {s s' : Store}
    (h : failBatchTx items now s = (.ok u, s')) : ∀ item ∈ items, s.Recorded item.task item.retryable s' := by
  rw [failBatchTx.eq_def] at h
  split at h
  · exact fun item hitem => absurd hitem List.not_mem_nil
  · rename_i item
    intro item' hitem
    rw [List.mem_singleton.1 hitem]
    exact failWithRecordTx_recorded (willRetry_zero _ _) h
  · obtain ⟨_, s₁, h₁, hok⟩ := Txn.bind_ok (transaction_ok h)
    obtain ⟨_, s₂, h₂, hok⟩ := Txn.bind_ok hok
    obtain rfl := (Prod.mk.inj h₂).2
    obtain rfl := (Prod.mk.inj hok).2
    -- every round of the loop adds a row that is new, and takes none away
    have hloop : ∀ (xs : List FailureItem) (skipTags : Bool) (t t' : Store) us,
        Txn.mapList (insertFailed skipTags now) xs t = (.ok us, t') →
          (t'.tasks = t.tasks ∧ ∀ h ∈ t.taskHistory, h ∈ t'.taskHistory) ∧
          ∀ item ∈ xs, ∃ h ∈ t'.taskHistory, h ∉ t.taskHistory ∧ h.Of item.task (terminalStatus item.retryable) := by
      intro xs skipTags
      induction xs with
      | nil =>
        intro t t' us hxs
        obtain rfl : t = t' := (Prod.mk.inj hxs).2
        exact ⟨⟨rfl, fun _ hh => hh⟩, fun item hitem => absurd hitem List.not_mem_nil⟩
      | cons x xs ih =>
        intro t t' us hxs
        obtain ⟨y, t₁, hx, hxs⟩ := Txn.bind_ok hxs
        obtain ⟨ys, t₂, hys, hxs⟩ := Txn.bind_ok hxs
        cases hxs
        obtain ⟨⟨h₀, hmem, hnew, hof⟩, hgrow⟩ := insertHistory_new hx
        obtain ⟨⟨htasks, hgrow'⟩, hall⟩ := ih t₁ _ ys hys
        have htasks₁ : t₁.tasks = t.tasks := by
          obtain ⟨tags, rfl⟩ := insertHistory_leaves hx
          rfl
        refine ⟨⟨htasks.trans htasks₁, fun h hh => hgrow' h (hgrow h hh)⟩, fun item hitem => ?_⟩
        rcases List.mem_cons.1 hitem with rfl | hitem
        · exact ⟨h₀, hgrow' h₀ hmem, hnew, hof⟩
        · obtain ⟨h', hmem', hnew', hof'⟩ := hall item hitem
          exact ⟨h', hmem', fun hold => hnew' (hgrow h' hold), hof'⟩
    obtain ⟨⟨htasks, _⟩, hall⟩ := hloop items _ s s₁ _ h₁
    intro item hitem
    refine ⟨?_, fun r hr => ?_, fun r hr => ?_⟩
    · obtain ⟨h', hmem', hnew', hof'⟩ := hall item hitem
      refine ⟨h', ?_, hnew', hof'⟩
      dsimp only
      split
      · exact hmem'
      · exact hmem'
    · have hr' : r ∈ s₁.tasks := by
        dsimp only at hr
        split at hr
        · exact List.mem_of_mem_filter hr
        · exact List.mem_of_mem_filter hr
      rw [htasks] at hr'
      exact hr'
    · have hr' : r ∈ (s₁.deleteTasks fun r => (items.map (·.task.id)).contains r.id).tasks := by
        dsimp only at hr
        split at hr
        · exact hr
        · exact hr
      obtain ⟨_, hne⟩ := List.mem_filter.1 hr'
      intro hid
      have hmem : r.id ∈ items.map (·.task.id) := List.mem_map.2 ⟨item, hitem, hid.symm⟩
      dsimp only at hne
      rw [List.contains_iff_mem.2 hmem] at hne
      cases hne

private theorem written_final {e : TaskError} {h : TaskHistoryRow} {task : TaskRecord} (hfinal : t.Final limit k e)
    (hof : h.Of task (terminalStatus e.retryable)) (hcount : task.retryCount = k) :
    Written limit (h, t.failures) := by
  obtain ⟨before, hc, hfs⟩ := hfinal.failures
  have hlen : t.failures.length = k + 1 := by simp [hfs, hc.length]
  cases he : e.retryable with
  | true =>
    rw [he] at hof
    refine ⟨fun _ => ?_, fun _ => hfinal.exhausted he, fun hst => ?_⟩
    · rw [hof.retryCount, hlen, ← hcount]
      rfl
    · rw [hof.status] at hst
      cases hst
  | false =>
    rw [he] at hof
    refine ⟨fun _ => ?_, fun hst => ?_, fun _ => ⟨e, by simp [hfs], he⟩⟩
    · rw [hof.retryCount, hlen, ← hcount]
      rfl
    · rw [hof.status] at hst
      cases hst

/-- The failure of the task has been recorded. -/
private theorem tracked_recorded {e : TaskError} {task : TaskRecord} {s' : Store} {t' : Tally} {retryable : Bool}
    (h : σ.Tracked c life q t) (hborn : life < σ.store.nextInst) (hschema : s'.Schema)
    (hnext : σ.store.nextInst ≤ s'.nextInst)
    (hrecorded : σ.store.Recorded task retryable s') (htask : task.inst = life) (hid : task.id = q.id)
    (hretryable : retryable = e.retryable)
    (hfutures : ∀ f ∈ τ.futures, f.task.inst = life → life < s'.nextInst ∧
      f.task.id = q.id ∧ f.task.maxRetries = q.maxRetries ∧ f.task.taskType = q.taskType)
    (hclear : τ.Clear life none) (hfail : τ.failuresOf life = []) (hdone : τ.completionsOf life = [])
    (hstore : τ.store = s') (hfinal : t'.Final (c.limit q) q.retryCount e) (hfs : t'.failures = t.failures)
    (hrec : t'.recorded = t.recorded ++ (σ.store.newHistory life s').map fun h => (h, t.failures))
    (hnew : ∀ h ∈ σ.store.newHistory life s', Written (c.limit q) (h, t'.failures)) : τ.Tracked c life q t' where
  schema := by rw [hstore]; exact hschema
  rows := by rw [hstore]; exact fun r hr => h.rows r (hrecorded.rest r hr)
  futures := by rw [hstore]; exact hfutures
  written := by
    intro w hw
    rw [hrec] at hw
    rcases List.mem_append.1 hw with hw | hw
    · exact h.written w hw
    · obtain ⟨row, hrow, rfl⟩ := List.mem_map.1 hw
      rw [← hfs]
      exact hnew row hrow
  unborn := by
    rw [hstore]
    intro hle
    omega
  place := by
    obtain ⟨row, hmem, hnotold, hof⟩ := hrecorded.row
    refine .ended e hclear hfail hdone (fun r hr hinst => ?_) (by rw [hstore]; omega) hfinal
      ⟨(row, t.failures), ?_, ?_, hfs.symm⟩
    · rw [hstore] at hr
      have hquota : r.quota = q := h.rows r (hrecorded.rest r hr) hinst
      exact hrecorded.gone r hr (by rw [hid, ← hquota]; rfl)
    · rw [hrec]
      refine List.mem_append_right _ (List.mem_map.2
        ⟨row, Store.mem_newHistory.2 ⟨hmem, hof.inst.trans htask, hnotold⟩, rfl⟩)
    · rw [← hretryable]
      exact hof.status

private theorem final_of_due {e : TaskError} (h : t.Due limit k e)
    (hrefused : ¬ (e.retryable = true ∧ (k : Int) < limit)) {t' : Tally} (hf : t'.failures = t.failures)
    (hr : t'.retried = t.retried ++ [false]) : t'.Final limit k e :=
  ⟨by rw [hf]; exact h.failures, by rw [hr, h.retried], hrefused⟩

private theorem observe_deals {i : Nat} (hfails : st.fails life σ = none) (hdeals : st.deals life σ = some i) :
    t.observe life σ st τ =
      { (t.record life σ.store τ.store) with retried := t.retried ++ [τ.again life i] } := by
  simp [Tally.observe, Tally.record, hfails, hdeals]

/-- The task is retried by way of the queue. -/
private theorem tracked_requeue (h : σ.Tracked c life q t) (hf : σ.futures[i]? = some f) (hinst : f.task.inst = life)
    {e : TaskError} {metrics : IoBudget} (hstage : f.stage = .failing e metrics) (hwill : c.willRetry f.task e = true)
    (delay : Duration) (now : Int) (hfails : st.fails life σ = none) (hdeals : st.deals life σ = some i) :
    ∃ q', ((σ.write (σ.store.requeueForRetry f.task.id e.message delay now)).leave i f).Tracked c life q'
      (t.observe life σ st ((σ.write (σ.store.requeueForRetry f.task.id e.message delay now)).leave i f)) := by
  have hheld := h.place.held_of hf hinst (by rw [Future.idle, hstage])
  have hdue : t.Due (c.limit q) q.retryCount e := by
    have hstands := hheld.stands
    unfold Future.Stands at hstands
    rwa [hstage] at hstands
  have hbelow := (willRetry_iff (tracked_limit h hf hinst) hheld.count).1 hwill
  obtain ⟨hborn, hid, _, _⟩ := h.futures f (List.mem_of_getElem? hf) hinst
  rw [hid]
  obtain ⟨τ, hτ⟩ : ∃ τ, τ = (σ.write (σ.store.requeueForRetry q.id e.message delay now)).leave i f := ⟨_, rfl⟩
  rw [← hτ]
  have hset : τ.futures = σ.futures.set i { f with decremented := true, stage := .ended } := by rw [hτ]; rfl
  have hstore : τ.store = σ.store.requeueForRetry q.id e.message delay now := by rw [hτ]; rfl
  have hagain : τ.again life i = true := by
    obtain ⟨r, hr, hrinst, _, hrid⟩ := running_of_busy h hheld.busy
    rw [Futures.again, Bool.or_eq_true, List.any_eq_true]
    refine .inl ⟨r.retry e.message delay now, ?_, ?_⟩
    · rw [hstore]
      refine List.mem_map.2 ⟨r, hr, ?_⟩
      rw [if_pos (by simpa using hrid)]
    · simp [TaskRow.retry, hrinst]
  have hhistory : τ.store.taskHistory = σ.store.taskHistory := by rw [hstore]; rfl
  have hobserve : t.observe life σ st τ = { t with retried := t.retried ++ [true] } := by
    rw [observe_deals hfails hdeals, hagain, Tally.record, newHistory_of_eq hhistory]
    simp
  rw [hobserve]
  refine ⟨{ q with retryCount := q.retryCount + 1 }, ?_, ?_, ?_, h.written, ?_, .idle ?_ ?_ ?_ ?_⟩
  · rw [hstore]
    exact h.schema.steps ((Action.update (.requeueForRetry q.id e.message delay now)).steps (fun _ => "") σ.store)
  · rw [hstore]
    exact rows_counted h (fun _ => rfl) fun _ => rfl
  · exact futures_set hf hset ⟨rfl, rfl, rfl, rfl⟩ (by rw [hstore]; exact Nat.le_refl _) ⟨rfl, rfl, rfl⟩ h.futures
  · intro hle
    have hle' : σ.store.nextInst ≤ life := by rw [hstore] at hle; exact hle
    omega
  · exact clear_set_idle hheld.clear hf hset rfl
  · rw [← hheld.failures, hτ]
    rfl
  · rw [← hheld.completions, hτ]
    rfl
  · exact even_succ hdue hbelow rfl rfl

/-- A task that runs is not pending. -/
private theorem again_of_running (h : σ.Tracked c life q t) (hbusy : σ.Busy life q.id) (hf : τ.futures[i]? = some f')
    (hex : f'.executing = false) (hstore : τ.store = σ.store) : τ.again life i = false := by
  obtain ⟨r, hr, hrinst, hst, _⟩ := running_of_busy h hbusy
  rw [Futures.again, hf, Option.any_some, hex, Bool.or_false, List.any_eq_false, hstore]
  intro r' hr' hsel
  rw [Bool.and_eq_true, beq_iff_eq, beq_iff_eq] at hsel
  rw [List.inj_on_of_nodup_map h.schema.insts hr' hr (hsel.1.trans hrinst.symm), hst] at hsel
  cases hsel.2

private theorem failuresOf_append (σ : Futures) (τ : Futures) (m : Nat × FailureItem)
    (hfailing : τ.failing = σ.failing) (hfailures : τ.failures = σ.failures ++ [m]) :
    τ.failuresOf life = σ.failuresOf life ++ if m.2.task.inst = life then [m] else [] := by
  rw [Futures.failuresOf, Futures.failuresOf, hfailing, hfailures, ← List.append_assoc, List.filter_append]
  congr 1
  by_cases h : m.2.task.inst = life
  · simp [h]
  · simp [h]

/-- The failure is given up and goes to the channel. -/
private theorem tracked_sent (h : σ.Tracked c life q t) (hf : σ.futures[i]? = some f) (hinst : f.task.inst = life)
    {e : TaskError} {metrics : IoBudget} (hstage : f.stage = .failing e metrics)
    (hwill : c.willRetry f.task e = false) (hfails : st.fails life σ = none) (hdeals : st.deals life σ = some i)
    (hτ : τ = { σ.enter i f .sent with failures := σ.failures ++ [(i, ⟨f.task, e.message, e.retryable, metrics⟩)] }) :
    τ.Tracked c life q (t.observe life σ st τ) := by
  have hheld := h.place.held_of hf hinst (by rw [Future.idle, hstage])
  have hdue : t.Due (c.limit q) q.retryCount e := by
    have hstands := hheld.stands
    unfold Future.Stands at hstands
    rwa [hstage] at hstands
  have hrefused : ¬ (e.retryable = true ∧ (q.retryCount : Int) < c.limit q) := by
    rw [← willRetry_iff (tracked_limit h hf hinst) hheld.count, hwill]
    rintro ⟨⟩
  have hset : τ.futures = σ.futures.set i { f with stage := .sent } := by rw [hτ]; rfl
  have hstore : τ.store = σ.store := by rw [hτ]; rfl
  have hnow : τ.futures[i]? = some { f with stage := .sent } := by
    rw [hset]
    exact List.getElem?_set_self (List.getElem?_eq_some_iff.1 hf).1
  have hagain := again_of_running h hheld.busy hnow rfl hstore
  have hobserve : t.observe life σ st τ = { t with retried := t.retried ++ [false] } := by
    rw [observe_deals hfails hdeals, hagain, hstore, Tally.record_self]
  rw [hobserve]
  refine tracked_move h hf hset rfl hstore rfl
    (.failed i ⟨f.task, e.message, e.retryable, metrics⟩ e (clear_set_idle hheld.clear hf hset rfl) ?_
      ?_ ?_ ?_ rfl ?_)
  · rw [failuresOf_append σ τ (i, ⟨f.task, e.message, e.retryable, metrics⟩) (by rw [hτ]; rfl) (by rw [hτ]),
      hheld.failures, if_pos hinst]
    rfl
  · rw [← hheld.completions, hτ]
    rfl
  · refine ⟨by rw [hstore]; exact hheld.busy.running, ?_⟩
    rw [hτ]
    exact hheld.busy.spawned
  · exact ⟨(h.futures f (List.mem_of_getElem? hf) hinst).2.1, hheld.count⟩
  · exact final_of_due hdue hrefused rfl rfl

/-- The failure of a child is given up and recorded at once. -/
private theorem tracked_failWithRecord (h : σ.Tracked c life q t) (hf : σ.futures[i]? = some f)
    (hinst : f.task.inst = life) {e : TaskError} {metrics : IoBudget} (hstage : f.stage = .failing e metrics)
    (hwill : c.willRetry f.task e = false) (hclash : σ.store.historyTagClash f.task.id = false)
    {backoff : FailBackoff} {now : Int} (hfails : st.fails life σ = none) (hdeals : st.deals life σ = some i)
    (hτ : τ = (σ.write ((Action.failWithRecord f.task e.message e.retryable (c.effectiveMax f.task) metrics
      backoff now).exec
      sha256 σ.store)).leave i f) : τ.Tracked c life q (t.observe life σ st τ) := by
  have hheld := h.place.held_of hf hinst (by rw [Future.idle, hstage])
  have hdue : t.Due (c.limit q) q.retryCount e := by
    have hstands := hheld.stands
    unfold Future.Stands at hstands
    rwa [hstage] at hstands
  have hrefused : ¬ (e.retryable = true ∧ (q.retryCount : Int) < c.limit q) := by
    rw [← willRetry_iff (tracked_limit h hf hinst) hheld.count, hwill]
    rintro ⟨⟩
  obtain ⟨hborn, hid, _, _⟩ := h.futures f (List.mem_of_getElem? hf) hinst
  obtain ⟨a, ha⟩ : ∃ a, a = Action.failWithRecord f.task e.message e.retryable (c.effectiveMax f.task)
      metrics backoff now :=
    ⟨_, rfl⟩
  rw [← ha] at hτ
  obtain ⟨s', hs'⟩ := failWithRecordTx_ok e.message metrics backoff now hwill hclash
  have hexec : a.exec sha256 σ.store = s' := by
    rw [ha, Action.exec, hs']
  have hset : τ.futures = σ.futures.set i { f with decremented := true, stage := .ended } := by rw [hτ]; rfl
  have hstore : τ.store = s' := by rw [hτ, ← hexec]; rfl
  have hrecorded := failWithRecordTx_recorded hwill hs'
  have hschema : s'.Schema := by rw [← hexec]; exact h.schema.steps (a.steps sha256 σ.store)
  have hnext : σ.store.nextInst ≤ s'.nextInst := by rw [← hexec]; exact (a.steps sha256 σ.store).nextInst_le
  have hnow : τ.futures[i]? = some { f with decremented := true, stage := .ended } := by
    rw [hset]
    exact List.getElem?_set_self (List.getElem?_eq_some_iff.1 hf).1
  have hagain : τ.again life i = false := by
    rw [Futures.again, hnow, Option.any_some, show Future.executing _ = false from rfl, Bool.or_false,
      List.any_eq_false, hstore]
    intro r hr hsel
    rw [Bool.and_eq_true, beq_iff_eq] at hsel
    have hquota : r.quota = q := h.rows r (hrecorded.rest r hr) hsel.1
    exact hrecorded.gone r hr (by rw [hid, ← hquota]; rfl)
  have hobserve := observe_deals (t := t) (τ := τ) hfails hdeals
  rw [hagain] at hobserve
  have hfinal : (t.observe life σ st τ).Final (c.limit q) q.retryCount e := by
    rw [hobserve]
    exact final_of_due hdue hrefused rfl rfl
  refine tracked_recorded (τ := τ) h hborn hschema hnext hrecorded hinst hid rfl ?_ ?_ ?_ ?_ hstore hfinal ?_ ?_
    fun row hrow => ?_
  · rw [← hstore]
    exact futures_set hf hset ⟨rfl, rfl, rfl, rfl⟩ (by rw [hstore]; exact hnext) ⟨rfl, rfl, rfl⟩ h.futures
  · exact clear_set_idle hheld.clear hf hset rfl
  · rw [← hheld.failures, hτ]
    rfl
  · rw [← hheld.completions, hτ]
    rfl
  · rw [hobserve]
    rfl
  · rw [hobserve, hstore]
    rfl
  · obtain ⟨hmem, _, hold⟩ := Store.mem_newHistory.1 hrow
    rw [← hexec] at hmem
    have hof := (a.logs_exec sha256 σ.store row hmem).resolve_left hold
    rw [ha] at hof
    exact written_final hfinal hof hheld.count

/-! ### Batches -/

/-- What is left of the batches when one of them has been dealt with. -/
private theorem filter_eraseIdx {α : Type} (p : α → Bool) {batches : List (List α)} {n : Nat} {batch : List α}
    (h : batches[n]? = some batch) (rest : List α) :
    (batches.flatten ++ rest).filter p = (batches.take n).flatten.filter p ++ batch.filter p ++
        ((batches.drop (n + 1)).flatten ++ rest).filter p ∧
      ((batches.eraseIdx n).flatten ++ rest).filter p = (batches.take n).flatten.filter p ++
        ((batches.drop (n + 1)).flatten ++ rest).filter p := by
  obtain ⟨hn, rfl⟩ := List.getElem?_eq_some_iff.1 h
  have hsplit : batches = batches.take n ++ batches[n] :: batches.drop (n + 1) := by
    rw [← List.drop_eq_getElem_cons hn, List.take_append_drop]
  constructor
  · conv_lhs => rw [hsplit]
    simp only [List.flatten_append, List.flatten_cons, List.filter_append, List.append_assoc]
  · rw [List.eraseIdx_eq_take_drop_succ]
    simp only [List.flatten_append, List.filter_append, List.append_assoc]

private theorem filter_eraseIdx_other {α : Type} {p : α → Bool} {batches : List (List α)} {n : Nat} {batch : List α}
    (h : batches[n]? = some batch) (rest : List α) (hno : ∀ x ∈ batch, p x = false) :
    ((batches.eraseIdx n).flatten ++ rest).filter p = (batches.flatten ++ rest).filter p := by
  obtain ⟨hall, herase⟩ := filter_eraseIdx p h rest
  have hbatch : batch.filter p = [] := List.filter_eq_nil_iff.2 fun x hx => by simp [hno x hx]
  rw [hall, herase, hbatch, List.append_nil]

private theorem filter_eraseIdx_own {α : Type} {p : α → Bool} {batches : List (List α)} {n : Nat} {batch : List α}
    (h : batches[n]? = some batch) (rest : List α) {m x : α} (hone : (batches.flatten ++ rest).filter p = [m])
    (hx : x ∈ batch) (hp : p x = true) : x = m ∧ ((batches.eraseIdx n).flatten ++ rest).filter p = [] := by
  obtain ⟨hall, herase⟩ := filter_eraseIdx p h rest
  have hmem : x ∈ batch.filter p := List.mem_filter.2 ⟨hx, hp⟩
  constructor
  · have hin : x ∈ (batches.flatten ++ rest).filter p := by
      rw [hall]
      exact List.mem_append_left _ (List.mem_append_right _ hmem)
    rw [hone] at hin
    exact List.mem_singleton.1 hin
  · have hpos := List.length_pos_of_mem hmem
    have hlen := congrArg List.length (hall.symm.trans hone)
    simp only [List.length_append, List.length_singleton] at hlen
    rw [herase, ← List.length_eq_zero_iff, List.length_append]
    omega

/-- A batch of completions with the task. -/
private theorem tracked_completed (h : σ.Tracked c life q t) {n : Nat} {batch : List (Nat × TaskRecord × IoBudget)}
    (hbatch : σ.completing[n]? = some batch) {m : Nat × TaskRecord × IoBudget} (hm : m ∈ batch)
    (hinst : m.2.1.inst = life) (fault : Bool) (now : Int)
    (hτ : τ = { σ.attempt fault (Action.exec sha256 σ.store (.completeBatch (batch.map (·.2)) now)) with
      completing := σ.completing.eraseIdx n }) : ∃ q', τ.Tracked c life q' (t.record life σ.store τ.store) := by
  have hmem : m ∈ σ.completionsOf life := by
    refine List.mem_filter.2 ⟨List.mem_append_left _ (List.mem_flatten.2 ⟨batch, List.mem_of_getElem? hbatch, hm⟩),
      ?_⟩
    simpa using hinst
  obtain ⟨a, ha⟩ : ∃ a, a = Action.completeBatch (batch.map (·.2)) now := ⟨_, rfl⟩
  rw [← ha] at hτ
  have hplace := h.place
  cases hplace with
  | idle clear failures completions => rw [completions] at hmem; cases hmem
  | held k f hheld => rw [hheld.completions] at hmem; cases hmem
  | failed k item e clear failures completions => rw [completions] at hmem; cases hmem
  | ended e clear failures completions => rw [completions] at hmem; cases hmem
  | completed k task metrics clear failures completions busy count even =>
    have hp : ((fun x : Nat × TaskRecord × IoBudget => x.2.1.inst == life) m) = true := by simpa using hinst
    obtain ⟨_, hrest⟩ := filter_eraseIdx_own hbatch σ.completions completions hm hp
    have hdone : τ.completionsOf life = [] := by
      rw [← hrest, hτ, Futures.completionsOf]
      cases fault <;> rfl
    have hfail : τ.failuresOf life = [] := by
      rw [← failures, hτ, Futures.failuresOf]
      cases fault <;> rfl
    have hfutures : τ.futures = σ.futures := by
      rw [hτ]
      cases fault <;> rfl
    have hclear : τ.Clear life none := by
      intro n f hn
      rw [hfutures] at hn
      exact clear n f hn
    have hidle : τ.Place life (c.limit q) q.id q.retryCount (t.record life σ.store τ.store) :=
      .idle hclear hfail hdone ⟨even.counted, even.retried⟩
    obtain ⟨r, hr, hrinst, _, _⟩ := running_of_busy h busy
    have hborn : life < σ.store.nextInst := hrinst ▸ h.schema.inst_lt r hr
    cases fault with
    | true =>
      have hstore : τ.store = σ.store := by rw [hτ]; rfl
      rw [hstore, Tally.record_self] at hidle ⊢
      refine ⟨q, by rw [hstore]; exact h.schema, by rw [hstore]; exact h.rows, ?_, h.written, by
        rw [hstore]; exact h.unborn, hidle⟩
      rw [hstore, hfutures]
      exact h.futures
    | false =>
      have hstore : τ.store = a.exec sha256 σ.store := by rw [hτ]; rfl
      have hnext : σ.store.nextInst ≤ τ.store.nextInst := by rw [hstore]; exact (a.steps sha256 σ.store).nextInst_le
      refine ⟨q, ?_, ?_, ?_, fun w hw => ?_, fun hle => by omega, hidle⟩
      · rw [hstore]
        exact h.schema.steps (a.steps sha256 σ.store)
      · rw [hstore]
        refine a.quota_exec h.schema h.rows (fun hle => absurd hborn (by omega)) fun r hr hrinst => ?_
        rw [ha]
        exact List.not_mem_nil
      · rw [hfutures]
        intro f hf hfinst
        obtain ⟨hlt, hfields⟩ := h.futures f hf hfinst
        exact ⟨by omega, hfields⟩
      · rcases mem_record hw with hw | ⟨hw, hfs⟩
        · exact h.written w hw
        · obtain ⟨hmem', hwinst, hold⟩ := Store.mem_newHistory.1 hw
          rw [hstore] at hmem'
          have hof := (a.logs_exec sha256 σ.store w.1 hmem').resolve_left hold
          rw [ha] at hof
          obtain ⟨item, hitem, hof⟩ := hof
          obtain ⟨m', hm', rfl⟩ := List.mem_map.1 hitem
          -- the record is that of the only completion of the task
          have hp' : ((fun x : Nat × TaskRecord × IoBudget => x.2.1.inst == life) m') = true := by
            simpa using hof.inst.symm.trans hwinst
          obtain ⟨hone, _⟩ := filter_eraseIdx_own hbatch σ.completions completions hm' hp'
          subst hone
          refine ⟨fun _ => ?_, fun hst => ?_, fun hst => ?_⟩
          · rw [hof.retryCount, hfs, even.counted.length]
            exact count
          · rw [hof.status] at hst
            cases hst
          · rw [hof.status] at hst
            cases hst

/-- A batch of failures with the task. -/
private theorem tracked_failed (h : σ.Tracked c life q t) {n : Nat} {batch : List (Nat × FailureItem)}
    (hbatch : σ.failing[n]? = some batch) {m : Nat × FailureItem} (hm : m ∈ batch)
    (hinst : m.2.task.inst = life) {now : Int} {s' : Store}
    (hs' : failBatchTx (batch.map (·.2)) now σ.store = (.ok (), s'))
    (hτ : τ = { σ.attempt false (Action.exec sha256 σ.store (.failBatch (batch.map (·.2)) now)) with
      failing := σ.failing.eraseIdx n }) : τ.Tracked c life q (t.record life σ.store τ.store) := by
  have hmem : m ∈ σ.failuresOf life := by
    refine List.mem_filter.2 ⟨List.mem_append_left _ (List.mem_flatten.2 ⟨batch, List.mem_of_getElem? hbatch, hm⟩),
      ?_⟩
    simpa using hinst
  obtain ⟨a, ha⟩ : ∃ a, a = Action.failBatch (batch.map (·.2)) now := ⟨_, rfl⟩
  rw [← ha] at hτ
  have hexec : a.exec sha256 σ.store = s' := by rw [ha, Action.exec, hs']
  have hplace := h.place
  cases hplace with
  | idle clear failures => rw [failures] at hmem; cases hmem
  | held k f hheld => rw [hheld.failures] at hmem; cases hmem
  | completed k task metrics clear failures => rw [failures] at hmem; cases hmem
  | ended e clear failures => rw [failures] at hmem; cases hmem
  | failed k item e clear failures completions busy task retryable final =>
    have hp : ((fun x : Nat × FailureItem => x.2.task.inst == life) m) = true := by simpa using hinst
    obtain ⟨hone, hrest⟩ := filter_eraseIdx_own hbatch σ.failures failures hm hp
    subst hone
    have hstore : τ.store = s' := by rw [hτ, ← hexec]; rfl
    have hfutures : τ.futures = σ.futures := by rw [hτ]; rfl
    have hnext : σ.store.nextInst ≤ s'.nextInst := by rw [← hexec]; exact (a.steps sha256 σ.store).nextInst_le
    obtain ⟨r, hr, hrinst, _, _⟩ := running_of_busy h busy
    have hfinal : (t.record life σ.store τ.store).Final (c.limit q) q.retryCount e :=
      ⟨final.failures, final.retried, final.refused⟩
    refine tracked_recorded (τ := τ) h (hrinst ▸ h.schema.inst_lt r hr) ?_ hnext
      (failBatchTx_recorded hs' item (List.mem_map_of_mem (f := (·.2)) hm)) hinst task.1 retryable ?_ ?_ ?_ ?_
        hstore hfinal rfl ?_
      fun row hrow => ?_
    · rw [← hexec]
      exact h.schema.steps (a.steps sha256 σ.store)
    · rw [hfutures]
      intro f hf hfinst
      obtain ⟨hlt, hfields⟩ := h.futures f hf hfinst
      exact ⟨by omega, hfields⟩
    · intro n f hn
      rw [hfutures] at hn
      exact clear n f hn
    · rw [← hrest, hτ]
      rfl
    · rw [← completions, hτ]
      rfl
    · rw [hstore]
      rfl
    · obtain ⟨hmem', hwinst, hold⟩ := Store.mem_newHistory.1 hrow
      rw [← hexec] at hmem'
      have hof := (a.logs_exec sha256 σ.store row hmem').resolve_left hold
      rw [ha] at hof
      obtain ⟨item', hitem, hof⟩ := hof
      obtain ⟨m', hm', rfl⟩ := List.mem_map.1 hitem
      have hp' : ((fun x : Nat × FailureItem => x.2.task.inst == life) m') = true := by
        simpa using hof.inst.symm.trans hwinst
      obtain ⟨hone, _⟩ := filter_eraseIdx_own hbatch σ.failures failures hm' hp'
      subst hone
      rw [retryable] at hof
      exact written_final hfinal hof task.2

/-! ### Spawns -/

/-- The task is spawned. -/
private theorem tracked_spawn (h : σ.Tracked c life q t) {task : TaskRecord} {phase : ExecutionPhase}
    (hu : (FutureStep.spawn task phase).Undisturbed sha256 life σ)
    (ha : (FutureStep.spawn task phase).Accounted c life σ) :
    (σ.spawn task phase).Tracked c life q t := by
  by_cases hinst : task.inst = life
  · obtain ⟨_, hnone, r, hr, hrinst, hst⟩ := hu hinst
    have hcopies := ha.2 hinst r hr hrinst
    have hquota : task.toTaskRow.quota = q := hcopies.quota.trans (h.row_quota hr hrinst)
    have hid : task.id = q.id := by rw [← hquota]; rfl
    have hbusy : ¬ σ.Busy life q.id := fun hbusy => hbusy.spawned (hid ▸ hnone)
    have hborn : life < σ.store.nextInst := hrinst ▸ h.schema.inst_lt r hr
    have hidle : σ.Clear life none ∧ σ.failuresOf life = [] ∧ σ.completionsOf life = [] ∧
        t.Even (c.limit q) q.retryCount := by
      cases h.place with
      | idle clear failures completions even => exact ⟨clear, failures, completions, even⟩
      | held n f hheld => exact absurd hheld.busy hbusy
      | failed n item e clear failures completions busy => exact absurd busy hbusy
      | completed n task metrics clear failures completions busy => exact absurd busy hbusy
      | ended e clear failures completions gone => exact absurd hrinst (gone r hr)
    obtain ⟨hclear, hfail, hdone, heven⟩ := hidle
    refine ⟨h.schema, h.rows, fun f hf hfinst => ?_, h.written, h.unborn, .held σ.futures.length _
      ⟨List.getElem?_concat_length, hinst, fun n f hn hfinst hne => ?_, hfail, hdone,
        ⟨⟨r, hr, hrinst, hst⟩, ?_⟩, ?_, heven⟩⟩
    · rcases List.mem_append.1 hf with hf | hf
      · exact h.futures f hf hfinst
      · rw [List.mem_singleton.1 hf, ← hquota]
        exact ⟨hborn, rfl, rfl, rfl⟩
    · rcases Futures.spawn_futures hn with hn | ⟨rfl, _⟩
      · exact hclear n f hn hfinst nofun
      · exact absurd rfl hne
    · rw [← hid]
      show Function.update σ.owner task.id _ task.id ≠ none
      rw [Function.update_self]
      exact Option.some_ne_none _
    · show task.retryCount = q.retryCount
      rw [← hquota]
      rfl
  · refine tracked_same h ⟨fun n f hn _ => ⟨f, Futures.spawn_future_old hn, .refl f⟩, fun n f hn hfinst =>
      ?_, rfl, rfl⟩ rfl fun r hr hrinst => ?_
    · rcases Futures.spawn_futures hn with hn | ⟨_, rfl⟩
      · exact ⟨f, hn, .refl f⟩
      · exact absurd hfinst hinst
    · exact Function.update_of_ne (fun hid => hinst (ha.1 r hr hrinst hid.symm)) ..

end Own

/-! ### Whole steps -/

section Steps

variable {c : SpawnConfig} {sha256 : List UInt8 → String} {life : Nat} {q : Quota} {σ τ : Futures}
    {t : Tally} {i : Nat}
  {st : FutureStep}

/-- A statement or a transaction of others, or its failure. -/
private theorem tracked_attempt (h : σ.Tracked c life q t) (hs : σ.SameLife life τ) {a : Action}
    (ha : a.Ignores sha256 life σ.store) (fault : Bool)
    (hstore : τ.store = (σ.attempt fault (a.exec sha256 σ.store)).store)
    (howner : τ.owner = (σ.attempt fault (a.exec sha256 σ.store)).owner) :
    ∃ q', τ.Tracked c life q' (t.record life σ.store τ.store) := by
  cases fault with
  | true =>
    have hsame : τ.store = σ.store := hstore
    rw [hsame, Tally.record_self]
    exact ⟨q, tracked_same h hs hsame fun r _ _ => by rw [howner]; rfl⟩
  | false => exact tracked_action h hs ha hstore howner

/-- A step of a future that has nothing to do with the store. -/
private theorem tracked_rest (h : σ.Tracked c life q t) (hs : σ.SameLife life τ) (hstore : τ.store = σ.store)
    (howner : τ.owner = σ.owner) : ∃ q', τ.Tracked c life q' (t.record life σ.store τ.store) := by
  rw [hstore, Tally.record_self]
  exact ⟨q, tracked_same h hs hstore fun r _ _ => by rw [howner]⟩

private theorem sameLife_leave {f : Future} (hf : σ.futures[i]? = some f) (hinst : f.task.inst = life → f.idle = true)
    (fault : Bool) (s : Store) : σ.SameLife life ((σ.attempt fault s).leave i f) := by
  have hset : ((σ.attempt fault s).leave i f).futures =
      σ.futures.set i { f with decremented := true, stage := .ended } := by
    cases fault <;> rfl
  refine .of_set hf hset rfl (fun h => ⟨rfl, .inr ⟨hinst h, rfl⟩⟩) ?_ ?_
  · cases fault <;> rfl
  · cases fault <;> rfl

private theorem step_none {next : Future → Futures} (hf : σ.futures[i]? = none) : σ.step i next = σ := by
  rw [Futures.step, hf]

private theorem step_some {next : Future → Futures} {f : Future} (hf : σ.futures[i]? = some f) :
    σ.step i next = next f := by
  rw [Futures.step, hf]

private theorem sameLife_enter {f : Future} (hf : σ.futures[i]? = some f) (hinst : f.task.inst ≠ life)
    (stage : Stage) :
    σ.SameLife life (σ.enter i f stage) := .of_set hf rfl rfl (fun h => absurd h hinst) rfl rfl

/-- An execution of another task is over. -/
private theorem tracked_returns_other (h : σ.Tracked c life q t) {f : Future} (hf : σ.futures[i]? = some f)
    (hinst : f.task.inst ≠ life) (outcome : Outcome) (metrics : IoBudget) (random : Nat) :
    (FutureStep.execReturns c σ i outcome metrics random f).Tracked c life q t ∧
      (FutureStep.execReturns c σ i outcome metrics random f).store = σ.store := by
  have henter : ∀ stage, (σ.enter i f stage).Tracked c life q t ∧ (σ.enter i f stage).store = σ.store := fun stage =>
    ⟨tracked_same h (sameLife_enter hf hinst stage) rfl fun _ _ _ => rfl, rfl⟩
  unfold FutureStep.execReturns
  split
  · split
    · exact henter _
    · exact ⟨tracked_complete h hf metrics fun hin => absurd hin hinst, rfl⟩
  · split
    · exact ⟨tracked_same h (sameLife_leave hf (fun hin => absurd hin hinst) true σ.store) rfl fun _ _ _ => rfl, rfl⟩
    · split
      · exact henter _
      · exact henter _
      · exact henter _
  · exact henter _
  · exact ⟨h, rfl⟩

/-- The retry of another task, or its failure. -/
private theorem tracked_retryInline_other (h : σ.Tracked c life q t) {f : Future} (hf : σ.futures[i]? = some f)
    (hinst : f.task.inst ≠ life) (howns : σ.store.Owns life f.task) (fault : Bool) :
    ∃ q', (FutureStep.execRetry σ i fault f).Tracked c life q'
      (t.record life σ.store (FutureStep.execRetry σ i fault f).store) := by
  unfold FutureStep.execRetry
  split
  · rename_i e _
    have hignores : (Action.update (.incrementRetry f.task.id e.message)).Ignores (fun _ => "") life σ.store :=
      ignores_update f.task.id h.schema (fun r hr => by simpa [RowUpdate.selects] using hr)
        (fun id' hid' => List.mem_singleton.1 hid') (ne_of_owns howns hinst)
    refine tracked_attempt h (.of_set hf rfl rfl (fun hin => absurd hin hinst) ?_ ?_) hignores fault rfl rfl
    · cases fault <;> rfl
    · cases fault <;> rfl
  · exact tracked_rest h (.of_eq rfl rfl rfl) rfl rfl

/-- The failure of another task. -/
private theorem tracked_handleFailure_other (h : σ.Tracked c life q t) {f : Future} (hf : σ.futures[i]? = some f)
    (hinst : f.task.inst ≠ life)
    (howns : ∀ error metrics, f.stage = .failing error metrics → σ.store.Owns life f.task) (fault : Bool)
    (random : Nat) (now : Int) :
    ∃ q', (FutureStep.execFailure c sha256 σ i fault random now f).Tracked c life q'
      (t.record life σ.store (FutureStep.execFailure c sha256 σ i fault random now f).store) := by
  unfold FutureStep.execFailure
  split
  · rename_i e metrics hstage
    have howned := howns e metrics hstage
    split
    · split
      · exact tracked_rest h (sameLife_enter hf hinst _) rfl rfl
      · rename_i delay _
        have hignores : (Action.update (.requeueForRetry f.task.id e.message delay now)).Ignores sha256
            life σ.store :=
          ignores_update f.task.id h.schema (fun r hr => by simpa [RowUpdate.selects] using hr)
            (fun id' hid' => List.mem_singleton.1 hid') (ne_of_owns howned hinst)
        exact tracked_attempt h (sameLife_leave hf (fun hin => absurd hin hinst) fault _) hignores fault rfl rfl
    · split
      · exact tracked_attempt h (sameLife_leave hf (fun hin => absurd hin hinst) fault _)
          (ignores_failWithRecord h.schema howned hinst) fault rfl rfl
      · have hfailures : Futures.failuresOf life
            { σ.enter i f .sent with failures := σ.failures ++ [(i, ⟨f.task, e.message, e.retryable, metrics⟩)] } =
            σ.failuresOf life := by
          rw [failuresOf_append σ _ (i, ⟨f.task, e.message, e.retryable, metrics⟩) (by rfl) (by rfl), if_neg hinst,
            List.append_nil]
        exact tracked_rest h (.of_set hf rfl rfl (fun hin => absurd hin hinst) hfailures rfl) rfl rfl
  · exact tracked_rest h (.of_eq rfl rfl rfl) rfl rfl

/-- The failure of the task. -/
private theorem tracked_handleFailure (h : σ.Tracked c life q t) {f : Future} (hf : σ.futures[i]? = some f)
    (hinst : f.task.inst = life) {fault : Bool} {random : Nat} {now : Int}
    (ha : (FutureStep.handleFailure i fault random now).Accounted c life σ) :
    ∃ q', (FutureStep.execFailure c sha256 σ i fault random now f).Tracked c life q'
      (t.observe life σ (.handleFailure i fault random now)
        (FutureStep.execFailure c sha256 σ i fault random now f)) := by
  by_cases hstage : ∃ e metrics, f.stage = .failing e metrics
  · obtain ⟨e, metrics, hstage⟩ := hstage
    obtain ⟨_, hown⟩ := ha f e metrics hf hstage
    obtain ⟨rfl, hok⟩ := hown hinst
    have hfails : (FutureStep.handleFailure i false random now).fails life σ = none := rfl
    have hdeals : (FutureStep.handleFailure i false random now).deals life σ = some i := by
      simp [FutureStep.deals, hf, hinst, hstage]
    unfold FutureStep.execFailure
    rw [hstage]
    dsimp only
    cases hwill : c.willRetry f.task e with
    | true =>
      rw [hwill, if_pos rfl] at hok
      rw [if_pos rfl]
      cases hdelay : c.retryDelay f.task e random with
      | none => exact absurd hdelay hok
      | some delay => exact tracked_requeue h hf hinst hstage hwill delay now hfails hdeals
    | false =>
      rw [hwill, if_neg nofun] at hok
      rw [if_neg nofun]
      split
      · rename_i hparent
        exact ⟨q, tracked_failWithRecord h hf hinst hstage hwill (hok hparent) hfails hdeals rfl⟩
      · exact ⟨q, tracked_sent h hf hinst hstage hwill hfails hdeals rfl⟩
  · have hsame : FutureStep.execFailure c sha256 σ i fault random now f = σ := by
      unfold FutureStep.execFailure
      split
      · exact absurd ⟨_, _, ‹_›⟩ hstage
      · rfl
    have hdeals : (FutureStep.handleFailure i fault random now).deals life σ = none := by
      cases hs : f.stage with
      | failing e metrics => exact absurd ⟨e, metrics, hs⟩ hstage
      | _ => simp [FutureStep.deals, hf, hs]
    rw [observe_record rfl hdeals, hsame, Tally.record_self]
    exact ⟨q, h⟩

private theorem tracked_execSetHandle (h : σ.Tracked c life q t) :
    ∃ q', ((FutureStep.setHandle i).exec c sha256 σ).Tracked c life q' (t.observe life σ (.setHandle i)
      ((FutureStep.setHandle i).exec c sha256 σ)) := by
  rw [observe_record rfl rfl, FutureStep.exec]
  cases hf : σ.futures[i]? with
  | none =>
    rw [step_none hf]
    exact tracked_rest h (.of_eq rfl rfl rfl) rfl rfl
  | some f =>
    rw [step_some hf]
    split
    · exact tracked_rest h (.of_eq rfl rfl rfl) rfl rfl
    · exact tracked_rest h (.of_set hf rfl rfl (fun _ => ⟨rfl, .inl rfl⟩) rfl rfl) rfl rfl

private theorem tracked_execProgress (h : σ.Tracked c life q t) :
    ∃ q', ((FutureStep.progress i).exec c sha256 σ).Tracked c life q' (t.observe life σ (.progress i)
      ((FutureStep.progress i).exec c sha256 σ)) := by
  rw [observe_record rfl rfl, FutureStep.exec]
  cases hf : σ.futures[i]? with
  | none =>
    rw [step_none hf]
    exact tracked_rest h (.of_eq rfl rfl rfl) rfl rfl
  | some f =>
    rw [step_some hf]
    split
    · exact tracked_rest h (.of_eq rfl rfl rfl) rfl rfl
    · exact tracked_rest h (.of_eq rfl rfl rfl) rfl rfl

/-- An execution ends. -/
private theorem tracked_execReturns {outcome : Outcome} {metrics : IoBudget} {random : Nat}
    (h : σ.Tracked c life q t) (hu : (FutureStep.returns i outcome metrics random).Undisturbed sha256 life σ)
    (ha : (FutureStep.returns i outcome metrics random).Accounted c life σ) :
    ∃ q', ((FutureStep.returns i outcome metrics random).exec c sha256 σ).Tracked c life q'
      (t.observe life σ (.returns i outcome metrics random)
      ((FutureStep.returns i outcome metrics random).exec c sha256 σ)) := by
  rw [FutureStep.exec]
  cases hf : σ.futures[i]? with
  | none =>
    have hfails : (FutureStep.returns i outcome metrics random).fails life σ = none := by
      cases outcome <;> simp [FutureStep.fails, hf]
    rw [step_none hf, observe_record hfails rfl]
    exact tracked_rest h (.of_eq rfl rfl rfl) rfl rfl
  | some f =>
    rw [step_some hf]
    by_cases hinst : f.task.inst = life
    · refine ⟨q, tracked_returns h hf hinst outcome metrics random (hu f hf hinst) fun e he hstage => ?_⟩
      subst he
      exact ha f hf hinst hstage
    · have hfails : (FutureStep.returns i outcome metrics random).fails life σ = none := by
        cases outcome <;> simp [FutureStep.fails, hf, hinst]
      obtain ⟨htracked, hstore⟩ := tracked_returns_other h hf hinst outcome metrics random
      rw [observe_record hfails rfl, hstore, Tally.record_self]
      exact ⟨q, htracked⟩

/-- The task itself has no children. -/
private theorem tracked_execCountChildren {fault : Bool} (h : σ.Tracked c life q t)
    (hu : (FutureStep.countChildren i fault).Undisturbed sha256 life σ) :
    ∃ q', ((FutureStep.countChildren i fault).exec c sha256 σ).Tracked c life q'
      (t.observe life σ (.countChildren i fault)
      ((FutureStep.countChildren i fault).exec c sha256 σ)) := by
  rw [observe_record rfl rfl, FutureStep.exec]
  cases hf : σ.futures[i]? with
  | none =>
    rw [step_none hf]
    exact tracked_rest h (.of_eq rfl rfl rfl) rfl rfl
  | some f =>
    rw [step_some hf]
    split
    · rename_i memo metrics hstage
      split
      · rename_i hchildren
        refine tracked_rest h (sameLife_enter hf (fun hinst => ?_) _) rfl rfl
        rw [hu f hf hinst] at hchildren
        exact absurd hchildren.2 (Nat.lt_irrefl 0)
      · rw [show (σ.complete i f metrics).store = σ.store from rfl, Tally.record_self]
        refine ⟨q, tracked_complete h hf metrics fun _ => ⟨by rw [Future.idle, hstage], fun hstands => ?_⟩⟩
        unfold Future.Stands at hstands
        rwa [hstage] at hstands
    · exact tracked_rest h (.of_eq rfl rfl rfl) rfl rfl

private theorem tracked_execSetWaiting {fault : Bool} (h : σ.Tracked c life q t)
    (ha : (FutureStep.setWaiting i fault).Accounted c life σ) :
    ∃ q', ((FutureStep.setWaiting i fault).exec c sha256 σ).Tracked c life q' (t.observe life σ (.setWaiting i fault)
      ((FutureStep.setWaiting i fault).exec c sha256 σ)) := by
  rw [observe_record rfl rfl, FutureStep.exec]
  cases hf : σ.futures[i]? with
  | none =>
    rw [step_none hf]
    exact tracked_rest h (.of_eq rfl rfl rfl) rfl rfl
  | some f =>
    rw [step_some hf]
    split
    · rename_i memo hstage
      -- the task itself has no children to wait for
      have hinst : f.task.inst ≠ life := by
        intro hinst
        have hstands := (h.place.held_of hf hinst (by rw [Future.idle, hstage])).stands
        unfold Future.Stands at hstands
        rw [hstage] at hstands
        exact hstands
      have hignores : (Action.update (.setWaiting f.task.id memo)).Ignores sha256 life σ.store :=
        ignores_update f.task.id h.schema
          (fun r hr => by simp only [RowUpdate.selects, Bool.and_eq_true, beq_iff_eq] at hr; exact hr.1)
          (fun id' hid' => absurd hid' List.not_mem_nil) (ne_of_owns (ha f hf) hinst)
      exact tracked_attempt h (sameLife_leave hf (fun hin => absurd hin hinst) fault _) hignores fault rfl rfl
    · exact tracked_rest h (.of_eq rfl rfl rfl) rfl rfl

private theorem tracked_execRetryInline {fault : Bool} (h : σ.Tracked c life q t)
    (ha : (FutureStep.retryInline i fault).Accounted c life σ) :
    ∃ q', ((FutureStep.retryInline i fault).exec c sha256 σ).Tracked c life q'
      (t.observe life σ (.retryInline i fault)
      ((FutureStep.retryInline i fault).exec c sha256 σ)) := by
  rw [FutureStep.exec]
  cases hf : σ.futures[i]? with
  | none =>
    rw [step_none hf, observe_record rfl (by simp [FutureStep.deals, hf])]
    exact tracked_rest h (.of_eq rfl rfl rfl) rfl rfl
  | some f =>
    rw [step_some hf]
    obtain ⟨howns, hfault⟩ := ha f hf
    by_cases hinst : f.task.inst = life
    · obtain rfl := hfault hinst
      exact tracked_retryInline h hf hinst
    · rw [observe_record rfl (by simp [FutureStep.deals, hf, hinst])]
      exact tracked_retryInline_other h hf hinst howns fault

private theorem tracked_execHandleFailure {fault : Bool} {random : Nat} {now : Int} (h : σ.Tracked c life q t)
    (ha : (FutureStep.handleFailure i fault random now).Accounted c life σ) :
    ∃ q', ((FutureStep.handleFailure i fault random now).exec c sha256 σ).Tracked c life q'
      (t.observe life σ (.handleFailure i fault random now)
      ((FutureStep.handleFailure i fault random now).exec c sha256 σ)) := by
  rw [FutureStep.exec]
  cases hf : σ.futures[i]? with
  | none =>
    rw [step_none hf, observe_record rfl (by simp [FutureStep.deals, hf])]
    exact tracked_rest h (.of_eq rfl rfl rfl) rfl rfl
  | some f =>
    rw [step_some hf]
    by_cases hinst : f.task.inst = life
    · exact tracked_handleFailure h hf hinst ha
    · rw [observe_record rfl (by simp [FutureStep.deals, hf, hinst])]
      exact tracked_handleFailure_other h hf hinst (fun e metrics hstage => (ha f e metrics hf hstage).1)
        fault random now

private theorem tracked_execCleanUp (h : σ.Tracked c life q t) :
    ∃ q', ((FutureStep.cleanUp i).exec c sha256 σ).Tracked c life q' (t.observe life σ (.cleanUp i)
      ((FutureStep.cleanUp i).exec c sha256 σ)) := by
  rw [observe_record rfl rfl, FutureStep.exec]
  cases hf : σ.futures[i]? with
  | none =>
    rw [step_none hf]
    exact tracked_rest h (.of_eq rfl rfl rfl) rfl rfl
  | some f =>
    rw [step_some hf]
    split
    · rename_i hstage
      exact tracked_rest h (sameLife_leave hf (fun _ => by rw [Future.idle, hstage]) true σ.store) rfl rfl
    · exact tracked_rest h (.of_eq rfl rfl rfl) rfl rfl

private theorem tracked_execCompleteBatch {n : Nat} {fault : Bool} {now : Int} (h : σ.Tracked c life q t)
    (ha : (FutureStep.completeBatch n fault now).Accounted c life σ) :
    ∃ q', ((FutureStep.completeBatch n fault now).exec c sha256 σ).Tracked c life q'
      (t.observe life σ (.completeBatch n fault now)
      ((FutureStep.completeBatch n fault now).exec c sha256 σ)) := by
  rw [observe_record rfl rfl, FutureStep.exec]
  cases hbatch : σ.completing[n]? with
  | none => exact tracked_rest h (.of_eq rfl rfl rfl) rfl rfl
  | some batch =>
    by_cases hown : ∃ m ∈ batch, m.2.1.inst = life
    · obtain ⟨m, hm, hinst⟩ := hown
      exact tracked_completed h hbatch hm hinst fault now rfl
    · have hother : ∀ m ∈ batch, m.2.1.inst ≠ life := fun m hm hinst => hown ⟨m, hm, hinst⟩
      have hignores : (Action.completeBatch (batch.map (·.2)) now).Ignores sha256 life σ.store := by
        refine ignores_completeBatch h.schema (fun item hitem => ?_) fun item hitem => ?_
        · obtain ⟨m, hm, rfl⟩ := List.mem_map.1 hitem
          exact ha batch hbatch m hm
        · obtain ⟨m, hm, rfl⟩ := List.mem_map.1 hitem
          exact hother m hm
      refine tracked_attempt h (.of_eq ?_ ?_ ?_) hignores fault rfl rfl
      · cases fault <;> rfl
      · cases fault <;> rfl
      · have hrest := filter_eraseIdx_other (p := fun x : Nat × TaskRecord × IoBudget => x.2.1.inst == life) hbatch
          σ.completions fun m hm => by simpa using hother m hm
        rw [Futures.completionsOf, Futures.completionsOf, ← hrest]
        cases fault <;> rfl

private theorem tracked_execFailBatch {n : Nat} {fault : Bool} {now : Int} (h : σ.Tracked c life q t)
    (ha : (FutureStep.failBatch n fault now).Accounted c life σ) :
    ∃ q', ((FutureStep.failBatch n fault now).exec c sha256 σ).Tracked c life q'
      (t.observe life σ (.failBatch n fault now)
      ((FutureStep.failBatch n fault now).exec c sha256 σ)) := by
  rw [observe_record rfl rfl, FutureStep.exec]
  cases hbatch : σ.failing[n]? with
  | none => exact tracked_rest h (.of_eq rfl rfl rfl) rfl rfl
  | some batch =>
    obtain ⟨howns, hok⟩ := ha batch hbatch
    by_cases hown : ∃ m ∈ batch, m.2.task.inst = life
    · obtain ⟨rfl, s', hs'⟩ := hok hown
      obtain ⟨m, hm, hinst⟩ := hown
      exact ⟨q, tracked_failed h hbatch hm hinst hs' rfl⟩
    · have hother : ∀ m ∈ batch, m.2.task.inst ≠ life := fun m hm hinst => hown ⟨m, hm, hinst⟩
      have hignores : (Action.failBatch (batch.map (·.2)) now).Ignores sha256 life σ.store := by
        refine ignores_failBatch h.schema (fun item hitem => ?_) fun item hitem => ?_
        · obtain ⟨m, hm, rfl⟩ := List.mem_map.1 hitem
          exact howns m hm
        · obtain ⟨m, hm, rfl⟩ := List.mem_map.1 hitem
          exact hother m hm
      refine tracked_attempt h (.of_eq ?_ ?_ ?_) hignores fault rfl rfl
      · cases fault <;> rfl
      · have hrest := filter_eraseIdx_other (p := fun x : Nat × FailureItem => x.2.task.inst == life) hbatch
          σ.failures fun m hm => by simpa using hother m hm
        rw [Futures.failuresOf, Futures.failuresOf, ← hrest]
        cases fault <;> rfl
      · cases fault <;> rfl

private theorem tracked_execSettle {fault : Bool} {now : Int} (h : σ.Tracked c life q t)
    (hu : (FutureStep.settle i fault now).Undisturbed sha256 life σ) :
    ∃ q', ((FutureStep.settle i fault now).exec c sha256 σ).Tracked c life q' (t.observe life σ (.settle i fault now)
      ((FutureStep.settle i fault now).exec c sha256 σ)) := by
  rw [observe_record rfl rfl, FutureStep.exec]
  split
  · exact tracked_rest h (.of_eq rfl rfl rfl) rfl rfl
  · rename_i d hd
    rw [Futures.carryOut]
    cases haction : d.purpose.action d.entry.record now with
    | none => exact tracked_rest h (.of_eq rfl rfl rfl) rfl rfl
    | some a =>
      have hignores := hu d (List.mem_of_find?_eq_some hd) a haction
      refine tracked_attempt h (.of_eq ?_ ?_ ?_) hignores fault rfl rfl
      · cases fault <;> rfl
      · cases fault <;> rfl
      · cases fault <;> rfl
/-- Every step that disturbs nobody and is accounted for keeps the accounts. -/
private theorem tracked_exec (h : σ.Tracked c life q t) (hu : st.Undisturbed sha256 life σ)
    (ha : st.Accounted c life σ) :
    ∃ q', (st.exec c sha256 σ).Tracked c life q' (t.observe life σ st (st.exec c sha256 σ)) := by
  cases st with
  | store a =>
    rw [observe_record rfl rfl]
    exact tracked_action h (.of_eq rfl rfl rfl) hu rfl rfl
  | spawn task phase =>
    rw [observe_record rfl rfl, show (FutureStep.exec c sha256 σ (.spawn task phase)).store = σ.store from rfl,
      Tally.record_self]
    exact ⟨q, tracked_spawn h hu ha⟩
  | setHandle i => exact tracked_execSetHandle h
  | progress i => exact tracked_execProgress h
  | returns i outcome metrics random => exact tracked_execReturns h hu ha
  | countChildren i fault => exact tracked_execCountChildren h hu
  | setWaiting i fault => exact tracked_execSetWaiting h ha
  | retryInline i fault => exact tracked_execRetryInline h ha
  | handleFailure i fault random now => exact tracked_execHandleFailure h ha
  | cleanUp i => exact tracked_execCleanUp h
  | drainCompletions =>
    rw [observe_record rfl rfl]
    exact tracked_rest h (.of_eq rfl rfl (by simp [FutureStep.exec, Futures.completionsOf])) rfl rfl
  | completeBatch n fault now => exact tracked_execCompleteBatch h ha
  | drainFailures =>
    rw [observe_record rfl rfl]
    exact tracked_rest h (.of_eq rfl (by simp [FutureStep.exec, Futures.failuresOf]) rfl) rfl rfl
  | failBatch n fault now => exact tracked_execFailBatch h ha
  | drain p purpose =>
    rw [observe_record rfl rfl]
    exact tracked_rest h (.of_eq rfl rfl rfl) rfl rfl
  | cancelToken i =>
    rw [observe_record rfl rfl]
    exact tracked_rest h (.of_eq rfl rfl rfl) rfl rfl
  | settle i fault now => exact tracked_execSettle h hu

end Steps

/-! ### Whole runs -/

private theorem tracked_fresh {σ : Futures} (c : SpawnConfig) (life : Nat) (h : σ.Fresh) :
    σ.Tracked c life ⟨0, 0, none, ""⟩ Tally.empty where
  schema := h.store.schema
  rows r hr := by
    rw [h.store.tasks] at hr
    exact absurd hr List.not_mem_nil
  futures f hf := by
    rw [h.futures] at hf
    exact absurd hf List.not_mem_nil
  written w hw := absurd hw List.not_mem_nil
  unborn _ := ⟨rfl, fun w hw => absurd hw List.not_mem_nil⟩
  place := by
    refine .idle (fun n f hf => ?_) ?_ ?_ ⟨⟨rfl, fun e he => absurd he List.not_mem_nil, fun hlt =>
      absurd hlt (Nat.lt_irrefl 0)⟩, rfl⟩
    · rw [h.futures] at hf
      cases hf
    · rw [Futures.failuresOf, h.failing, h.failures]
      rfl
    · rw [Futures.completionsOf, h.completing, h.completions]
      rfl

/-- In every run in which nobody disturbs the task and its steps are accounted for, its failures are retried and
recorded as they should be; and no pause, resume or recovery changes a `retry_count`. -/
theorem retries_exact (c : SpawnConfig) (sha256 : List UInt8 → String) (life : Nat) (x : Futures × Tally)
    (h : Runs (fun x => x.1.Fresh ∧ x.2 = Tally.empty) (FutureStep.execTallied c sha256 life)
      (fun x st => st.Undisturbed sha256 life x.1 ∧ st.Accounted c life x.1) x) :
    (∃ limit, x.2.Exact c life limit x.1) ∧
      ∀ (s : Store) (a : Action), a.pauses = true →
        (a.exec sha256 s).tasks.map TaskRow.quota = s.tasks.map TaskRow.quota := by
  have htracked : ∃ q, x.1.Tracked c life q x.2 := by
    refine Runs.invariant (I := fun x => ∃ q, x.1.Tracked c life q x.2) h ?_ ?_
    · rintro ⟨σ, t⟩ ⟨hfresh, rfl⟩
      exact ⟨_, tracked_fresh c life hfresh⟩
    · rintro ⟨σ, t⟩ st ⟨q, hq⟩ ⟨hu, ha⟩
      exact tracked_exec hq hu ha
  obtain ⟨q, hq⟩ := htracked
  exact ⟨⟨c.limit q, hq.exact⟩, fun s a ha => Action.pauses_quota sha256 s ha⟩

private def tallyState (c : SpawnConfig) (steps : List FutureStep) : Futures × Tally :=
  steps.foldl (FutureStep.execTallied c sampleSha256 0) (futuresStart, Tally.empty)

/-- A retry inside the future, one by way of the queue, and again one inside the future; then the task is given up. -/
private def mixedRun : List FutureStep :=
  startFirst (.new "media::a") ++
    ([.returns 0 (.err ⟨"first", true, none⟩) {} 0, .retryInline 0 false,
     .returns 0 (.err ⟨"second", true, some 1000⟩) {} 0, .handleFailure 0 false 0 0,
     .store (.popNextBatch 1 none 2000), .spawn { firstTask (.new "media::a") with retryCount := 2 } .execute,
     .returns 1 (.err ⟨"third", true, none⟩) {} 0, .retryInline 1 false,
     .returns 1 (.err ⟨"fourth", true, none⟩) {} 0, .handleFailure 1 false 0 3000, .cleanUp 1, .drainFailures,
     .failBatch 0 false 3000] : List FutureStep)

/-- A claim is no business of a task that does not run. -/
private theorem ignores_pop {s : Store} (hs : s.tasks.all fun r => r.status != .running) (limit : Nat)
    (aging : Option AgingParams) (now : Int) (life : Nat) :
    (Action.popNextBatch limit aging now).Ignores sampleSha256 life s where
  running r hr _ hst := by
    have hne := List.all_eq_true.1 hs r hr
    rw [hst] at hne
    cases hne
  ids _ _ _ := List.not_mem_nil
  records task htask := absurd htask List.not_mem_nil

private theorem ignores_submitDirect {s : Store} (hs : s.tasks = []) (sub : TaskSubmission) (now : Int) (life : Nat) :
    (Action.submitDirect sub now).Ignores sampleSha256 life s where
  running r hr := by
    rw [hs] at hr
    exact absurd hr List.not_mem_nil
  ids _ _ _ := List.not_mem_nil
  records task htask := absurd htask List.not_mem_nil

theorem mixedRun_exact :
    (tallyState threeRetries mixedRun).2.recorded.map (fun w => (w.1.status, w.1.retryCount, w.2.length)) =
      [(.deadLetter, 4, 4)] ∧
    ((∃ limit, (tallyState threeRetries mixedRun).2.Exact threeRetries 0 limit (tallyState threeRetries mixedRun).1) ∧
      ∀ (s : Store) (a : Action), a.pauses = true →
        (a.exec sampleSha256 s).tasks.map TaskRow.quota = s.tasks.map TaskRow.quota) := by
  refine ⟨by decide +kernel, retries_exact threeRetries sampleSha256 0 _
    (Runs.list (.start ⟨futuresStart_fresh, rfl⟩) mixedRun ?_)⟩
  refine ⟨⟨ignores_submitDirect rfl _ _ _, trivial⟩, ⟨ignores_pop rfl _ _ _ _, trivial⟩, ⟨?_, ?_⟩, ⟨?_, ?_⟩,
    ⟨trivial, ?_⟩, ⟨?_, ?_⟩,
    ⟨trivial, ?_⟩, ⟨ignores_pop rfl _ _ _ _, trivial⟩, ⟨?_, ?_⟩, ⟨?_, ?_⟩, ⟨trivial, ?_⟩, ⟨?_, ?_⟩, ⟨trivial, ?_⟩,
      ⟨trivial, trivial⟩,
    ⟨trivial, trivial⟩, ⟨trivial, ?_⟩, trivial⟩
  · exact fun _ => ⟨rfl, rfl, _, List.mem_cons_self, rfl, rfl⟩
  · refine ⟨fun _ _ _ _ => rfl, fun _ r hr _ => ?_⟩
    rw [List.mem_singleton.1 hr]
    exact ⟨rfl, rfl⟩
  · exact fun _ _ _ => List.not_mem_nil
  · intro f hf _ _
    cases hf
    exact nofun
  · intro f hf
    cases hf
    exact ⟨fun _ _ _ _ => rfl, fun _ => rfl⟩
  · exact fun _ _ _ => List.not_mem_nil
  · intro f hf _ _
    cases hf
    exact nofun
  · intro f e metrics hf hstage
    cases hf
    cases hstage
    exact ⟨fun _ _ _ _ => rfl, fun _ => ⟨rfl, nofun⟩⟩
  · exact fun _ => ⟨rfl, rfl, _, List.mem_cons_self, rfl, rfl⟩
  · refine ⟨fun _ _ _ _ => rfl, fun _ r hr _ => ?_⟩
    rw [List.mem_singleton.1 hr]
    exact ⟨rfl, rfl⟩
  · exact fun _ _ _ => List.not_mem_nil
  · intro f hf _ _
    cases hf
    exact nofun
  · intro f hf
    cases hf
    exact ⟨fun _ _ _ _ => rfl, fun _ => rfl⟩
  · exact fun _ _ _ => List.not_mem_nil
  · intro f hf _ _
    cases hf
    exact nofun
  · intro f e metrics hf hstage
    cases hf
    cases hstage
    exact ⟨fun _ _ _ _ => rfl, fun _ => ⟨rfl, nofun⟩⟩
  · intro batch hbatch
    cases hbatch
    refine ⟨fun m hm _ _ _ _ => ?_, fun _ => ⟨rfl, _, rfl⟩⟩
    rw [List.mem_singleton.1 hm]
    rfl

/-- The first retry waits a second, the second one an unlimited time more, and none more than a minute. -/
private def steepBackoff : SpawnConfig where
  typeRetryPolicy _ := some ((BackoffStrategy.linear ⟨1000000000⟩ ⟨Duration.maxNanos⟩ ⟨60000000000⟩).policy 3)
  maxRetries := 3

/-- The task fails twice. -/
private def steepRun : List FutureStep :=
  startFirst (.new "media::a") ++
    ([.returns 0 (.err ⟨"first", true, none⟩) {} 0, .handleFailure 0 false 0 0,
     .store (.popNextBatch 1 none 2000), .spawn { firstTask (.new "media::a") with retryCount := 1 } .execute,
     .returns 1 (.err ⟨"second", true, none⟩) {} 0] : List FutureStep)

/-- The delay is computed before it is capped, and the sum overflows: the future panics, and the failure is neither
retried nor recorded. -/
theorem steep_backoff_not_exact :
    ¬ ∀ (c : SpawnConfig) (sha256 : List UInt8 → String) (life : Nat) (x : Futures × Tally),
    Runs (fun x => x.1.Fresh ∧ x.2 = Tally.empty) (FutureStep.execTallied c sha256 life)
      (fun x st => st.Undisturbed sha256 life x.1) x →
    (∃ limit, x.2.Exact c life limit x.1) ∧
      ∀ (s : Store) (a : Action), a.pauses = true →
        (a.exec sha256 s).tasks.map TaskRow.quota = s.tasks.map TaskRow.quota := by
  intro h
  obtain ⟨⟨limit, hexact⟩, _⟩ := h steepBackoff sampleSha256 0 (tallyState steepBackoff steepRun) (by
    refine Runs.list (.start ⟨futuresStart_fresh, rfl⟩) steepRun ?_
    refine ⟨ignores_submitDirect rfl _ _ _, ignores_pop rfl _ _ _ _, ?_, ?_, trivial, ignores_pop rfl _ _ _ _,
      ?_, ?_, trivial⟩
    · exact fun _ => ⟨rfl, rfl, _, List.mem_cons_self, rfl, rfl⟩
    · exact fun _ _ _ => List.not_mem_nil
    · exact fun _ => ⟨rfl, rfl, _, List.mem_cons_self, rfl, rfl⟩
    · exact fun _ _ _ => List.not_mem_nil)
  obtain ⟨_, f, hf, _, hfailure⟩ := hexact.due (by decide +kernel)
  have hnone : ∀ f ∈ (tallyState steepBackoff steepRun).1.futures, f.failure = none := by decide +kernel
  rw [hnone f hf] at hfailure
  cases hfailure

end Taskmill
