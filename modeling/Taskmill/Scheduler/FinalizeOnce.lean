import Taskmill.Scheduler.Parents
import Taskmill.Transact.Calls
import Mathlib.Data.List.Perm.Basic

/-!
# Finalize runs at most once

A finalizer is dispatched for a parent that was taken out of `pending_finalizers`.  The set is there so that a
parent that two children resolve is finalized once, but a slow resolution puts the parent back after a dispatch has
taken it out, and `set_running_for_finalize` does not say whether it has found the parent waiting.

A stay of a life in `waiting` is an episode.  If a dispatch goes on with a parent that it has found waiting only,
and nobody touches the parent before it is started, then every finalize phase belongs to an episode that its own
dispatch has ended, and no two to the same one.
-/

namespace Taskmill

open Transact

def ParentEvent.isSpawn : ParentEvent → Bool
  | .spawned .. => true
  | .waits _ => false

/-- Every finalize phase was started for a row that runs since its own dispatch has moved it out of `waiting`, and no
episode has two. -/
structure Parents.FinalizedOnce (σ : Parents) : Prop where
  moved : ∀ life episode status, .spawned life episode status ∈ σ.log →
    status = some .running ∧ ∃ n, episode = some (life, n)
  once : (σ.log.filter ParentEvent.isSpawn).Nodup

/-! ### The steps that do not disturb a dispatch -/

/-- The parent and the episode that a dispatch has in its hands. -/
def ParentCall.holds : ParentCall → Option (Int × Episode)
  | .moved parent (some episode) => some (parent, episode)
  | .fetched e (some episode) => some (e.task.id, episode)
  | _ => none

/-- The step leaves the running row of the life alone. -/
def Action.LeavesRunning (sha256 : List UInt8 → String) (life : Nat) (s : Store) (a : Action) : Prop :=
  (∀ c ∈ s.tasks, c.inst = life → a.Spares sha256 true c s) ∧
    a.KeepsRows sha256 (fun r => r.inst = life → r.status = .running) s

/-- The step leaves alone what the dispatches have in their hands. -/
def Parents.Respects (sha256 : List UInt8 → String) (σ : Parents) (a : Action) : Prop :=
  ∀ call ∈ σ.calls, ∀ parent life n, call.holds = some (parent, life, n) → a.LeavesRunning sha256 life σ.store

/-- A dispatch that has not found its parent waiting does not find its record either.  No step touches a parent
between the move and the start. -/
def ParentStep.Undisturbed (sha256 : List UInt8 → String) (σ : Parents) : ParentStep → Prop
  | .store a => (ParentStep.store a).Foreign ∧ σ.Respects sha256 a
  | .wait id memo => σ.Respects sha256 (.update (.setWaiting id memo))
  | .complete items now => σ.Respects sha256 (.completeBatch items now)
  | .fail task error retryable maxRetries metrics backoff now =>
    σ.Respects sha256 (.failWithRecord task error retryable maxRetries metrics backoff now)
  | .finishCancel i now =>
    ∀ parent, σ.calls[i]? = some (.cancelling parent) → σ.Respects sha256 (.cancelToHistory parent now)
  | .record i now =>
    ∀ parent reason, σ.calls[i]? = some (.recording parent reason) →
      σ.Respects sha256 (.failWithRecord parent reason false 0 {} {} now)
  | .fetch i => ∀ parent, σ.calls[i]? = some (.moved parent none) → σ.store.taskById parent = none
  | .reject i now =>
    ∀ e episode, σ.calls[i]? = some (.fetched e episode) →
      (σ.drop i).Respects sha256 (.fail e.task.id "no executor for finalize" false 0 {} {} now)
  | _ => True

/-! ### What the dispatches hold -/

/-- The lives in the hands of dispatches. -/
def heldLives (calls : List ParentCall) : List Nat := calls.filterMap fun call => call.holds.map (·.2.1)

/-- The call has nothing in its hands. -/
def ParentCall.idle : ParentCall → Bool
  | .moved _ episode => episode.isNone
  | .fetched .. => false
  | _ => true

theorem ParentCall.holds_of_idle {call : ParentCall} (h : call.idle = true) : call.holds = none := by
  cases call with
  | moved parent episode =>
    cases episode with
    | none => rfl
    | some episode => cases h
  | fetched e episode => cases h
  | _ => rfl

/-- No call takes anything into its hands. -/
structure Releases (calls calls' : List ParentCall) : Prop where
  mem : ∀ call ∈ calls', call ∈ calls ∨ call.idle = true
  held : (heldLives calls').Subperm (heldLives calls)

section Calls

variable {calls calls' : List ParentCall} {i : Nat} {old new : ParentCall}

theorem mem_heldLives {life : Nat} :
    life ∈ heldLives calls ↔ ∃ call ∈ calls, ∃ parent n, call.holds = some (parent, life, n) := by
  simp [heldLives]

private theorem heldLives_set (new : ParentCall) (hi : calls[i]? = some old) :
    (heldLives (calls.set i new)).Perm ((new.holds.map (·.2.1)).toList ++ heldLives (calls.eraseIdx i)) := by
  obtain ⟨hlt, _⟩ := List.getElem?_eq_some_iff.1 hi
  have hset := (List.set_perm_cons_eraseIdx hlt new).filterMap fun call => call.holds.map (·.2.1)
  rw [List.filterMap_cons] at hset
  cases hnew : new.holds.map (·.2.1) with
  | none =>
    rw [hnew] at hset
    exact hset
  | some life =>
    rw [hnew] at hset
    exact hset

private theorem heldLives_eraseIdx (hi : calls[i]? = some old) :
    (heldLives calls).Perm ((old.holds.map (·.2.1)).toList ++ heldLives (calls.eraseIdx i)) := by
  have hset := heldLives_set old hi
  obtain ⟨hlt, rfl⟩ := List.getElem?_eq_some_iff.1 hi
  rwa [List.set_getElem_self] at hset

theorem Releases.refl (calls : List ParentCall) : Releases calls calls := ⟨fun _ => .inl, .refl _⟩

theorem Releases.append {more : List ParentCall} (h : ∀ call ∈ more, call.idle = true) :
    Releases calls (calls ++ more) := by
  refine ⟨fun call hcall => (List.mem_append.1 hcall).imp_right (h call), ?_⟩
  have hnone : more.filterMap (fun call => call.holds.map (·.2.1)) = [] := by
    refine List.filterMap_eq_nil_iff.2 fun call hcall => ?_
    rw [ParentCall.holds_of_idle (h call hcall)]
    rfl
  rw [heldLives, List.filterMap_append, hnone, List.append_nil]
  exact .refl _

theorem Releases.drop (calls : List ParentCall) (i : Nat) : Releases calls (calls.eraseIdx i) :=
  ⟨fun _ hcall => .inl (List.mem_of_mem_eraseIdx hcall), ((List.eraseIdx_sublist calls i).filterMap _).subperm⟩

theorem Releases.set (hi : calls[i]? = some old) (hnew : new.idle = true) : Releases calls (calls.set i new) := by
  refine ⟨fun call hcall => ?_, ?_⟩
  · rcases List.mem_or_eq_of_mem_set hcall with hcall | rfl
    · exact .inl hcall
    · exact .inr hnew
  · have hset := heldLives_set new hi
    rw [ParentCall.holds_of_idle hnew] at hset
    exact hset.subperm.trans (Releases.drop calls i).held

theorem Releases.nodup (h : Releases calls calls') (hd : (heldLives calls).Nodup) : (heldLives calls').Nodup := by
  obtain ⟨l, hperm, hsub⟩ := h.held
  exact hperm.nodup_iff.1 (hsub.nodup hd)

end Calls

/-! ### Runs -/

/-- The parent that the call has in its hands runs, in the episode that the call has ended. -/
structure Parents.Grips (σ : Parents) (call : ParentCall) : Prop where
  row : ∀ parent life n, call.holds = some (parent, life, n) →
    n = σ.entries life ∧ ∃ r ∈ σ.store.tasks, r.id = parent ∧ r.inst = life ∧ r.status = .running
  life : ∀ e episode, call = .fetched e episode → ∃ n, episode = some (e.life, n)

/-- The episode is over, and no dispatch has it in its hands. -/
def Parents.Spent (σ : Parents) (life n : Nat) : Prop :=
  n < σ.entries life ∨
    n = σ.entries life ∧ (∀ r ∈ σ.store.tasks, r.inst = life → r.status ≠ .waiting) ∧ life ∉ heldLives σ.calls

private structure Parents.Sound (σ : Parents) : Prop where
  schema : σ.store.Schema
  calls : ∀ call ∈ σ.calls, σ.Grips call
  distinct : (heldLives σ.calls).Nodup
  spent : ∀ life episode status, .spawned life episode status ∈ σ.log →
    status = some .running ∧ ∃ n, episode = some (life, n) ∧ σ.Spent life n
  once : (σ.log.filter ParentEvent.isSpawn).Nodup

section Steps

variable {σ σ' : Parents} {call : ParentCall}

private theorem Parents.Grips.of_idle (h : call.idle = true) : σ.Grips call := by
  refine ⟨fun parent life n hh => ?_, fun e episode he => ?_⟩
  · rw [ParentCall.holds_of_idle h] at hh
    cases hh
  · rw [he] at h
    cases h

/-- A dispatch keeps its parent if nothing happens to the row. -/
private theorem Parents.Grips.keep (h : σ.Grips call) (hentries : ∀ life, σ'.entries life = σ.entries life)
    (hrows : ∀ parent life n, call.holds = some (parent, life, n) → ∀ r ∈ σ.store.tasks, r.inst = life →
      r.status = .running → ∃ r' ∈ σ'.store.tasks, r'.id = r.id ∧ r'.inst = life ∧ r'.status = .running) :
    σ'.Grips call := by
  refine ⟨fun parent life n hh => ?_, h.life⟩
  obtain ⟨hn, r, hr, hid, hinst, hrun⟩ := h.row parent life n hh
  obtain ⟨r', hr', hid', hinst', hrun'⟩ := hrows parent life n hh r hr hinst hrun
  exact ⟨hn.trans (hentries life).symm, r', hr', hid'.trans hid, hinst', hrun'⟩

/-- An episode stays spent if the life does not wait again, and a dispatch takes a waiting row only. -/
private theorem Parents.Spent.keep {life n : Nat} (h : σ.Spent life n) (hentries : σ'.entries life = σ.entries life)
    (hwaits : ∀ r ∈ σ'.store.tasks, r.WaitedIn σ.store)
    (hheld : life ∈ heldLives σ'.calls →
      life ∈ heldLives σ.calls ∨ ∃ r ∈ σ.store.tasks, r.inst = life ∧ r.status = .waiting) : σ'.Spent life n := by
  rcases h with hlt | ⟨heq, hrows, hout⟩
  · exact .inl (hentries ▸ hlt)
  · refine .inr ⟨heq.trans hentries.symm, fun r hr hinst hw => ?_, fun hl => ?_⟩
    · obtain ⟨r₀, hr₀, hw₀, _, hinst₀⟩ := hwaits r hr hw
      exact hrows r₀ hr₀ (hinst₀.trans hinst) hw₀
    · rcases hheld hl with hin | ⟨r, hr, hinst, hw⟩
      · exact hout hin
      · exact hrows r hr hinst hw

private theorem Parents.entries_congr (hlog : σ'.log = σ.log) (life : Nat) : σ'.entries life = σ.entries life := by
  rw [Parents.entries, hlog, Parents.entries]

/-- A step of a call that changes no row and takes nothing into its hands. -/
private theorem Parents.Sound.of_calls (h : σ.Sound) (hstore : σ'.store = σ.store) (hlog : σ'.log = σ.log)
    (hcalls : Releases σ.calls σ'.calls) : σ'.Sound := by
  have hwaits : ∀ r ∈ σ'.store.tasks, r.WaitedIn σ.store := by
    rw [hstore]
    exact fun r hr hw => ⟨r, hr, hw, rfl, rfl⟩
  refine ⟨hstore ▸ h.schema, fun call hcall => ?_, hcalls.nodup h.distinct, fun life episode status hin =>
    ?_, hlog ▸ h.once⟩
  · rcases hcalls.mem call hcall with hold | hidle
    · refine (h.calls call hold).keep (Parents.entries_congr hlog) fun parent life n _ r hr hinst hrun => ?_
      rw [hstore]
      exact ⟨r, hr, rfl, hinst, hrun⟩
    · exact .of_idle hidle
  · rw [hlog] at hin
    obtain ⟨hst, n, hep, hspent⟩ := h.spent life episode status hin
    exact ⟨hst, n, hep, hspent.keep (Parents.entries_congr hlog life) hwaits fun hl => .inl (hcalls.held.subset hl)⟩

/-- What a dispatch holds after a step that leaves its parent alone. -/
private theorem Parents.Grips.of_action (sha256 : List UInt8 → String) (h : σ.Grips call) (hschema : σ.store.Schema)
    {a : Action} (hstore : σ'.store = a.exec sha256 σ.store) (hlog : σ'.log = σ.log)
    (hresp : ∀ parent life n, call.holds = some (parent, life, n) → a.LeavesRunning sha256 life σ.store) :
    σ'.Grips call := by
  refine h.keep (Parents.entries_congr hlog) fun parent life n hh c hc hinst hrun => ?_
  obtain ⟨hspares, hkeeps⟩ := hresp parent life n hh
  -- the row is still there, and it still runs
  obtain ⟨r, hr, his⟩ := a.holds_exec sha256 hschema hc (hspares c hc hinst)
  have hrows : σ.store.Rows fun r => r.inst = life → r.status = .running := by
    intro r hr hri
    rw [List.inj_on_of_nodup_map hschema.insts hr hc (hri.trans hinst.symm)]
    exact hrun
  have hri : r.inst = life := (his.inst rfl).trans hinst
  rw [hstore]
  exact ⟨r, hr, his.id, hri, a.rows_exec sha256 hschema hrows hkeeps r hr hri⟩

/-- A step of the store that leaves alone what the dispatches hold. -/
private theorem Parents.Sound.of_action (sha256 : List UInt8 → String) (h : σ.Sound) {a : Action}
    (ha : a.setsWaiting = false) (hstore : σ'.store = a.exec sha256 σ.store) (hlog : σ'.log = σ.log)
    (hcalls : Releases σ.calls σ'.calls)
    (hresp : ∀ call ∈ σ.calls, call ∈ σ'.calls → ∀ parent life n, call.holds = some (parent, life, n) →
      a.LeavesRunning sha256 life σ.store) : σ'.Sound := by
  have hwaits : ∀ r ∈ σ'.store.tasks, r.WaitedIn σ.store := by
    rw [hstore]
    exact a.waitedIn_exec sha256 h.schema ha
  have hschema : σ'.store.Schema := hstore ▸ h.schema.steps (a.steps sha256 σ.store)
  refine ⟨hschema, fun call hcall => ?_, hcalls.nodup h.distinct, fun life episode status hin => ?_, hlog ▸ h.once⟩
  · rcases hcalls.mem call hcall with hold | hidle
    · exact (h.calls call hold).of_action sha256 h.schema hstore hlog (hresp call hold hcall)
    · exact .of_idle hidle
  · rw [hlog] at hin
    obtain ⟨hst, n, hep, hspent⟩ := h.spent life episode status hin
    exact ⟨hst, n, hep, hspent.keep (Parents.entries_congr hlog life) hwaits fun hl => .inl (hcalls.held.subset hl)⟩

/-! ### The steps of a dispatch -/

/-- What `set_waiting` starts. -/
private theorem entries_wait (sha256 : List UInt8 → String) (σ : Parents) (id : Int)
    (memo : Option (List UInt8)) (life : Nat) :
    ((ParentStep.wait id memo).exec sha256 σ).entries life =
      ((σ.store.enterWaiting id).map (·.inst)).count life + σ.entries life := by
  rw [ParentStep.exec, Parents.entries, List.count_append, Parents.entries]
  congr 1
  induction σ.store.enterWaiting id with
  | nil => rfl
  | cons r rest ih => simp [List.count_cons, ih]

private theorem sound_wait (sha256 : List UInt8 → String) (h : σ.Sound) {id : Int} {memo : Option (List UInt8)}
    (hc : σ.Respects sha256 (.update (.setWaiting id memo))) : ((ParentStep.wait id memo).exec sha256 σ).Sound := by
  have hreleases : Releases σ.calls (σ.calls ++ [.resolving id]) := by
    refine .append fun call hcall => ?_
    rw [List.mem_singleton.1 hcall]
    rfl
  have hschema := h.schema.steps ((Action.update (.setWaiting id memo)).steps sha256 σ.store)
  refine ⟨hschema, fun call hcall => ?_, hreleases.nodup h.distinct, fun life episode status hin => ?_, ?_⟩
  · rcases hreleases.mem call hcall with hold | hidle
    · refine ⟨fun parent life n hh => ?_, (h.calls call hold).life⟩
      obtain ⟨hn, r, hr, hid, hinst, hrun⟩ := (h.calls call hold).row parent life n hh
      -- the row that a dispatch holds is not the one that waits now
      have hnot : ∀ r ∈ σ.store.enterWaiting id, r.inst ≠ life := by
        intro r hr hri
        obtain ⟨hmem, hsel⟩ := List.mem_filter.1 hr
        cases (hc call hold parent life n hh).2 r hmem hsel hri
      have hzero : ((σ.store.enterWaiting id).map (·.inst)).count life = 0 := by
        rw [List.count_eq_zero]
        intro hin
        obtain ⟨r, hr, hri⟩ := List.mem_map.1 hin
        exact hnot r hr hri
      rw [entries_wait, hzero, Nat.zero_add]
      refine ⟨hn, r, List.mem_map.2 ⟨r, hr, if_neg fun hsel => ?_⟩, hid, hinst, hrun⟩
      exact hnot r (List.mem_filter.2 ⟨hr, hsel⟩) hinst
    · exact .of_idle hidle
  · have hin : ParentEvent.spawned life episode status ∈ σ.log := by
      rcases List.mem_append.1 hin with hw | hin
      · obtain ⟨r, _, hr⟩ := List.mem_map.1 hw
        cases hr
      · exact hin
    obtain ⟨hst, n, hep, hspent⟩ := h.spent life episode status hin
    refine ⟨hst, n, hep, ?_⟩
    rw [Parents.Spent, entries_wait]
    by_cases hhit : life ∈ (σ.store.enterWaiting id).map (·.inst)
    · -- a new episode of the life starts
      have hpos := List.count_pos_iff.2 hhit
      rcases hspent with hlt | ⟨heq, _⟩
      · exact .inl (by omega)
      · exact .inl (by omega)
    · rw [List.count_eq_zero.2 hhit, Nat.zero_add]
      refine hspent.imp_right fun ⟨heq, hrows, hout⟩ =>
        ⟨heq, fun r hr hinst => ?_, fun hl => hout (hreleases.held.subset hl)⟩
      obtain ⟨r₀, hr₀, rfl⟩ := List.mem_map.1 hr
      split at hinst
      · rename_i hsel
        exact absurd (List.mem_map.2 ⟨r₀, List.mem_filter.2 ⟨hr₀, hsel⟩, hinst⟩) hhit
      · rename_i hsel
        rw [if_neg hsel]
        exact hrows r₀ hr₀ hinst
  · have hwaits : ((σ.store.enterWaiting id).map fun r => ParentEvent.waits r.inst).filter ParentEvent.isSpawn =
        [] := by
      refine List.filter_eq_nil_iff.2 fun ev hev => ?_
      obtain ⟨r, _, rfl⟩ := List.mem_map.1 hev
      nofun
    rw [ParentStep.exec, List.filter_append, hwaits]
    exact h.once

private theorem leaves_some {parent : Int} {life n : Nat} (h : σ.leaves parent = some (life, n)) :
    n = σ.entries life ∧ ∃ r ∈ σ.store.tasks, r.id = parent ∧ r.inst = life ∧ r.status = .waiting := by
  obtain ⟨r, hr, heq⟩ := Option.map_eq_some_iff.1 h
  cases heq
  have hsel := List.find?_some hr
  rw [Bool.and_eq_true, beq_iff_eq, beq_iff_eq] at hsel
  exact ⟨rfl, r, List.mem_of_find?_eq_some hr, hsel.1, rfl, hsel.2⟩

/-- `set_running_for_finalize` hurts no dispatch. -/
private theorem leavesRunning_move (sha256 : List UInt8 → String) (life : Nat) (s : Store) (parent now : Int) :
    (Action.update (.setRunningForFinalize parent now)).LeavesRunning sha256 life s :=
  ⟨fun _ _ _ => trivial, fun _ _ _ _ => rfl⟩

private theorem sound_move (sha256 : List UInt8 → String) (h : σ.Sound) {i : Nat} {now : Int} :
    ((ParentStep.move i now).exec sha256 σ).Sound := by
  rw [ParentStep.exec]
  split
  · rename_i parent hi
    have hresp (life : Nat) := leavesRunning_move sha256 life σ.store parent now
    cases hleaves : σ.leaves parent with
    | none =>
      have hcalls : Releases σ.calls (σ.calls.set i (.moved parent none)) := .set hi rfl
      exact h.of_action sha256 (a := .update (.setRunningForFinalize parent now)) rfl rfl rfl hcalls
          fun _ _ _ _ life _ _ =>
        hresp life
    | some episode =>
      obtain ⟨life, n⟩ := episode
      obtain ⟨hn, r, hr, hid, hinst, hw⟩ := leaves_some hleaves
      let a : Action := .update (.setRunningForFinalize parent now)
      have hsel : (r.id == parent && r.status == .waiting) = true := by simp [hid, hw]
      have hset := heldLives_set (.moved parent (some (life, n))) hi
      have hheld := heldLives_eraseIdx hi
      -- the row waits, so no dispatch has it
      have hfree : life ∉ heldLives σ.calls := by
        intro hl
        obtain ⟨call, hcall, parent', n', hh⟩ := mem_heldLives.1 hl
        obtain ⟨_, r', hr', _, hinst', hrun⟩ := (h.calls call hcall).row parent' life n' hh
        rw [List.inj_on_of_nodup_map h.schema.insts hr' hr (hinst'.trans hinst.symm), hw] at hrun
        cases hrun
      refine ⟨h.schema.steps (a.steps sha256 σ.store), fun call hcall => ?_, ?_,
        fun life' episode status hin => ?_, h.once⟩
      · rcases List.mem_or_eq_of_mem_set hcall with hold | rfl
        · exact (h.calls call hold).of_action sha256 h.schema (a := a) rfl rfl fun _ life _ _ => hresp life
        · refine ⟨fun _ _ _ hh => ?_, fun _ _ he => ?_⟩
          · cases hh
            exact ⟨hn, _, List.mem_map.2 ⟨r, hr, if_pos hsel⟩, hid, hinst, rfl⟩
          · cases he
      · refine hset.nodup_iff.2 (List.nodup_cons.2 ⟨fun hl => hfree (hheld.mem_iff.2 hl), ?_⟩)
        exact hheld.nodup_iff.1 h.distinct
      · obtain ⟨hst, n', hep, hspent⟩ := h.spent life' episode status hin
        refine ⟨hst, n', hep, hspent.keep rfl (a.waitedIn_exec sha256 h.schema rfl) fun hl => ?_⟩
        rcases List.mem_cons.1 (hset.mem_iff.1 hl) with rfl | hl
        · exact .inr ⟨r, hr, hinst, hw⟩
        · exact .inl (hheld.mem_iff.2 hl)
  · exact h

private theorem find?_inst {s : Store} {r : TaskRow} {life : Nat} (hschema : s.Schema) (hr : r ∈ s.tasks)
    (h : r.inst = life) :
    s.tasks.find? (·.inst == life) = some r := by
  cases hf : s.tasks.find? (·.inst == life) with
  | none => exact absurd (List.find?_eq_none.1 hf r hr) (by simp [h])
  | some r' =>
    have hinst : r'.inst = life := by simpa using List.find?_some hf
    rw [List.inj_on_of_nodup_map hschema.insts (List.mem_of_find?_eq_some hf) hr (hinst.trans h.symm)]

/-- The record that a dispatch reads is the one of the row that it has moved. -/
private theorem sound_fetch (sha256 : List UInt8 → String) (h : σ.Sound) {i : Nat}
    (hc : (ParentStep.fetch i).Undisturbed sha256 σ) : ((ParentStep.fetch i).exec sha256 σ).Sound := by
  rw [ParentStep.exec]
  split
  · rename_i parent episode hi
    have hmem := List.mem_of_getElem? hi
    split
    · exact h.of_calls rfl rfl (.drop σ.calls i)
    · rename_i task hsome
      obtain ⟨r, hrow, rfl⟩ := Option.map_eq_some_iff.1 hsome
      cases episode with
      | none =>
        rw [hc parent hi] at hrow
        cases hrow
      | some episode =>
        obtain ⟨life, n⟩ := episode
        obtain ⟨hn, r', hr', hid, hinst, hrun⟩ := (h.calls _ hmem).row parent life n rfl
        rw [← hid, h.schema.taskById_eq hr'] at hrow
        obtain rfl := Option.some.inj hrow
        obtain ⟨tags, htags⟩ := σ.store.populateTags_eq (rowToTaskRecord r')
        rw [htags]
        have hset := heldLives_set (.fetched (.ofRecord { rowToTaskRecord r' with tags := tags }) (some (life, n))) hi
        have hheld := heldLives_eraseIdx hi
        refine ⟨h.schema, fun call hcall => ?_, ?_, fun life' episode status hin => ?_, h.once⟩
        · rcases List.mem_or_eq_of_mem_set hcall with hold | rfl
          · exact (h.calls call hold).keep (fun _ => rfl) fun _ _ _ _ r hr hinst hrun => ⟨r, hr, rfl, hinst, hrun⟩
          · refine ⟨fun _ _ _ hh => ?_, fun _ _ he => ?_⟩
            · cases hh
              exact ⟨hn, r', hr', rfl, hinst, hrun⟩
            · cases he
              exact ⟨n, congrArg (fun life => some (life, n)) hinst.symm⟩
        · exact hset.nodup_iff.2 (hheld.nodup_iff.1 h.distinct)
        · obtain ⟨hst, n', hep, hspent⟩ := h.spent life' episode status hin
          refine ⟨hst, n', hep, hspent.keep rfl (fun r hr hw => ⟨r, hr, hw, rfl, rfl⟩) fun hl => ?_⟩
          exact .inl (hheld.mem_iff.2 (hset.mem_iff.1 hl))
  · exact h

/-- The finalize phase is started for a row that runs, and for an episode that has none yet. -/
private theorem sound_spawn (sha256 : List UInt8 → String) (h : σ.Sound) {i : Nat} :
    ((ParentStep.spawn i).exec sha256 σ).Sound := by
  rw [ParentStep.exec]
  split
  · rename_i e episode hi
    obtain ⟨n, rfl⟩ := (h.calls _ (List.mem_of_getElem? hi)).life e episode rfl
    obtain ⟨hn, r, hr, hid, hinst, hrun⟩ := (h.calls _ (List.mem_of_getElem? hi)).row _ _ n rfl
    have hstatus : (σ.store.tasks.find? (·.inst == e.life)).map (·.status) = some .running := by
      rw [find?_inst h.schema hr hinst, Option.map_some, hrun]
    have hheld := heldLives_eraseIdx hi
    have hdistinct := List.nodup_cons.1 (hheld.nodup_iff.1 h.distinct)
    have hentries (life : Nat) : ({ σ.drop i with
        log := .spawned e.life (some (e.life, n)) (some .running) :: σ.log } : Parents).entries life =
            σ.entries life := by
      have hne : ParentEvent.spawned e.life (some (e.life, n)) (some .running) ≠ .waits life := by simp
      exact List.count_cons_of_ne hne
    rw [hstatus]
    refine ⟨h.schema, fun call hcall => ?_, hdistinct.2, fun life episode status hin => ?_, ?_⟩
    · exact (h.calls call (List.mem_of_mem_eraseIdx hcall)).keep hentries fun _ _ _ _ r hr hinst hrun =>
        ⟨r, hr, rfl, hinst, hrun⟩
    · rcases List.mem_cons.1 hin with heq | hin
      · cases heq
        refine ⟨rfl, n, rfl, .inr ⟨hn.trans (hentries _).symm, fun r' hr' hinst' hw => ?_, hdistinct.1⟩⟩
        rw [List.inj_on_of_nodup_map h.schema.insts hr' hr (hinst'.trans hinst.symm), hrun] at hw
        cases hw
      · obtain ⟨hst, n', hep, hspent⟩ := h.spent life episode status hin
        refine ⟨hst, n', hep, hspent.keep (hentries life) (fun r hr hw => ⟨r, hr, hw, rfl, rfl⟩) fun hl => .inl ?_⟩
        exact (Releases.drop σ.calls i).held.subset hl
    · -- a spent episode is in nobody's hands
      refine List.nodup_cons.2 ⟨fun hin => ?_, h.once⟩
      obtain ⟨_, n', hep, hspent⟩ := h.spent _ _ _ (List.mem_filter.1 hin).1
      cases hep
      rcases hspent with hlt | ⟨_, _, hout⟩
      · omega
      · exact hout (hheld.mem_iff.2 List.mem_cons_self)
  · exact h

private theorem sound_complete (sha256 : List UInt8 → String) (h : σ.Sound)
    {items : List (TaskRecord × IoBudget)} {now : Int} (hc : σ.Respects sha256 (.completeBatch items now)) :
    ((ParentStep.complete items now).exec sha256 σ).Sound := by
  have hcalls : Releases σ.calls (σ.calls ++ completedParents items) := by
    refine .append fun call hcall => ?_
    obtain ⟨parent, _, rfl⟩ := List.mem_map.1 hcall
    rfl
  rw [ParentStep.exec]
  split
  · rename_i results s hx
    have hexec : s = (Action.completeBatch items now).exec sha256 σ.store := by rw [Action.exec, hx]
    exact h.of_action sha256 (a := .completeBatch items now) rfl hexec rfl hcalls fun call hold _ => hc call hold
  · rename_i e s hx
    have hexec : s = (Action.completeBatch items now).exec sha256 σ.store := by rw [Action.exec, hx]
    exact h.of_action sha256 (a := .completeBatch items now) rfl hexec rfl (.refl σ.calls) fun call hold _ =>
      hc call hold

private theorem sound_fail (sha256 : List UInt8 → String) (h : σ.Sound) {task : TaskRecord} {error : String}
    {retryable : Bool} {maxRetries : Int} {metrics : IoBudget} {backoff : FailBackoff} {now : Int}
    (hc : σ.Respects sha256 (.failWithRecord task error retryable maxRetries metrics backoff now)) :
    ((ParentStep.fail task error retryable maxRetries metrics backoff now).exec sha256 σ).Sound := by
  refine h.of_action sha256 (a := .failWithRecord task error retryable maxRetries metrics backoff now) rfl rfl rfl ?_
    fun call hold _ => hc call hold
  rw [ParentStep.exec]
  dsimp only
  split
  · exact .refl σ.calls
  · refine .append fun call hcall => ?_
    rw [Option.mem_toList, Option.map_eq_some_iff] at hcall
    obtain ⟨parent, _, rfl⟩ := hcall
    rfl

end Steps

private theorem exec_sound (sha256 : List UInt8 → String) {σ : Parents} (h : σ.Sound) (st : ParentStep)
    (hc : st.Undisturbed sha256 σ) : (st.exec sha256 σ).Sound := by
  cases st with
  | store a =>
    exact h.of_action sha256 (Action.setsWaiting_of_ofParents hc.1) rfl rfl (.refl σ.calls) fun call hold _ =>
      hc.2 call hold
  | setPausedGroups groups => exact h.of_calls rfl rfl (.refl σ.calls)
  | wait id memo => exact sound_wait sha256 h hc
  | complete items now => exact sound_complete sha256 h hc
  | fail task error retryable maxRetries metrics backoff now => exact sound_fail sha256 h hc
  | cancel id =>
    refine h.of_calls rfl rfl (.append fun call hcall => ?_)
    rw [List.mem_singleton.1 hcall]
    rfl
  | finishCancel i now =>
    rw [ParentStep.exec]
    split
    · rename_i parent hi
      exact h.of_action sha256 (a := .cancelToHistory parent now) rfl rfl rfl (.drop σ.calls i) fun call hold _ =>
        hc parent hi call hold
    · exact h
  | propagate i =>
    rw [ParentStep.exec]
    split
    · rename_i parent child error hi
      split
      · exact h.of_calls rfl rfl (.drop σ.calls i)
      · split
        · exact h.of_calls rfl rfl (.set hi rfl)
        · exact h.of_calls rfl rfl (.set hi rfl)
    · exact h
  | resolve i =>
    rw [ParentStep.exec]
    split
    · rename_i parent hi
      split
      · exact h.of_calls rfl rfl (.set hi rfl)
      · exact h.of_calls rfl rfl (.set hi rfl)
      · exact h.of_calls rfl rfl (.drop σ.calls i)
      · exact h.of_calls rfl rfl (.drop σ.calls i)
    · exact h
  | enqueue i =>
    rw [ParentStep.exec]
    split
    · exact h.of_calls rfl rfl (.drop σ.calls i)
    · exact h
  | readFailing i =>
    rw [ParentStep.exec]
    split
    · rename_i parent reason hi
      split
      · exact h.of_calls rfl rfl (.drop σ.calls i)
      · exact h.of_calls rfl rfl (.set hi rfl)
    · exact h
  | record i now =>
    rw [ParentStep.exec]
    split
    · rename_i parent reason hi
      exact h.of_action sha256 (a := .failWithRecord parent reason false 0 {} {} now) rfl rfl rfl (.drop σ.calls i)
        fun call hold _ => hc parent reason hi call hold
    · exact h
  | pop id =>
    rw [ParentStep.exec]
    split
    · refine h.of_calls rfl rfl (.append fun call hcall => ?_)
      rw [List.mem_singleton.1 hcall]
      rfl
    · exact h
  | check i =>
    rw [ParentStep.exec]
    split
    · rename_i parent hi
      split
      · exact h.of_calls rfl rfl (.set hi rfl)
      · exact h.of_calls rfl rfl (.set hi rfl)
    · exact h
  | checkGroup i =>
    rw [ParentStep.exec]
    split
    · rename_i parent group hi
      split
      · exact h.of_calls rfl rfl (.drop σ.calls i)
      · exact h.of_calls rfl rfl (.set hi rfl)
    · exact h
  | move i now => exact sound_move sha256 h
  | fetch i => exact sound_fetch sha256 h hc
  | spawn i => exact sound_spawn sha256 h
  | reject i now =>
    rw [ParentStep.exec]
    split
    · rename_i e episode hi
      exact h.of_action sha256 (a := .fail e.task.id "no executor for finalize" false 0 {} {} now) rfl rfl rfl
        (.drop σ.calls i) fun call _ hcall => hc e episode hi call hcall
    · exact h
  | restart now =>
    have hcalls : Releases σ.calls [] := ⟨fun _ hcall => absurd hcall List.not_mem_nil, List.nil_subperm⟩
    exact h.of_action sha256 (a := .recoverRunning now) rfl rfl rfl hcalls fun _ _ hcall =>
      absurd hcall List.not_mem_nil

/-- In every run whose steps disturb no dispatch, the finalize phase is started at most once for an episode. -/
theorem finalized_once (sha256 : List UInt8 → String) (σ : Parents)
    (h : Runs Parents.Fresh (fun σ (a : ParentStep) => a.exec sha256 σ) (fun σ a => a.Undisturbed sha256 σ) σ) :
    σ.FinalizedOnce := by
  have hsound : σ.Sound := by
    refine Runs.invariant (I := Parents.Sound) h (fun σ hfresh => ⟨hfresh.store.schema, ?_, ?_, ?_, ?_⟩)
        fun σ st hσ hc =>
      exec_sound sha256 hσ st hc
    · rw [hfresh.calls]
      exact fun call hcall => absurd hcall List.not_mem_nil
    · rw [hfresh.calls]
      exact .nil
    · rw [hfresh.log]
      exact fun _ _ _ hin => absurd hin List.not_mem_nil
    · rw [hfresh.log]
      exact .nil
  refine ⟨fun life episode status hin => ?_, hsound.once⟩
  obtain ⟨hst, n, hep, _⟩ := hsound.spent life episode status hin
  exact ⟨hst, n, hep⟩

private theorem Parents.respects_of_idle (sha256 : List UInt8 → String) {σ : Parents}
    (h : ∀ call ∈ σ.calls, call.idle = true) (a : Action) : σ.Respects sha256 a := by
  intro call hcall parent life n hh
  rw [ParentCall.holds_of_idle (h call hcall)] at hh
  cases hh

/-- The child completes, and the parent is finalized. -/
private def finalizedRun : List ParentStep :=
  waitingRun ++ ([.store (.popNextBatch 1 none 0), .complete [(dispatchedChild, {})] 0, .resolve 0, .enqueue 0,
    .pop 1, .check 0, .move 0 0, .fetch 0, .spawn 0] : List ParentStep)

theorem finalizedRun_once :
    (parentsState finalizedRun).log = [.spawned 0 (some (0, 1)) (some .running), .waits 0] ∧
      (parentsState finalizedRun).FinalizedOnce := by
  refine ⟨by decide +kernel, finalized_once sampleSha256 _ ?_⟩
  have hidle (k : Nat) (hk : k < 7) : ∀ call ∈ (parentsState (finalizedRun.take k)).calls, call.idle = true := by
    revert k
    decide +kernel
  have hmoved : (parentsState (finalizedRun.take 12)).calls[0]? = some (.moved 1 (some (0, 1))) := by decide +kernel
  refine Runs.list (.start parentsState_fresh) finalizedRun
    ⟨⟨rfl, ?_⟩, ⟨rfl, ?_⟩, ⟨rfl, ?_⟩, ?_, trivial, ⟨rfl, ?_⟩, ?_,
    trivial, trivial, trivial, trivial, trivial, fun parent hi => ?_, trivial, trivial⟩
  · exact Parents.respects_of_idle sampleSha256 (hidle 0 (by decide)) _
  · exact Parents.respects_of_idle sampleSha256 (hidle 1 (by decide)) _
  · exact Parents.respects_of_idle sampleSha256 (hidle 2 (by decide)) _
  · exact Parents.respects_of_idle sampleSha256 (hidle 3 (by decide)) _
  · exact Parents.respects_of_idle sampleSha256 (hidle 5 (by decide)) _
  · exact Parents.respects_of_idle sampleSha256 (hidle 6 (by decide)) _
  · cases hmoved.symm.trans hi

private def otherChild : TaskSubmission := { TaskSubmission.new "c" with parentId := some 1 }

private def dispatchedOther : TaskRecord :=
  rowToTaskRecord { otherChild.newRow (sampleSha256 [99, 58]) 0 with
    id := 3, inst := 2, status := .running, startedAt := some 0 }

/-- Two children complete at the same time.  Both find the parent ready, but one of them is slow: it puts the parent
into the set when the parent is finalizing already. -/
private def finalizedTwiceRun : List ParentStep :=
  waitingRun.take 3 ++ ([.store (.submitDirect otherChild 0), .wait 1 none, .resolve 0,
    .store (.popNextBatch 2 none 0),
    .complete [(dispatchedChild, {})] 0, .complete [(dispatchedOther, {})] 0, .resolve 0, .resolve 1,
      .enqueue 1, .pop 1,
    .check 1, .move 1 0, .fetch 1, .spawn 1, .enqueue 0, .pop 1, .check 0, .move 0 0, .fetch 0,
    .spawn 0] : List ParentStep)

theorem finalized_twice :
    ¬ ∀ σ, Runs Parents.Fresh (fun σ (a : ParentStep) => a.exec sampleSha256 σ) (fun _ a => a.Foreign) σ →
      σ.FinalizedOnce := by
  intro h
  have hrun : Runs Parents.Fresh (fun σ (a : ParentStep) => a.exec sampleSha256 σ) (fun _ a => a.Foreign)
      (parentsState finalizedTwiceRun) := by
    refine Runs.list (.start parentsState_fresh) finalizedTwiceRun ?_
    repeat' constructor
  have hlog : (parentsState finalizedTwiceRun).log =
      [.spawned 0 none (some .running), .spawned 0 (some (0, 1)) (some .running), .waits 0] := by decide +kernel
  have honce := h _ hrun
  obtain ⟨_, n, hn⟩ := honce.moved 0 none (some .running) (hlog ▸ List.mem_cons_self)
  cases hn

end Taskmill
