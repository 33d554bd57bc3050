import Taskmill.BatchRefinement

/-!
# Dependency resolution in any order

Completions of running tasks, in any order and in any batches.  Of a store, resolution sees the rows, the edges and
the paused groups; `core n` is this part of the rows with a number below `n`, so that the next instances of
recurring tasks are left out, and without the time of a pause.  On it, completing the tasks `ids` is `resolved ids`:
their rows and the edges to them go, and the rows whose last edge goes with them are free.  Completing first `ids`
and then `ids'` is completing `ids ++ ids'`, so only the set of completed tasks matters.
-/

namespace Taskmill

open Transact

/-- A row without the time of its pause. -/
def TaskRow.unstamped (r : TaskRow) : TaskRow := { r with pausedAtMs := r.pausedAtMs.map fun _ => 0 }

theorem TaskRow.unstamped_eq {r r' : TaskRow} (h : r.unstamped = r'.unstamped) :
    r.id = r'.id ∧ r.status = r'.status := by
  have hid : r.unstamped.id = r'.unstamped.id := by rw [h]
  have hst : r.unstamped.status = r'.unstamped.status := by rw [h]
  exact ⟨hid, hst⟩

/-- What resolution reads and writes, of the rows with a number below `n`. -/
@[simps] def Store.core (n : Nat) (s : Store) : Store :=
  { openMemory with
    tasks := (s.tasks.filter (·.inst < n)).map TaskRow.unstamped
    taskDeps := s.taskDeps
    pausedGroups := s.pausedGroups }

/-- The rows of `ids` are gone, and the rows that waited only for them are free. -/
def Store.resolved (c : Store) (ids : List Int) : Store := (c.deleteTasks fun r => ids.contains r.id).release ids 0

/-! ### Rows that are younger than `n` -/

/-- The rows with number `n` or more are not blocked, and the next one gets such a number. -/
structure Store.Since (n : Nat) (s : Store) : Prop where
  schema : s.Schema
  le : n ≤ s.nextInst
  young : ∀ r ∈ s.tasks, n ≤ r.inst → r.status ≠ .blocked

namespace Store.Since

variable {n : Nat} {s s' : Store}

theorem start (hs : s.Schema) : s.Since s.nextInst := by
  refine ⟨hs, le_refl _, fun r hr hle => ?_⟩
  have := hs.inst_lt r hr
  omega

private theorem stmt (h : s.Since n) (hst : Stmt false s s') : s'.Since n := by
  have hle := h.le
  refine ⟨h.schema.stmt hst, ?_, ?_⟩
  · cases hst with
    | renew id f hf hb =>
      show n ≤ s.nextInst + 1
      omega
    | add row hk hb =>
      show n ≤ s.nextInst + 1
      omega
    | _ => exact hle
  · intro r' hr' hn hb
    cases hst with
    | update p f hf hst =>
      obtain ⟨r, hr, rfl⟩ := List.mem_map.1 hr'
      by_cases hp : p r = true
      · rw [if_pos hp] at hn hb
        rw [(hf r).2.1] at hn
        exact h.young r hr hn (hst rfl r hb)
      · rw [if_neg hp] at hn hb
        exact h.young r hr hn hb
    | renew id f hf hst =>
      obtain ⟨r, hr, rfl⟩ := List.mem_map.1 hr'
      by_cases hp : (r.id == id) = true
      · rw [if_pos hp, hst] at hb
        cases hb
      · rw [if_neg hp] at hn hb
        exact h.young r hr hn hb
    | delete p => exact h.young r' (List.mem_of_mem_filter hr') hn hb
    | add row hk hrow =>
      rcases List.mem_append.1 hr' with hr' | hr'
      · exact h.young r' hr' hn hb
      · rw [List.mem_singleton] at hr'
        subst hr'
        rw [show row.status = .blocked from hb] at hrow
        cases hrow
    | _ => exact h.young r' hr' hn hb

theorem steps (h : s.Since n) (hst : Steps false s s') : s'.Since n :=
  hst.invariant (fun _ _ hst hs => hs.stmt hst) h

end Store.Since

/-! ### Resolution on the core -/

section Core

variable {c : Store}

/-- Rows are deleted by id, so it does not matter whether they are freed before. -/
private theorem deleteTasks_release (ids done : List Int) :
    (c.release done 0).deleteTasks (fun r => ids.contains r.id) =
      (c.deleteTasks fun r => ids.contains r.id).release done 0 := by
  have htasks : (c.tasks.map (c.releaseRow done 0)).filter (fun r => !ids.contains r.id) =
      (c.tasks.filter fun r => !ids.contains r.id).map (c.releaseRow done 0) := by
    rw [List.filter_map]
    refine congrArg _ (List.filter_congr fun r _ => ?_)
    rw [Function.comp_apply, releaseRow_id]
  show ({ c.release done 0 with tasks := (c.tasks.map (c.releaseRow done 0)).filter fun r => !ids.contains r.id } :
    Store) = _
  rw [htasks]
  rfl

private theorem deleteTasks_append (ids ids' : List Int) :
    (c.deleteTasks fun r => ids.contains r.id).deleteTasks (fun r => ids'.contains r.id) =
      c.deleteTasks fun r => (ids ++ ids').contains r.id := by
  have htasks : (c.tasks.filter fun r => !ids.contains r.id).filter (fun r => !ids'.contains r.id) =
      c.tasks.filter fun r => !(ids ++ ids').contains r.id := by
    rw [List.filter_filter]
    refine List.filter_congr fun r _ => ?_
    rw [Bool.eq_iff_iff]
    simp only [Bool.and_eq_true, Bool.not_eq_true', ← Bool.not_eq_true, List.contains_iff_mem,
      List.mem_append, not_or]
    exact and_comm
  rw [Store.deleteTasks, Store.deleteTasks_tasks, htasks]
  rfl

theorem resolved_nil : c.resolved [] = c := by
  have hdel : (c.deleteTasks fun r => ([] : List Int).contains r.id) = c := Store.deleteTasks_eq_self fun _ _ => rfl
  rw [Store.resolved, hdel, release_nil]

/-- Completing `ids` and then `ids'` is completing both. -/
theorem resolved_resolved (ids ids' : List Int) : (c.resolved ids).resolved ids' = c.resolved (ids ++ ids') := by
  rw [Store.resolved, Store.resolved, deleteTasks_release, deleteTasks_append, release_release]
  rfl

/-- Only the set of the completed tasks matters. -/
theorem resolved_congr {ids ids' : List Int} (h : ∀ id, id ∈ ids ↔ id ∈ ids') : c.resolved ids = c.resolved ids' := by
  have hcontains : ∀ x : Int, ids.contains x = ids'.contains x := by
    intro x
    rw [Bool.eq_iff_iff, List.contains_iff_mem, List.contains_iff_mem]
    exact h x
  have hfrees : ∀ c : Store, c.frees ids = c.frees ids' := by
    intro c
    funext r
    simp only [Store.frees, hcontains]
  have hrel : ∀ c : Store, c.release ids 0 = c.release ids' 0 := by
    intro c
    simp only [Store.release, hcontains, hfrees]
  simp only [Store.resolved, hcontains, hrel]

/-- Deleting rows that are not blocked does not change what is freed. -/
theorem freed_deleteTasks {ids : List Int} (hb : c.NoneBlocked ids) (done : List Int) :
    (c.deleteTasks fun r => ids.contains r.id).freed done = c.freed done := by
  rw [Store.freed, Store.freed, Store.deleteTasks_tasks, List.filter_filter]
  refine congrArg _ (List.filter_congr fun r hr => ?_)
  show (c.frees done r && !ids.contains r.id) = c.frees done r
  by_cases hf : c.frees done r = true
  · have hid : r.id ∉ ids := fun hid => hb r hr hid (Store.frees_iff.1 hf).1
    simp [hf, hid]
  · simp [hf]

/-- The rows freed by both completions are those freed by the first and those freed by the second. -/
theorem freed_resolved {ids : List Int} (hb : c.NoneBlocked ids) (ids' : List Int) :
    (c.freed (ids ++ ids')).Perm (c.freed ids ++ (c.resolved ids).freed ids') := by
  have hsecond : (c.resolved ids).freed ids' = (c.release ids 0).freed ids' := by
    rw [Store.resolved, ← deleteTasks_release]
    exact freed_deleteTasks (hb.release ids) ids'
  rw [hsecond]
  exact freed_append ids ids' 0

end Core

/-! ### One completion -/

section One

variable {n : Nat} {s : Store} {now : Int}

private theorem core_deleteTasks {p : TaskRow → Bool} (hp : ∀ r, p r.unstamped = p r) :
    (s.deleteTasks p).core n = (s.core n).deleteTasks p := by
  have htasks : ((s.tasks.filter fun r => !p r).filter (·.inst < n)).map TaskRow.unstamped =
      ((s.tasks.filter (·.inst < n)).map TaskRow.unstamped).filter fun r => !p r := by
    rw [List.filter_map, List.filter_filter, List.filter_filter]
    refine congrArg _ (List.filter_congr fun r _ => ?_)
    rw [Function.comp_apply, hp, Bool.and_comm]
  rw [Store.core, Store.deleteTasks_tasks, htasks]
  rfl

private theorem frees_core (ids : List Int) (r : TaskRow) : (s.core n).frees ids r.unstamped = s.frees ids r := rfl

private theorem freeRow_unstamped (r : TaskRow) : (s.freeRow now r).unstamped = (s.core n).freeRow 0 r.unstamped := by
  have hpaused : (some (r.pausedAtMs.getD now)).map (fun _ => (0 : Int)) =
      some ((r.pausedAtMs.map fun _ => (0 : Int)).getD 0) := by
    cases r.pausedAtMs with
    | none => rfl
    | some _ => rfl
  have hgroup : (s.core n).groupPaused r.unstamped.groupKey = s.groupPaused r.groupKey := rfl
  rw [Store.freeRow, Store.freeRow, hgroup]
  split
  · simp only [TaskRow.unstamped, TaskRow.pauseFor, hpaused]
  · rfl

private theorem core_release (ids : List Int) : (s.release ids now).core n = (s.core n).release ids 0 := by
  have htasks : ((s.tasks.map fun r => if s.frees ids r then s.freeRow now r else r).filter (·.inst < n)).map
      TaskRow.unstamped = ((s.tasks.filter (·.inst < n)).map TaskRow.unstamped).map
        fun r => if (s.core n).frees ids r then (s.core n).freeRow 0 r else r := by
    have hfilter : (s.tasks.map fun r => if s.frees ids r then s.freeRow now r else r).filter (·.inst < n) =
        (s.tasks.filter (·.inst < n)).map fun r => if s.frees ids r then s.freeRow now r else r := by
      rw [List.filter_map]
      refine congrArg _ (List.filter_congr fun r _ => ?_)
      rw [Function.comp_apply]
      split
      · rw [Store.freeRow_inst]
      · rfl
    rw [hfilter, List.map_map, List.map_map]
    refine List.map_congr_left fun r _ => ?_
    rw [Function.comp_apply, Function.comp_apply]
    by_cases hf : s.frees ids r = true
    · have hf' : (s.core n).frees ids r.unstamped = true := hf
      rw [if_pos hf, if_pos hf']
      exact freeRow_unstamped r
    · have hf' : ¬ (s.core n).frees ids r.unstamped = true := hf
      rw [if_neg hf, if_neg hf']
  rw [Store.core, Store.release_tasks, htasks]
  rfl

/-- Only old rows are freed. -/
private theorem freed_core (hs : s.Since n) (ids : List Int) : (s.core n).freed ids = s.freed ids := by
  rw [Store.freed, Store.freed, Store.core_tasks, List.filter_map, List.map_map, List.filter_filter]
  have hsel : (s.tasks.filter fun r => ((s.core n).frees ids ∘ TaskRow.unstamped) r && decide (r.inst < n)) =
      s.tasks.filter (s.frees ids) := by
    refine List.filter_congr fun r hr => ?_
    rw [Function.comp_apply, frees_core]
    by_cases hf : s.frees ids r = true
    · have hlt : r.inst < n := by
        by_contra hge
        exact hs.young r hr (by omega) (Store.frees_iff.1 hf).1
      simp [hf, hlt]
    · simp [hf]
  rw [hsel]
  rfl

/-- A row of `ids` is running and not to be requeued. -/
def Store.Completable (s : Store) (ids : List Int) : Prop :=
  ∀ id ∈ ids, ∃ r ∈ s.tasks, r.id = id ∧ r.status = .running ∧ r.requeue = false

instance (s : Store) (ids : List Int) : Decidable (s.Completable ids) :=
  inferInstanceAs (Decidable (∀ id ∈ ids, ∃ r ∈ s.tasks, r.id = id ∧ r.status = .running ∧ r.requeue = false))

private theorem completable_noneBlocked {ids : List Int} (hs : s.Schema) (hready : (s.core n).Completable ids) :
    s.NoneBlocked ids := by
  intro r hr hid
  obtain ⟨c', hc', hid', hst, _⟩ := hready _ hid
  obtain ⟨r', hr', rfl⟩ := List.mem_map.1 hc'
  have hsame : r' = r := hs.eq_of_id (List.mem_of_mem_filter hr') hr hid'
  rw [← hsame]
  intro hb
  rw [show r'.status = .running from hst] at hb
  cases hb

private theorem noneBlocked_core {ids : List Int} (hb : s.NoneBlocked ids) : (s.core n).NoneBlocked ids := by
  intro c hc hid
  obtain ⟨r, hr, rfl⟩ := List.mem_map.1 hc
  exact hb r (List.mem_of_mem_filter hr) hid

/-- The completed row is gone, and there is no other change of an old row. -/
private theorem core_completeRow {skipTags : Bool} {item : TaskRecord × IoBudget} (hs : s.Schema)
    (hready : (s.core n).Completable [item.1.id]) :
    (s.completeRow skipTags now item).core n = (s.core n).deleteTasks fun r => r.id == item.1.id := by
  obtain ⟨c, hc, hid, _, hq⟩ := hready item.1.id (List.mem_singleton_self _)
  obtain ⟨row, hrow, rfl⟩ := List.mem_map.1 hc
  have hrow := List.mem_of_mem_filter hrow
  have hdel : (s.logCompleted skipTags now item).deletable item.1.id = true :=
    List.any_eq_true.2 ⟨row, hrow, by simpa [TaskRow.unstamped] using ⟨hid, hq⟩⟩
  -- the id determines the row, and it is not to be requeued
  have hall : ∀ r ∈ s.tasks, (!(r.id == item.1.id && !r.requeue)) = !(r.id == item.1.id) := by
    intro r hr
    by_cases hrid : r.id = item.1.id
    · have hsame : r = row := hs.eq_of_id hr hrow (hrid.trans hid.symm)
      have hrq : r.requeue = false := by rw [hsame]; exact hq
      simp [hrid, hrq]
    · simp [hrid]
  have hdelete : (s.deleteTasks fun r => r.id == item.1.id && !r.requeue).core n =
      (s.core n).deleteTasks fun r => r.id == item.1.id := by
    have : (s.deleteTasks fun r => r.id == item.1.id && !r.requeue) = s.deleteTasks fun r => r.id == item.1.id := by
      rw [Store.deleteTasks, List.filter_congr hall]
      rfl
    rw [this]
    exact core_deleteTasks fun _ => rfl
  rw [Store.completeRow, Store.finishRow, if_pos hdel]
  split
  · exact hdelete
  · exact hdelete

/-- A next instance is one more row, with the next number. -/
private theorem addInstance_tasks (s : Store) (task : TaskRecord) (tags : List (String × String))
    (interval now : Int) :
    ∃ row : TaskRow, row.inst = s.nextInst ∧
      ((s.addInstance task tags interval now).pauseInstance s.nextTaskId task.groupKey now).tasks =
        s.tasks ++ [row] := by
  rw [Store.pauseInstance]
  split
  · refine ⟨TaskRow.pauseFor { task.nextInstance interval now with id := s.nextTaskId, inst := s.nextInst }
      .group now, rfl, ?_⟩
    show (s.tasks ++ [_]).map _ = _
    rw [List.map_append, List.map_cons, List.map_nil]
    have hold : (s.tasks.map fun r => if r.id == s.nextTaskId then r.pauseFor .group now else r) = s.tasks := by
      conv_rhs => rw [← List.map_id s.tasks]
      refine List.map_congr_left fun r hr => ?_
      simp [Store.id_ne_nextTaskId hr]
    rw [hold]
    simp
  · exact ⟨_, rfl, rfl⟩

private theorem core_addInstance (hle : n ≤ s.nextInst) (task : TaskRecord) (tags : List (String × String))
    (interval : Int) :
    ((s.addInstance task tags interval now).pauseInstance s.nextTaskId task.groupKey now).core n = s.core n := by
  obtain ⟨row, hinst, htasks⟩ := addInstance_tasks s task tags interval now
  have hyoung : ¬ row.inst < n := by omega
  have hrest : ∀ t : Store, t = (s.addInstance task tags interval now).pauseInstance s.nextTaskId task.groupKey now →
      t.taskDeps = s.taskDeps ∧ t.pausedGroups = s.pausedGroups := by
    rintro t rfl
    rw [Store.pauseInstance]
    split
    · exact ⟨rfl, rfl⟩
    · exact ⟨rfl, rfl⟩
  obtain ⟨hdeps, hgroups⟩ := hrest _ rfl
  rw [Store.core, htasks, hdeps, hgroups, List.filter_append, List.filter_cons_of_neg (by simpa using hyoung)]
  rw [List.filter_nil, List.append_nil]
  rfl

private theorem core_completeInner {skipTags : Bool} {item : TaskRecord × IoBudget}
    {result : Option (Int × Int)} {s' : Store} (hs : s.Since n) (hready : (s.core n).Completable [item.1.id])
    (h : completeInner item.1 item.2 skipTags now s = (.ok result, s')) :
    s'.core n = (s.core n).deleteTasks fun r => r.id == item.1.id := by
  rcases completeInner_cases h with rfl | ⟨interval, _, _, rfl⟩
  · exact core_completeRow hs.schema hready
  · have hle : n ≤ (s.completeRow skipTags now item).nextInst := by
      have hsame : s.nextInst ≤ (s.completeRow skipTags now item).nextInst := by
        rw [Store.completeRow, Store.finishRow]
        split
        · split
          · exact le_refl _
          · exact le_refl _
        · show s.nextInst ≤ if _ then s.nextInst + 1 else s.nextInst
          split
          · exact Nat.le_succ _
          · exact le_refl _
      exact hs.le.trans hsame
    rw [core_addInstance hle]
    exact core_completeRow hs.schema hready

/-- All rows have a number below `n`. -/
def Store.AllBefore (n : Nat) (s : Store) : Prop := ∀ r ∈ s.tasks, r.inst < n

/-- Without a next instance there is no new row. -/
private theorem allBefore_completeInner {skipTags : Bool} {item : TaskRecord × IoBudget} {result : Option (Int × Int)}
    {s' : Store} (hready : (s.core n).Completable [item.1.id]) (hrec : item.1.recurs = none) (hs : s.AllBefore n)
    (h : completeInner item.1 item.2 skipTags now s = (.ok result, s')) : s'.AllBefore n := by
  obtain ⟨c, hc, hid, _, hq⟩ := hready item.1.id (List.mem_singleton_self _)
  obtain ⟨row, hrow, rfl⟩ := List.mem_map.1 hc
  have hdel : (s.logCompleted skipTags now item).deletable item.1.id = true :=
    List.any_eq_true.2 ⟨row, List.mem_of_mem_filter hrow, by simpa [TaskRow.unstamped] using ⟨hid, hq⟩⟩
  rcases completeInner_cases h with rfl | ⟨interval, hsome, _, rfl⟩
  · intro r hr
    rw [Store.completeRow, Store.finishRow, if_pos hdel] at hr
    split at hr
    · exact hs r (List.mem_of_mem_filter hr)
    · exact hs r (List.mem_of_mem_filter hr)
  · rw [hrec] at hsome
    cases hsome

/-- What completing the tasks `ids` does: the core is resolved, the freed rows are reported, and if `plain` holds (no
task recurs) there is no new row. -/
structure Resolves (n : Nat) (s : Store) (ids : List Int) (plain : Prop) (unblocked : List Int)
    (s' : Store) : Prop where
  core : s'.core n = (s.core n).resolved ids
  unblocked : unblocked.Perm ((s.core n).freed ids)
  since : s'.Since n
  old : plain → s.AllBefore n → s'.AllBefore n

/-- One completion. -/
private theorem completeAndResolve_resolves {skipTags : Bool} {item : TaskRecord × IoBudget}
    {result : Int × Option (Int × Int) × List Int} {s' : Store} (hs : s.Since n)
    (hready : (s.core n).Completable [item.1.id]) (h : completeAndResolve skipTags now item s = (.ok result, s')) :
    Resolves n s [item.1.id] (item.1.recurs = none) result.2.2 s' := by
  have hsteps : Steps false s (completeAndResolve skipTags now item s).2 := steps_completeAndResolve item s
  obtain ⟨recurring, s₁, h₁, h'⟩ := Txn.bind_ok h
  have hsteps₁ : Steps false s (completeInner item.1 item.2 skipTags now s).2 := steps_completeInner s
  rw [h₁] at hsteps₁
  have hs₁ := hs.steps hsteps₁
  have hcore : s₁.core n = (s.core n).deleteTasks fun r => [item.1.id].contains r.id := by
    rw [core_completeInner hs hready h₁]
    refine congrArg (Store.deleteTasks _) (funext fun r => ?_)
    rw [List.contains_cons, List.contains_nil, Bool.or_false]
  rw [Txn.bind_of_ok (resolveDependentsInner_apply hs₁.schema.ids _ _)] at h'
  cases h'
  rw [h] at hsteps
  refine ⟨?_, ?_, hs.steps hsteps, ?_⟩
  · rw [core_release, hcore]
    rfl
  · have hb := noneBlocked_core (n := n) (completable_noneBlocked hs.schema hready)
    rw [← freed_deleteTasks hb, ← hcore, freed_core hs₁]
  · intro hrec hold r hr
    obtain ⟨r₀, hr₀, rfl⟩ := List.mem_map.1 hr
    have hlt := allBefore_completeInner hready hrec hold h₁ r₀ hr₀
    split
    · rw [Store.freeRow_inst]
      exact hlt
    · exact hlt

end One

/-! ### Several completions -/

section Several

variable {n : Nat} {s s' : Store}

/-- Rows that are running and stay are untouched by the completion of others. -/
private theorem completable_resolved {c : Store} {ids ids' : List Int} (h : c.Completable ids')
    (hdisj : ∀ id ∈ ids', id ∉ ids) : (c.resolved ids).Completable ids' := by
  intro id hid
  obtain ⟨r, hr, hrid, hst, hq⟩ := h id hid
  have hstay : r ∈ (c.deleteTasks fun r => ids.contains r.id).tasks := by
    refine List.mem_filter.2 ⟨hr, ?_⟩
    have hout : r.id ∉ ids := hrid ▸ hdisj id hid
    simp [hout]
  have hnot : (c.deleteTasks fun r => ids.contains r.id).frees ids r = false := by
    rw [← Bool.not_eq_true, Store.frees_iff, hst]
    exact fun h => nomatch h.1
  refine ⟨r, List.mem_map.2 ⟨r, hstay, ?_⟩, hrid, hst, hq⟩
  rw [if_neg (by rw [hnot]; exact Bool.false_ne_true)]

private theorem Resolves.nil (hs : s.Since n) : Resolves n s [] True [] s := by
  refine ⟨resolved_nil.symm, ?_, hs, fun _ h => h⟩
  have hnone : (s.core n).freed [] = [] := by
    rw [Store.freed, List.map_eq_nil_iff, List.filter_eq_nil_iff]
    intro r _ hf
    obtain ⟨_, ⟨e, _, _, hin⟩, _⟩ := Store.frees_iff.1 hf
    cases hin
  rw [hnone]

private theorem Resolves.trans {ids ids' : List Int} {plain plain' : Prop} {u u' : List Int} {s₁ s₂ : Store}
    (h : Resolves n s ids plain u s₁) (h' : Resolves n s₁ ids' plain' u' s₂) (hb : s.NoneBlocked ids) :
    Resolves n s (ids ++ ids') (plain ∧ plain') (u ++ u') s₂ := by
  refine ⟨?_, ?_, h'.since, fun hp hold => h'.old hp.2 (h.old hp.1 hold)⟩
  · rw [h'.core, h.core, resolved_resolved]
  · refine (h.unblocked.append h'.unblocked).trans ?_
    rw [h.core]
    exact (freed_resolved (noneBlocked_core hb) ids').symm

/-- The rows that are still to be completed, after some are. -/
private theorem Resolves.completable {ids ids' : List Int} {plain : Prop} {u : List Int} {s₁ : Store}
    (h : Resolves n s ids plain u s₁) (hready : (s.core n).Completable (ids ++ ids')) (hn : (ids ++ ids').Nodup) :
    (s₁.core n).Completable ids' := by
  rw [h.core]
  refine completable_resolved (fun id hid => hready id (List.mem_append_right _ hid)) ?_
  intro id hid hin
  exact (List.nodup_append.1 hn).2.2 id hin id hid rfl

/-- A loop of completions. -/
private theorem mapList_resolves {skipTags : Bool} {now : Int} {items : List (TaskRecord × IoBudget)}
    {results : List (Int × Option (Int × Int) × List Int)} (hs : s.Since n)
    (hready : (s.core n).Completable (items.map (·.1.id))) (hn : (items.map (·.1.id)).Nodup)
    (h : Txn.mapList (completeAndResolve skipTags now) items s = (.ok results, s')) :
    Resolves n s (items.map (·.1.id)) (∀ item ∈ items, item.1.recurs = none) (unblockedIds results) s' := by
  induction items generalizing s results with
  | nil =>
    cases h
    exact ⟨(Resolves.nil hs).core, (Resolves.nil hs).unblocked, hs, fun _ h => h⟩
  | cons item items ih =>
    obtain ⟨result, s₁, h₁, h⟩ := Txn.bind_ok h
    obtain ⟨rest, s₂, h₂, h⟩ := Txn.bind_ok h
    cases h
    have hone : (s.core n).Completable [item.1.id] := fun id hid =>
      hready id (by rw [List.mem_singleton.1 hid]; exact List.mem_cons_self ..)
    have hfirst := completeAndResolve_resolves hs hone h₁
    have hready' : (s₁.core n).Completable (items.map (·.1.id)) := hfirst.completable hready hn
    have hrest := ih hfirst.since hready' (List.nodup_cons.1 hn).2 h₂
    have hboth := hfirst.trans hrest (completable_noneBlocked hs.schema hone)
    refine ⟨hboth.core, hboth.unblocked, hboth.since, fun hp hold => hboth.old ⟨?_, ?_⟩ hold⟩
    · exact hp item (List.mem_cons_self ..)
    · exact fun i hi => hp i (List.mem_cons_of_mem _ hi)

end Several

/-! ### Runs of calls -/

/-- One call: a completion or a batch of completions. -/
inductive CompletionCall where
  | one (item : TaskRecord × IoBudget) (now : Int)
  | batch (items : List (TaskRecord × IoBudget)) (now : Int)

namespace CompletionCall

def items : CompletionCall → List (TaskRecord × IoBudget)
  | .one item _ => [item]
  | .batch items _ => items

def ids (call : CompletionCall) : List Int := call.items.map (·.1.id)

def run : CompletionCall → Sql (List (Int × Option (Int × Int) × List Int))
  | .one item now => do
    let result ← completeWithRecordAndResolve item.1 item.2 now
    pure [result]
  | .batch items now => completeBatchWithResolve items now

/-- No task of the call gets a next instance. -/
def Plain (call : CompletionCall) : Prop := ∀ item ∈ call.items, item.1.recurs = none

end CompletionCall

/-- The tasks that some calls complete. -/
def completedIds (calls : List CompletionCall) : List Int := (calls.map CompletionCall.ids).flatten

/-- Calls one after the other. -/
def runCalls (calls : List CompletionCall) : Sql (List (List (Int × Option (Int × Int) × List Int))) :=
  Txn.mapList CompletionCall.run calls

section Calls

variable {n : Nat} {s s' : Store}

private theorem core_maybePrune (now : Int) : (s.maybePrune now).core n = s.core n := by
  rw [Store.maybePrune]
  split
  · rfl
  · dsimp only
    split
    · rfl
    · split
      · rfl
      · rfl

/-- Pruning touches the history only. -/
private theorem withPrune_resolves {α : Type} {x : Sql α} {now : Int} {a : α} {ids : List Int} {plain : Prop}
    {unblocked : List Int} (hx : ∀ s', x s = (.ok a, s') → Resolves n s ids plain unblocked s')
    (h : withPrune now x s = (.ok a, s')) : Resolves n s ids plain unblocked s' := by
  obtain ⟨b, s₁, h₁, h⟩ := Txn.bind_ok h
  cases h
  have hr := hx s₁ h₁
  refine ⟨?_, hr.unblocked, hr.since.steps (steps_maybePrune s₁ now), fun hp hold => ?_⟩
  · rw [core_maybePrune]
    exact hr.core
  · intro r hmem
    rw [Store.tasks_maybePrune] at hmem
    exact hr.old hp hold r hmem

/-- One call. -/
private theorem CompletionCall.run_resolves {call : CompletionCall}
    {results : List (Int × Option (Int × Int) × List Int)} (hs : s.Since n) (hready : (s.core n).Completable call.ids)
    (hn : call.ids.Nodup) (h : call.run s = (.ok results, s')) :
    Resolves n s call.ids call.Plain (unblockedIds results) s' := by
  cases call with
  | one item now =>
    obtain ⟨result, s₁, h₁, h⟩ := Txn.bind_ok h
    cases h
    refine withPrune_resolves (fun s₂ h₂ => ?_) h₁
    have hround : completeAndResolve (!s.hasTags) now item s = (.ok result, s₂) := transaction_ok h₂
    have hone := completeAndResolve_resolves hs hready hround
    have hlist : unblockedIds [result] = result.2.2 := by simp [unblockedIds]
    refine ⟨hone.core, ?_, hone.since, fun hp hold => hone.old (hp item (List.mem_singleton_self _)) hold⟩
    rw [hlist]
    exact hone.unblocked
  | batch items now =>
    change completeBatchWithResolve items now s = (.ok results, s') at h
    rw [completeBatchWithResolve] at h
    split at h
    · rename_i hempty
      rw [List.isEmpty_iff] at hempty
      subst hempty
      cases h
      exact ⟨(Resolves.nil hs).core, (Resolves.nil hs).unblocked, hs, fun _ h => h⟩
    · refine withPrune_resolves (fun s₁ h₁ => ?_) h
      rcases completeBatchTx_loop now hs.schema.ids hn (completable_noneBlocked hs.schema hready) with
        ⟨rounds, results', s₂, hloop, htx, hperm⟩ | ⟨_, e, htx⟩
      · have htx' := h₁.symm.trans htx
        cases htx'
        have hr := mapList_resolves hs hready hn hloop
        exact ⟨hr.core, hperm.trans hr.unblocked, hr.since, hr.old⟩
      · have htx' := h₁.symm.trans htx
        cases htx'

/-- Calls in any order. -/
private theorem runCalls_resolves {calls : List CompletionCall}
    {results : List (List (Int × Option (Int × Int) × List Int))} (hs : s.Since n)
    (hready : (s.core n).Completable (completedIds calls)) (hn : (completedIds calls).Nodup)
    (h : runCalls calls s = (.ok results, s')) :
    Resolves n s (completedIds calls) (∀ call ∈ calls, call.Plain) (unblockedIds results.flatten) s' := by
  induction calls generalizing s results with
  | nil =>
    cases h
    exact ⟨(Resolves.nil hs).core, (Resolves.nil hs).unblocked, hs, fun _ h => h⟩
  | cons call calls ih =>
    obtain ⟨result, s₁, h₁, h⟩ := Txn.bind_ok h
    obtain ⟨rest, s₂, h₂, h⟩ := Txn.bind_ok h
    cases h
    have hsplit : completedIds (call :: calls) = call.ids ++ completedIds calls := rfl
    rw [hsplit] at hready hn ⊢
    have hone : (s.core n).Completable call.ids := fun id hid => hready id (List.mem_append_left _ hid)
    have hfirst := CompletionCall.run_resolves hs hone (List.nodup_append.1 hn).1 h₁
    have hrest := ih hfirst.since (hfirst.completable hready hn) (List.nodup_append.1 hn).2.1 h₂
    have hboth := hfirst.trans hrest (completable_noneBlocked hs.schema hone)
    have hids : unblockedIds (result :: rest).flatten = unblockedIds result ++ unblockedIds rest.flatten := by
      simp [unblockedIds]
    rw [hids]
    refine ⟨hboth.core, hboth.unblocked, hboth.since, fun hp hold => hboth.old ⟨?_, ?_⟩ hold⟩
    · exact hp call (List.mem_cons_self ..)
    · exact fun c hc => hp c (List.mem_cons_of_mem _ hc)

/-- The task has dependencies, and all of them are in `ids`. -/
def Store.DependsWithin (s : Store) (ids : List Int) (id : Int) : Prop :=
  (∃ e ∈ s.taskDeps, e.1 = id) ∧ ∀ e ∈ s.taskDeps, e.1 = id → e.2 ∈ ids

instance (s : Store) (ids : List Int) (id : Int) : Decidable (s.DependsWithin ids id) :=
  inferInstanceAs (Decidable ((∃ e ∈ s.taskDeps, e.1 = id) ∧ ∀ e ∈ s.taskDeps, e.1 = id → e.2 ∈ ids))

private theorem frees_iff_dependsWithin {ids : List Int} {r : TaskRow} (hb : r.status = .blocked) :
    s.frees ids r = true ↔ s.DependsWithin ids r.id := by
  rw [Store.frees_iff, Store.DependsWithin]
  constructor
  · rintro ⟨_, ⟨e, he, hid, _⟩, hall⟩
    exact ⟨⟨e, he, hid⟩, hall⟩
  · rintro ⟨⟨e, he, hid⟩, hall⟩
    exact ⟨hb, ⟨e, he, hid, hall e he hid⟩, hall⟩

/-- A row that stays, after the tasks `ids` are completed. -/
private theorem resolves_row {ids : List Int} {plain : Prop} {u : List Int} (h : Resolves s.nextInst s ids plain u s')
    (hs : s.Schema) (hb : s.NoneBlocked ids) {r : TaskRow} (hr : r ∈ s.tasks) (hst : r.status = .blocked) :
    ∃ r' ∈ s'.tasks, r'.unstamped = (if s.frees ids r then s.freeRow 0 r else r).unstamped := by
  have hlt := hs.inst_lt r hr
  have hcore : r.unstamped ∈ (s.core s.nextInst).tasks :=
    List.mem_map.2 ⟨r, List.mem_filter.2 ⟨hr, by simpa using hlt⟩, rfl⟩
  have hid : r.id ∉ ids := fun hid => hb r hr hid hst
  have hstay : r.unstamped ∈ ((s.core s.nextInst).deleteTasks fun r => ids.contains r.id).tasks := by
    refine List.mem_filter.2 ⟨hcore, ?_⟩
    simpa [TaskRow.unstamped] using hid
  have hmem : (if s.frees ids r then s.freeRow 0 r else r).unstamped ∈ (s'.core s.nextInst).tasks := by
    rw [h.core]
    refine List.mem_map.2 ⟨r.unstamped, hstay, ?_⟩
    by_cases hf : s.frees ids r = true
    · have hf' : ((s.core s.nextInst).deleteTasks fun r => ids.contains r.id).frees ids r.unstamped = true := hf
      rw [if_pos hf, if_pos hf', freeRow_unstamped (n := s.nextInst)]
      rfl
    · have hf' : ¬ ((s.core s.nextInst).deleteTasks fun r => ids.contains r.id).frees ids r.unstamped = true := hf
      rw [if_neg hf, if_neg hf']
  obtain ⟨r', hr', heq⟩ := List.mem_map.1 hmem
  exact ⟨r', List.mem_of_mem_filter hr', heq⟩

/-- A blocked row leaves `blocked` when its dependencies are all completed. -/
private theorem resolves_notBlocked {ids : List Int} {plain : Prop} {u : List Int}
    (h : Resolves s.nextInst s ids plain u s') (hs : s.Schema) (hb : s.NoneBlocked ids) {r : TaskRow}
    (hr : r ∈ s.tasks) (hst : r.status = .blocked) : s'.NotBlocked r.id ↔ s.DependsWithin ids r.id := by
  rw [← frees_iff_dependsWithin hst]
  obtain ⟨r', hr', heq⟩ := resolves_row h hs hb hr hst
  by_cases hf : s.frees ids r = true
  · rw [if_pos hf] at heq
    refine iff_of_true (fun r₁ hr₁ hid hst₁ => ?_) hf
    have hid' : r'.id = r.id := by
      have hfree : (s.freeRow 0 r).id = r.id := by
        rw [Store.freeRow]
        split
        · rfl
        · rfl
      exact (TaskRow.unstamped_eq heq).1.trans hfree
    have hsame : r₁ = r' := h.since.schema.eq_of_id hr₁ hr' (hid.trans hid'.symm)
    exact freeRow_status r ((TaskRow.unstamped_eq heq).2.symm.trans (hsame ▸ hst₁))
  · rw [if_neg hf] at heq
    refine iff_of_false (fun hnot => ?_) hf
    obtain ⟨hid, hstatus⟩ := TaskRow.unstamped_eq heq
    exact hnot r' hr' hid (hstatus.trans hst)

/-- A blocked row is reported once if its dependencies are all completed, and else not at all. -/
private theorem resolves_count {ids : List Int} {plain : Prop} {u : List Int}
    (h : Resolves s.nextInst s ids plain u s') (hs : s.Schema) {r : TaskRow} (hr : r ∈ s.tasks)
    (hst : r.status = .blocked) :
    (s.DependsWithin ids r.id → u.count r.id = 1) ∧ (¬ s.DependsWithin ids r.id → u.count r.id = 0) := by
  rw [← frees_iff_dependsWithin hst, h.unblocked.count_eq, freed_core (Store.Since.start hs)]
  have hmem : r.id ∈ s.freed ids ↔ s.frees ids r = true := by
    constructor
    · intro hm
      obtain ⟨r', hr', hid⟩ := List.mem_map.1 hm
      obtain ⟨hr', hf⟩ := List.mem_filter.1 hr'
      rwa [← hs.eq_of_id hr' hr hid]
    · intro hf
      exact List.mem_map.2 ⟨r, List.mem_filter.2 ⟨hr, hf⟩, rfl⟩
  have hnodup : (s.freed ids).Nodup := hs.ids.sublist (List.Sublist.map _ (List.filter_sublist ..))
  rw [← hmem]
  exact ⟨fun hm => List.count_eq_one_of_mem hnodup hm, fun hm => List.count_eq_zero_of_not_mem hm⟩

/-- The rows that are to be completed are old. -/
private theorem completable_core {ids : List Int} (hs : s.Schema) (h : s.Completable ids) :
    (s.core s.nextInst).Completable ids := by
  intro id hid
  obtain ⟨r, hr, hrid, hst, hq⟩ := h id hid
  have hlt := hs.inst_lt r hr
  exact ⟨r.unstamped, List.mem_map.2 ⟨r, List.mem_filter.2 ⟨hr, by simpa using hlt⟩, rfl⟩, hrid, hst, hq⟩

/-- Any part of a successful run of calls. -/
private theorem runCalls_start {pre post : List CompletionCall}
    {results : List (List (Int × Option (Int × Int) × List Int))} (hs : s.Schema)
    (hready : s.Completable (completedIds (pre ++ post))) (hn : (completedIds (pre ++ post)).Nodup)
    (h : runCalls pre s = (.ok results, s')) :
    Resolves s.nextInst s (completedIds pre) (∀ call ∈ pre, call.Plain) (unblockedIds results.flatten) s' ∧
      s.NoneBlocked (completedIds pre) := by
  have hsplit : completedIds (pre ++ post) = completedIds pre ++ completedIds post := by simp [completedIds]
  rw [hsplit] at hready hn
  have hready' : (s.core s.nextInst).Completable (completedIds pre) :=
    completable_core hs fun id hid => hready id (List.mem_append_left _ hid)
  exact ⟨runCalls_resolves (Store.Since.start hs) hready' (List.nodup_append.1 hn).1 h,
    completable_noneBlocked hs hready'⟩

/-- Running tasks are completed, in any order and in any batches.  A blocked task leaves `blocked` in the call that
completes the last of its dependencies, and is reported by this call only; it is pending then, or paused if its
group is.  The edges, and the rows that were there, depend on the set of the completed tasks only; so does the whole
table if no task gets a next instance. -/
theorem resolution_exact {s s' : Store} (hs : s.Schema) {calls : List CompletionCall}
    (hready : s.Completable (completedIds calls)) (hn : (completedIds calls).Nodup)
    {results : List (List (Int × Option (Int × Int) × List Int))} (h : runCalls calls s = (.ok results, s')) :
    (∀ r ∈ s.tasks, r.status = .blocked →
      (∀ pre call post, calls = pre ++ call :: post →
        ∃ before s₁ reported s₂, runCalls pre s = (.ok before, s₁) ∧ call.run s₁ = (.ok reported, s₂) ∧
          (s₁.NotBlocked r.id ↔ s.DependsWithin (completedIds pre) r.id) ∧
          (s₂.NotBlocked r.id ↔ s.DependsWithin (completedIds (pre ++ [call])) r.id) ∧
          (r.id ∈ unblockedIds reported ↔ ¬ s.DependsWithin (completedIds pre) r.id ∧
            s.DependsWithin (completedIds (pre ++ [call])) r.id)) ∧
      (¬ s.DependsWithin (completedIds calls) r.id → ∃ r' ∈ s'.tasks, r'.unstamped = r.unstamped) ∧
      (s.DependsWithin (completedIds calls) r.id →
        (unblockedIds results.flatten).count r.id = 1 ∧ ∃ r' ∈ s'.tasks, r'.unstamped = (s.freeRow 0 r).unstamped)) ∧
    (∀ calls' results' s'', runCalls calls' s = (.ok results', s'') →
      (completedIds calls').Perm (completedIds calls) →
      s''.taskDeps = s'.taskDeps ∧ (s''.core s.nextInst).tasks = (s'.core s.nextInst).tasks ∧
      ((∀ call ∈ calls ++ calls', call.Plain) →
        s''.tasks.map TaskRow.unstamped = s'.tasks.map TaskRow.unstamped)) := by
  have hready₀ : s.Completable (completedIds (calls ++ [])) := by rwa [List.append_nil]
  have hn₀ : (completedIds (calls ++ [])).Nodup := by rwa [List.append_nil]
  obtain ⟨hrun, hb⟩ := runCalls_start hs hready₀ hn₀ h
  constructor
  · intro r hr hst
    refine ⟨fun pre call post hsplit => ?_, fun hdep => ?_, fun hdep => ?_⟩
    · subst hsplit
      rw [runCalls] at h
      obtain ⟨before, s₁, rest, hpre, hpost, -⟩ := Txn.mapList_append_ok h
      obtain ⟨reported, s₂, hcall, -⟩ := Txn.bind_ok hpost
      have hone : Txn.mapList CompletionCall.run [call] s₁ = (.ok [reported], s₂) := by
        rw [Txn.mapList, Txn.bind_of_ok hcall]
        rfl
      have hboth : runCalls (pre ++ [call]) s = (.ok (before ++ [reported]), s₂) := Txn.mapList_append_of_ok hpre hone
      have hassoc : pre ++ call :: post = (pre ++ [call]) ++ post := by simp
      obtain ⟨h₁, hb₁⟩ := runCalls_start hs hready hn hpre
      rw [hassoc] at hready hn
      obtain ⟨h₂, hb₂⟩ := runCalls_start hs hready hn hboth
      refine ⟨before, s₁, reported, s₂, hpre, hcall, resolves_notBlocked h₁ hs hb₁ hr hst,
        resolves_notBlocked h₂ hs hb₂ hr hst, ?_⟩
      -- what this call reports is what the two runs report more than the first
      have hcount : (unblockedIds (before ++ [reported]).flatten).count r.id =
          (unblockedIds before.flatten).count r.id + (unblockedIds reported).count r.id := by
        simp [unblockedIds]
      obtain ⟨hin₁, hout₁⟩ := resolves_count h₁ hs hr hst
      obtain ⟨hin₂, hout₂⟩ := resolves_count h₂ hs hr hst
      rw [← List.count_pos_iff]
      by_cases hd₂ : s.DependsWithin (completedIds (pre ++ [call])) r.id
      · have := hin₂ hd₂
        by_cases hd₁ : s.DependsWithin (completedIds pre) r.id
        · have := hin₁ hd₁
          simp only [hd₁, not_true_eq_false, false_and, iff_false]
          omega
        · have := hout₁ hd₁
          simp only [hd₁, hd₂, not_false_eq_true, true_and, iff_true]
          omega
      · have := hout₂ hd₂
        simp only [hd₂, and_false, iff_false]
        omega
    · have hf : ¬ s.frees (completedIds calls) r = true := fun hf => hdep ((frees_iff_dependsWithin hst).1 hf)
      obtain ⟨r', hr', heq⟩ := resolves_row hrun hs hb hr hst
      rw [if_neg hf] at heq
      exact ⟨r', hr', heq⟩
    · have hf := (frees_iff_dependsWithin hst).2 hdep
      obtain ⟨r', hr', heq⟩ := resolves_row hrun hs hb hr hst
      rw [if_pos hf] at heq
      exact ⟨(resolves_count hrun hs hr hst).1 hdep, r', hr', heq⟩
  · intro calls' results' s'' h' hperm
    have hready' : s.Completable (completedIds (calls' ++ [])) := by
      rw [List.append_nil]
      exact fun id hid => hready id (hperm.mem_iff.1 hid)
    have hn' : (completedIds (calls' ++ [])).Nodup := by
      rw [List.append_nil]
      exact hperm.nodup_iff.2 hn
    obtain ⟨hrun', -⟩ := runCalls_start hs hready' hn' h'
    have hcore : s''.core s.nextInst = s'.core s.nextInst := by
      rw [hrun'.core, hrun.core]
      exact resolved_congr fun id => hperm.mem_iff
    have hdeps : (s''.core s.nextInst).taskDeps = (s'.core s.nextInst).taskDeps := by rw [hcore]
    refine ⟨hdeps, by rw [hcore], fun hplain => ?_⟩
    have hall : ∀ t : Store, t.AllBefore s.nextInst → (t.core s.nextInst).tasks = t.tasks.map TaskRow.unstamped := by
      intro t ht
      rw [Store.core_tasks, List.filter_eq_self.2 fun r hr => by simpa using ht r hr]
    have hold : s.AllBefore s.nextInst := hs.inst_lt
    rw [← hall s'' (hrun'.old (fun call hc => hplain call (List.mem_append_right _ hc)) hold),
      ← hall s' (hrun.old (fun call hc => hplain call (List.mem_append_left _ hc)) hold), hcore]

/-- Two tasks run and a third one waits for both. -/
private def fanInRun : List Action :=
  [.submitDirect (TaskSubmission.new "a") 0, .submitDirect (TaskSubmission.new "b") 0,
    .submitDirect { TaskSubmission.new "c" with dependencies := [1, 2] } 0, .claimTask 1 0, .claimTask 2 0]

private def fanIn : Store := execAll sampleSha256 openMemory fanInRun

/-- A completion of every running task, each as a call of its own. -/
private def completeRunning (s : Store) : List CompletionCall :=
  (s.tasks.filter (·.status == .running)).map fun r => .one (rowToTaskRecord r, {}) 1

theorem fanIn_reported_once : ∃ results s', runCalls (completeRunning fanIn) fanIn = (.ok results, s') ∧
    (unblockedIds results.flatten).count 3 = 1 := by
  have hreach : Reachable sampleSha256 fanIn :=
    (Runs.start openMemory_fresh).list fanInRun ⟨trivial, trivial, trivial, trivial, trivial, trivial⟩
  rcases h : runCalls (completeRunning fanIn) fanIn with ⟨e | results, s'⟩
  · have hok : (runCalls (completeRunning fanIn) fanIn).1.toBool = true := by decide +kernel
    rw [h] at hok
    cases hok
  · obtain ⟨r, hr, hid, hst⟩ : ∃ r ∈ fanIn.tasks, r.id = 3 ∧ r.status = .blocked := by decide +kernel
    obtain ⟨-, -, hfreed⟩ := (resolution_exact (ReachableVia.schema hreach) (by decide +kernel)
      (by decide +kernel) h).1 r hr hst
    rw [hid] at hfreed
    exact ⟨results, s', rfl, (hfreed (by decide +kernel)).1⟩

/-- Two recurring tasks run. -/
private def recurringRun : List Action :=
  let every : Option RecurringSchedule := some
    { interval := ⟨60000000000⟩, initialDelay := none, maxExecutions := none }
  [.submitDirect { TaskSubmission.new "a" with recurring := every } 0,
    .submitDirect { TaskSubmission.new "b" with recurring := every } 0, .claimTask 1 0, .claimTask 2 0]

private def twoRecurring : Store := execAll sampleSha256 openMemory recurringRun

/-- Their next instances get other ids when they complete in another order. -/
theorem next_instances_depend_on_order :
    ¬ ∀ (s s' s'' : Store) (calls calls' : List CompletionCall) results results', Reachable sampleSha256 s →
      s.Completable (completedIds calls) → (completedIds calls).Nodup → runCalls calls s = (.ok results, s') →
      runCalls calls' s = (.ok results', s'') → (completedIds calls').Perm (completedIds calls) →
      s''.tasks.map TaskRow.untimed = s'.tasks.map TaskRow.untimed := by
  intro h
  have hreach : Reachable sampleSha256 twoRecurring :=
    (Runs.start openMemory_fresh).list recurringRun ⟨trivial, trivial, trivial, trivial, trivial⟩
  rcases h₁ : runCalls (completeRunning twoRecurring) twoRecurring with ⟨e | results, s'⟩
  · have hok : (runCalls (completeRunning twoRecurring) twoRecurring).1.toBool = true := by decide +kernel
    rw [h₁] at hok
    cases hok
  · rcases h₂ : runCalls (completeRunning twoRecurring).reverse twoRecurring with ⟨e | results', s''⟩
    · have hok : (runCalls (completeRunning twoRecurring).reverse twoRecurring).1.toBool = true := by decide +kernel
      rw [h₂] at hok
      cases hok
    · have hsame := h _ _ _ _ _ _ _ hreach (by decide +kernel) (by decide +kernel) h₁ h₂ (by decide +kernel)
      have hids : s''.ids = s'.ids := by
        have := congrArg (List.map TaskRow.id) hsame
        rwa [List.map_map, List.map_map] at this
      have h₁' : (runCalls (completeRunning twoRecurring) twoRecurring).2.ids = [3, 4] := by decide +kernel
      have h₂' : (runCalls (completeRunning twoRecurring).reverse twoRecurring).2.ids = [2, 3] := by decide +kernel
      rw [h₁] at h₁'
      rw [h₂] at h₂'
      exact absurd (h₂'.symm.trans (hids.trans h₁')) (by decide)

end Calls

end Taskmill
