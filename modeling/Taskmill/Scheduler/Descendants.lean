import Taskmill.Scheduler.Cancel

/-!
# Descendants of a cancelled task

After the cancellation of a task, the fail-fast failure of a parent or a supersede, no descendant should be active,
and every one that was should be in the history as cancelled.  `cancel_children` goes one level down and selects the
pending and paused children; of the running and waiting ones only those in the active map are cancelled, and the
fail-fast branch deletes these without a history row.  Blocked children and grandchildren stay.
-/

namespace Taskmill

open Transact

/-- The row has the task `id` among its ancestors. -/
inductive Store.Descends (s : Store) (id : Int) : TaskRow → Prop
  | child {r : TaskRow} (hr : r ∈ s.tasks) (hparent : r.parentId = some id) : s.Descends id r
  | deeper {p r : TaskRow} (hp : s.Descends id p) (hr : r ∈ s.tasks) (hparent : r.parentId = some p.id) :
  s.Descends id r

/-- The row is gone, and the history has it as cancelled. -/
structure Store.Settled (s : Store) (r : TaskRow) : Prop where
  gone : ∀ r' ∈ s.tasks, r'.inst ≠ r.inst
  logged : ∃ h ∈ s.taskHistory, h.inst = r.inst ∧ h.status = .cancelled

/-- From `s` to `s'` all descendants of the task have been cancelled. -/
structure Store.Cleared (id : Int) (s s' : Store) : Prop where
  none : ∀ r, ¬ s'.Descends id r
  settled : ∀ r, s.Descends id r → s'.Settled r

/-- All descendants are children that wait in the queue. -/
def Store.ChildrenQueued (s : Store) (id : Int) : Prop :=
  ∀ r, s.Descends id r → r.parentId = some id ∧ r.pendingOrPaused = true

/-- All descendants are children that wait in the queue or whose execution is in the active map. -/
def Control.ChildrenAtHand (σ : Control) (id : Int) : Prop :=
  ∀ r, σ.store.Descends id r → r.parentId = some id ∧
    (r.pendingOrPaused = true ∨ (r.status = .running ∨ r.status = .waiting) ∧
      ∃ task, σ.active.find? (·.id == r.id) = some task ∧ task.inst = r.inst)

section Settled

variable {s s' : Store} {r : TaskRow} {id now : Int}

theorem Store.Descends.mem (h : s.Descends id r) : r ∈ s.tasks := by
  cases h with
  | child hr _ => exact hr
  | deeper _ hr _ => exact hr

theorem Store.Settled.thins (h : s.Settled r) (ht : s.Thins s') : s'.Settled r := by
  refine ⟨fun r' hr' hinst => ?_, ?_⟩
  · obtain ⟨r₀, hr₀, _, hinst₀, _⟩ := ht.rows r' hr'
    exact h.gone r₀ hr₀ (hinst₀.trans hinst)
  · obtain ⟨row, hrow, hlog⟩ := h.logged
    exact ⟨row, ht.history row hrow, hlog⟩

/-- The descendants after thinning are descendants before it. -/
private theorem Store.Descends.of_thins (ht : s.Thins s') (h : s'.Descends id r) :
    ∃ r₀, s.Descends id r₀ ∧ r₀.id = r.id ∧ r₀.inst = r.inst := by
  induction h with
  | child hr hparent =>
    obtain ⟨r₀, hr₀, hid, hinst, hparent₀⟩ := ht.rows _ hr
    exact ⟨r₀, .child hr₀ (hparent₀.trans hparent), hid, hinst⟩
  | deeper _ hr hparent ih =>
    obtain ⟨p₀, hp₀, hpid, _⟩ := ih
    obtain ⟨r₀, hr₀, hid, hinst, hparent₀⟩ := ht.rows _ hr
    refine ⟨r₀, .deeper hp₀ hr₀ ?_, hid, hinst⟩
    rw [hparent₀, hparent, hpid]

/-- Thinning that settles every descendant clears the task. -/
theorem Store.Cleared.of_thins (ht : s.Thins s') (h : ∀ r, s.Descends id r → s'.Settled r) : s.Cleared id s' := by
  refine ⟨fun r' hr' => ?_, h⟩
  obtain ⟨r, hr, _, hinst⟩ := hr'.of_thins ht
  exact (h r hr).gone r' hr'.mem hinst.symm

end Settled

/-! ### The children in the queue -/

section Children

variable {s s' : Store} {r : TaskRow} {id now : Int}

/-- What `cancel_children` returns and settles. -/
theorem cancelChildren_ok (hschema : s.Schema) {ids : List Int} (h : cancelChildren id now s = (.ok ids, s')) :
    ids = (s.tasks.filter fun r => r.parentId == some id && (r.status == .running || r.status == .waiting)).map
      (·.id) ∧
      ∀ r ∈ s.tasks, r.parentId = some id → r.pendingOrPaused = true → s'.Settled r := by
  have hrun : (cancelChildrenTx id (s.cancellableChildren id) now >>= fun _ => pure (f := Sql)
      ((s.tasks.filter fun r => r.parentId == some id && (r.status == .running || r.status == .waiting)).map
        (·.id))) s =
      (.ok ids, s') := h
  obtain ⟨_, s₁, htx, hrest⟩ := Txn.bind_ok hrun
  obtain ⟨hids, rfl⟩ := Prod.mk.inj hrest
  refine ⟨(Except.ok.inj hids).symm, fun r hr hparent hqueued => ?_⟩
  have hread : r ∈ s.cancellableChildren id := List.mem_filter.2 ⟨hr, by simp [hparent, hqueued]⟩
  have hne : (s.cancellableChildren id).isEmpty = false := List.isEmpty_eq_false_iff_exists_mem.2 ⟨r, hread⟩
  rw [cancelChildrenTx, hne] at htx
  obtain ⟨_, s₂, hloop, hdelete⟩ := Txn.bind_ok (transaction_ok htx)
  obtain ⟨rows, tags, rfl, hrows⟩ := mapList_log (R := fun r row => row.inst = r.inst ∧ row.status = .cancelled)
    (fun r t u t' hlog => by
      obtain ⟨tags, rfl⟩ := insertHistory_leaves hlog
      exact ⟨_, tags, rfl, rfl, rfl⟩) hloop
  obtain ⟨_, rfl⟩ := Prod.mk.inj hdelete
  refine ⟨fun r' hr' hinst => ?_, ?_⟩
  · -- the only row of this life is a child in the queue, and these are deleted
    obtain ⟨hr', hkept⟩ := List.mem_filter.1 hr'
    obtain rfl : r' = r := List.inj_on_of_nodup_map hschema.insts hr' hr hinst
    simp [hparent, hqueued] at hkept
  · obtain ⟨row, hrow, hinst, hstatus⟩ := exists_of_forall₂ hrows hread
    exact ⟨row, List.mem_append_right _ hrow, hinst, hstatus⟩

/-- Without orphaned history tags the children can be cancelled. -/
theorem cancelChildren_total : Txn.Total Store.HistoryTagsOwned (cancelChildren id now) fun _ =>
    Store.HistoryTagsOwned := by
  have htx : ∀ rows, Txn.Total Store.HistoryTagsOwned (cancelChildrenTx id rows now) fun _ =>
      Store.HistoryTagsOwned := by
    intro rows
    unfold cancelChildrenTx
    split
    · exact .pure fun _ hs => hs
    · refine Txn.Total.atomically (Txn.Total.bind (Txn.Total.mapList (fun _ => insertHistory_total) _) fun _ => ?_)
      exact .modify fun _ hs => hs
  refine Txn.Total.bind (Q := fun _ => Store.HistoryTagsOwned) (.map_get fun _ hs => hs) fun runningIds => ?_
  refine Txn.Total.bind (Q := fun _ => Store.HistoryTagsOwned) (.map_get fun _ hs => hs) fun pendingRows => ?_
  exact Txn.Total.bind (htx _) fun _ => .pure fun _ hs => hs

end Children

/-! ### The children in the active map -/

section Active

variable {σ σ' : Control} {task : TaskRecord} {r : TaskRow} {id now : Int}

theorem cancelToHistoryWithRecord_total :
    Txn.Total Store.HistoryTagsOwned (cancelToHistoryWithRecord task now) fun _ => Store.HistoryTagsOwned := by
  have htx : Txn.Total Store.HistoryTagsOwned (cancelToHistoryWithRecordTx task now) fun _ =>
      Store.HistoryTagsOwned :=
    .atomically (.bind insertHistory_total fun _ => .modify fun _ hs => hs)
  have hcascade : Txn.Total Store.HistoryTagsOwned (failDependents task.id now) fun _ => Store.HistoryTagsOwned :=
    .atomically fun s hs => failDependentsInner_total _ task.id s hs
  exact .bind htx fun _ => hcascade.attempt

/-- A record of the life of `r` is written to the history, and the rows of its id go. -/
private theorem cancelToHistoryWithRecord_settles {s s' : Store} (hinst : task.inst = r.inst)
    (hid : ∀ r' ∈ s.tasks, r'.inst = r.inst → r'.id = task.id) {u : Unit}
    (h : cancelToHistoryWithRecord task now s = (.ok u, s')) : s'.Settled r := by
  obtain ⟨_, s₁, htx, hcascade⟩ := Txn.bind_ok h
  have hsettled : s₁.Settled r := by
    obtain ⟨_, s₂, hlog, hdelete⟩ := Txn.bind_ok (transaction_ok htx)
    obtain ⟨tags, rfl⟩ := insertHistory_leaves hlog
    obtain ⟨_, rfl⟩ := Prod.mk.inj hdelete
    refine ⟨fun r' hr' hlife => ?_, ⟨_, List.mem_append_right _ (List.mem_singleton_self _), hinst, rfl⟩⟩
    obtain ⟨hr', hkept⟩ := List.mem_filter.1 hr'
    simp [hid r' hr' hlife] at hkept
  have hthins : s₁.Thins s' := by
    have h : s₁.Thins (Txn.attempt (failDependents task.id now) s₁).2 := (thins_failDependents task.id).attempt s₁
    rwa [hcascade] at h
  exact hsettled.thins hthins

/-- An execution of the life of `r` that is in the active map. -/
private theorem cancelActive_settles (hfind : σ.active.find? (·.id == id) = some task) (hinst : task.inst = r.inst)
    (hid : ∀ r' ∈ σ.store.tasks, r'.inst = r.inst → r'.id = id) {b : Bool}
    (h : cancelActive now id σ = (.ok b, σ')) : σ'.store.Settled r := by
  have htask : task.id = id := by simpa using List.find?_some hfind
  have hrun : (onStore (cancelToHistoryWithRecord task now) >>= fun _ => pure (f := Sched) true)
      { σ with active := σ.active.remove id } = (.ok b, σ') := by
    rw [← h, cancelActive, Txn.bind_of_ok (x := removeActive id) rfl, hfind]
  obtain ⟨_, σ₁, hstore, hpure⟩ := Txn.bind_ok hrun
  obtain ⟨hok, rfl⟩ := Txn.zoom_ok hstore
  obtain ⟨_, rfl⟩ := Prod.mk.inj hpure
  exact cancelToHistoryWithRecord_settles hinst (by rwa [htask]) hok

theorem cancelActive_active : (cancelActive now id σ).2.active = σ.active.remove id := by
  rw [cancelActive, Txn.bind_of_ok (x := removeActive id) rfl]
  cases σ.active.find? (·.id == id) with
  | none => rfl
  | some record =>
    have hrest : ((onStore (cancelToHistoryWithRecord record now) >>= fun _ => pure (f := Sched) true)
        { σ with active := σ.active.remove id }).2 =
        (onStore (cancelToHistoryWithRecord record now) { σ with active := σ.active.remove id }).2 :=
      Txn.bind_pure_state _ _ _
    exact congrArg Control.active hrest

private theorem find?_remove {active : ActiveTaskMap} {c : Int} (hne : c ≠ id) :
    (active.remove id).find? (·.id == c) = active.find? (·.id == c) := by
  unfold ActiveTaskMap.remove
  rw [List.find?_filter]
  congr 1
  funext task
  by_cases hc : task.id = c
  · simp [hc, hne]
  · simp [hc]

/-- A loop over the ids of running children settles those whose execution is in the active map. -/
private theorem loop_settles {β : Type} {f : Int → Sched β} {I : Control → Prop} (hthin : ∀ c, Sched.Thinning (f c))
    (hactive : ∀ c σ, (f c σ).2.active = σ.active.remove c) (hkeep : ∀ c σ, I σ → I (f c σ).2)
    (hsettle : ∀ {c σ σ' b task r}, I σ → σ.active.find? (·.id == c) = some task → task.inst = r.inst →
      (∀ r' ∈ σ.store.tasks, r'.inst = r.inst → r'.id = c) → f c σ = (.ok b, σ') → σ'.store.Settled r)
    {ids : List Int} (hnodup : ids.Nodup) {σ σ' : Control} (hI : I σ) {bs : List β}
    (h : Txn.mapList f ids σ = (.ok bs, σ')) {c : Int} (hc : c ∈ ids) {task : TaskRecord} {r : TaskRow}
    (hfind : σ.active.find? (·.id == c) = some task) (hinst : task.inst = r.inst)
    (hid : ∀ r' ∈ σ.store.tasks, r'.inst = r.inst → r'.id = c) : σ'.store.Settled r := by
  induction ids generalizing σ bs with
  | nil => cases hc
  | cons first ids ih =>
    obtain ⟨b, σ₁, hfirst, h⟩ := Txn.bind_ok h
    obtain ⟨bs', σ₂, hrest, h⟩ := Txn.bind_ok h
    obtain ⟨_, rfl⟩ := Prod.mk.inj h
    have hσ₁ : (f first σ).2 = σ₁ := by rw [hfirst]
    obtain ⟨hfirst_notin, hnodup⟩ := List.nodup_cons.1 hnodup
    rcases List.mem_cons.1 hc with rfl | hc
    · have hthins : σ₁.store.Thins σ₂.store := by
        have h := Sched.Thinning.mapList hthin ids σ₁
        rwa [hrest] at h
      exact (hsettle hI hfind hinst hid hfirst).thins hthins
    · -- the entry is still there when its turn comes
      have hne : c ≠ first := fun heq => hfirst_notin (heq ▸ hc)
      refine ih hnodup (hσ₁ ▸ hkeep first σ hI) hrest hc ?_ fun r' hr' hlife => ?_
      · rw [← hσ₁, hactive, find?_remove hne]
        exact hfind
      · have hthins : σ.store.Thins σ₁.store := hσ₁ ▸ hthin first σ
        obtain ⟨r₀, hr₀, hid₀, hinst₀, _⟩ := hthins.rows r' hr'
        rw [← hid₀]
        exact hid r₀ hr₀ (hinst₀.trans hlife)

theorem cancelActive_total : Txn.Total (fun σ : Control => σ.store.HistoryTagsOwned) (cancelActive now id)
    fun _ σ => σ.store.HistoryTagsOwned := by
  intro σ hσ
  rw [cancelActive, Txn.bind_of_ok (x := removeActive id) rfl]
  cases σ.active.find? (·.id == id) with
  | none => exact ⟨false, _, rfl, hσ⟩
  | some record =>
    have hrest : Txn.Total (fun σ : Control => σ.store.HistoryTagsOwned)
        (onStore (cancelToHistoryWithRecord record now) >>= fun _ => pure (f := Sched) true)
        fun _ σ => σ.store.HistoryTagsOwned :=
      .bind (cancelToHistoryWithRecord_total.zoom fun _ _ => rfl) fun _ => .pure fun _ h => h
    exact hrest { σ with active := σ.active.remove id } hσ

end Active

/-! ### The three calls -/

section Calls

variable {σ σ' : Control} {id now : Int}

/-- The running and waiting children, by id. -/
private theorem runningChildIds_nodup {s : Store} (hschema : s.Schema) (p : TaskRow → Bool) :
    ((s.tasks.filter p).map (·.id)).Nodup :=
  List.Nodup.sublist (List.filter_sublist.map _) hschema.ids

/-- The cancelled children and a loop over the others settle all descendants. -/
private theorem children_settled {β : Type} {f : Int → Sched β} {I : Control → Prop}
    (hthin : ∀ c, Sched.Thinning (f c)) (hactive : ∀ c σ, (f c σ).2.active = σ.active.remove c)
    (hkeep : ∀ c σ, I σ → I (f c σ).2)
    (hsettle : ∀ {c σ σ' b task r}, I σ → σ.active.find? (·.id == c) = some task → task.inst = r.inst →
      (∀ r' ∈ σ.store.tasks, r'.inst = r.inst → r'.id = c) → f c σ = (.ok b, σ') → σ'.store.Settled r)
    (hschema : σ.store.Schema) (hhand : σ.ChildrenAtHand id) {ids : List Int} {σ₁ σ₂ : Control} {bs : List β}
    (hchildren : onStore (cancelChildren id now) σ = (.ok ids, σ₁)) (hI : I σ₁)
    (hloop : Txn.mapList f ids σ₁ = (.ok bs, σ₂)) : ∀ r, σ.store.Descends id r → σ₂.store.Settled r := by
  intro r hr
  obtain ⟨hok, rfl⟩ := Txn.zoom_ok hchildren
  obtain ⟨rfl, hqueued⟩ := cancelChildren_ok hschema hok
  obtain ⟨hparent, hwaits | ⟨hruns, task, hfind, hinst⟩⟩ := hhand r hr
  · have hthins := Sched.Thinning.mapList hthin ((σ.store.tasks.filter fun r => r.parentId == some id &&
      (r.status == .running || r.status == .waiting)).map (·.id))
        { σ with store := (cancelChildren id now σ.store).2 }
    rw [hloop] at hthins
    exact (hqueued r hr.mem hparent hwaits).thins hthins
  · have hmem : r.id ∈ (σ.store.tasks.filter fun r => r.parentId == some id &&
        (r.status == .running || r.status == .waiting)).map (·.id) :=
      List.mem_map_of_mem (List.mem_filter.2 ⟨hr.mem, by simp [hparent, hruns]⟩)
    refine loop_settles hthin hactive hkeep hsettle (runningChildIds_nodup hschema _) hI hloop hmem hfind hinst ?_
    intro r' hr' hlife
    have hthins : σ.store.Thins (cancelChildren id now σ.store).2 := thins_cancelChildren σ.store
    obtain ⟨r₀, hr₀, hid₀, hinst₀, _⟩ := hthins.rows r' hr'
    rw [← hid₀]
    exact congrArg _ (List.inj_on_of_nodup_map hschema.insts hr₀ hr.mem (hinst₀.trans hlife))

/-- After the children the task itself is cancelled. -/
theorem thinning_cancelSelf : Sched.Thinning (do
    if ← cancelActive now id then pure true
    else onStore (cancelToHistory id now) : Sched Bool) := by
  refine .bind (.cancelActive id) fun found => ?_
  split
  · exact .pure
  · exact .onStore thins_cancelToHistory

private theorem cancel_cleared (hschema : σ.store.Schema) (hhand : σ.ChildrenAtHand id) {b : Bool}
    (h : cancel id now σ = (.ok b, σ')) : σ.store.Cleared id σ'.store := by
  have hthins : σ.store.Thins σ'.store := by
    have hcancel : Sched.Thinning (cancel id now) :=
      .bind (.onStore thins_cancelChildren) fun _ => .bind (.mapList Sched.Thinning.cancelActive _) fun _ =>
        thinning_cancelSelf
    have hσ := hcancel σ
    rwa [h] at hσ
  obtain ⟨ids, σ₁, hchildren, h⟩ := Txn.bind_ok h
  obtain ⟨bs, σ₂, hloop, hself⟩ := Txn.bind_ok h
  refine .of_thins hthins fun r hr => ?_
  have hsettled := children_settled (I := fun _ => True) Sched.Thinning.cancelActive (fun _ _ => cancelActive_active)
    (fun _ _ h => h) (fun _ hfind hinst hid hok => cancelActive_settles hfind hinst hid hok) hschema hhand
      hchildren trivial
    hloop r hr
  have hrest : σ₂.store.Thins σ'.store := by
    have hσ₂ := @thinning_cancelSelf id now σ₂
    rwa [hself] at hσ₂
  exact hsettled.thins hrest

private theorem supersede_cleared (hschema : σ.store.Schema) (howned : σ.store.HistoryTagsOwned)
    (hhand : σ.ChildrenAtHand id) :
    σ.store.Cleared id (handleSupersededActive id now σ).2.store := by
  have hattempt : ∀ c, Sched.Thinning (Txn.attempt (cancelActive now c)) :=
    fun c => Txn.Always.attempt (Sched.Thinning.cancelActive c)
  have hthins : σ.store.Thins (handleSupersededActive id now σ).2.store := by
    have hsupersede : Sched.Thinning (handleSupersededActive id now) :=
      .bind (.ifOk (.onStore thins_cancelChildren) fun _ => .bind (.mapList hattempt _) fun _ => .pure) fun _ =>
        .bind (.removeActive id) fun _ => .pure
    exact hsupersede σ
  refine .of_thins hthins fun r hr => ?_
  have htotal : Txn.Total (fun σ : Control => σ.store.HistoryTagsOwned) (onStore (cancelChildren id now))
      fun _ σ => σ.store.HistoryTagsOwned := cancelChildren_total.zoom fun _ _ => rfl
  obtain ⟨ids, σ₁, hchildren, howned₁⟩ := htotal σ howned
  have hrounds : Txn.Total (fun σ : Control => σ.store.HistoryTagsOwned)
      (Txn.mapList (fun c => Txn.attempt (cancelActive now c)) ids) fun _ σ => σ.store.HistoryTagsOwned :=
    .mapList (fun c => cancelActive_total.attempt) ids
  obtain ⟨bs, σ₂, hloop, _⟩ := hrounds σ₁ howned₁
  have hsettled := children_settled (I := fun σ : Control => σ.store.HistoryTagsOwned) hattempt
    (fun _ _ => cancelActive_active)
    (fun c σ hσ => by
      obtain ⟨_, σ', hok, howned'⟩ := @cancelActive_total c now σ hσ
      show (cancelActive now c σ).2.store.HistoryTagsOwned
      rw [hok]
      exact howned')
    (fun {c σ σ' b task r} hσ hfind hinst hid hrun => by
      obtain ⟨_, σ₁, hok, _⟩ := @cancelActive_total c now σ hσ
      obtain ⟨_, rfl⟩ := Prod.mk.inj hrun
      rw [hok]
      exact cancelActive_settles hfind hinst hid hok)
    hschema hhand hchildren howned₁ hloop r hr
  have hstore : (handleSupersededActive id now σ).2.store = σ₂.store := by
    rw [handleSupersededActive, Txn.bind_apply, Txn.ifOk_of_ok hchildren, Txn.bind_of_ok hloop]
    rfl
  rw [hstore]
  exact hsettled

private theorem failFast_cleared {parent : TaskRecord} {taskId : Int} {message : String} (hschema : σ.store.Schema)
    (howned : σ.store.HistoryTagsOwned) (hqueued : σ.store.ChildrenQueued parent.id) :
    σ.store.Cleared parent.id (failFast parent taskId message now σ).2.store := by
  have hfail : Sched.Thinning (Txn.attempt (onStore
      (failWithRecordTx parent s!"child task {taskId} failed: {message}" false 0 {} {} now))) :=
    Txn.Always.attempt (Sched.Thinning.onStore thins_failWithRecordTx)
  obtain ⟨ids, s₁, hok, _⟩ := @cancelChildren_total parent.id now σ.store howned
  have hchildren : onStore (cancelChildren parent.id now) σ = (.ok ids, { σ with store := s₁ }) := by
    unfold onStore Txn.zoom
    rw [hok]
  have hrest : s₁.Thins (failFast parent taskId message now σ).2.store := by
    rw [failFast, Txn.bind_apply, Txn.ifOk_of_ok hchildren]
    -- whatever comes after `cancel_children` thins the store out
    refine Sched.Thinning.bind (.bind (.mapList (fun rid => .bind (.removeActive rid) fun entry => ?_) ids) fun _ =>
      .pure) (fun _ => hfail) { σ with store := s₁ }
    cases entry with
    | none => exact .pure
    | some record => exact .onStore (.modify fun s => .of_subset (fun r hr => List.mem_of_mem_filter hr) rfl)
  have hthins : σ.store.Thins s₁ := by
    have h : σ.store.Thins (cancelChildren parent.id now σ.store).2 := thins_cancelChildren σ.store
    rwa [hok] at h
  refine .of_thins (hthins.trans hrest) fun r hr => ?_
  obtain ⟨hparent, hwaits⟩ := hqueued r hr
  exact ((cancelChildren_ok hschema hok).2 r hr.mem hparent hwaits).thins hrest

end Calls

/-- A parent with a pending child and a running one. -/
private def familyRun : List Action :=
  [.submitDirect (.new "p") 0, .submitDirect { TaskSubmission.new "a" with parentId := some 1 } 1,
    .submitDirect { TaskSubmission.new "b" with parentId := some 1 } 2, .claimTask 3 3]

private def family : Control where
  store := execAll sampleSha256 openMemory familyRun
  active := ((execAll sampleSha256 openMemory familyRun).tasks.filter (·.id == 3)).map rowToTaskRecord
  paused := false
  modulePaused := fun _ => false

private theorem family_reachable : Reachable sampleSha256 family.store :=
  Runs.list (.start openMemory_fresh) familyRun ⟨trivial, trivial, trivial, trivial, trivial⟩

private theorem family_atHand : family.ChildrenAtHand 1 := by
  have hflat : ∀ p ∈ family.store.tasks, ∀ r ∈ family.store.tasks, r.parentId = some p.id → p.parentId = none := by
    decide +kernel
  have hchild : ∀ r, family.store.Descends 1 r → r.parentId = some 1 := by
    intro r hr
    induction hr with
    | child _ hparent => exact hparent
    | deeper hp hr hparent ih =>
      rw [hflat _ hp.mem _ hr hparent] at ih
      cases ih
  have hrows : ∀ r ∈ family.store.tasks, r.parentId = some 1 → (r.pendingOrPaused = true ∨
      (r.status = .running ∨ r.status = .waiting) ∧
        (family.active.find? (·.id == r.id)).map (·.inst) = some r.inst) := by
    decide +kernel
  intro r hr
  refine ⟨hchild r hr, ?_⟩
  rcases hrows r hr.mem (hchild r hr) with hwaits | ⟨hruns, hentry⟩
  · exact .inl hwaits
  · exact .inr ⟨hruns, Option.map_eq_some_iff.1 hentry⟩

/-- A parent with a pending child and one that depends on it. -/
private def chainedRun : List Action :=
  [.submitDirect (.new "p") 0, .submitDirect { TaskSubmission.new "a" with parentId := some 1 } 1,
    .submitDirect { TaskSubmission.new "b" with parentId := some 1, dependencies := [2] } 2]

private def chained : Control where
  store := execAll sampleSha256 openMemory chainedRun
  active := []
  paused := false
  modulePaused := fun _ => false

end Taskmill
