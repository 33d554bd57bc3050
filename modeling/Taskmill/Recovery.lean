import Taskmill.Frame

/-!
# Crash recovery

`recover_running` (`src/store/mod.rs`) runs over whatever a crash has left.  Running rows become pending, open
pauses are closed, stale edges are removed and, if there were any, blocked rows without an edge become pending;
nothing else changes, and a second recovery finds nothing to do (`recoverRunning_recovers`).

The four statements are not one transaction.  Recovery that is interrupted can be started again before its third
statement and after its fourth, but not between them: the stale edges are gone then, and their number is what the
fourth statement waits for (`recoverRunning_deleteDanglingEdges_iff`).
-/

namespace Taskmill

/-- There is a stale edge, and the edges of the task are all stale. -/
def Store.Freed (s : Store) (id : Int) : Prop :=
  (∃ e ∈ s.taskDeps, e.2 ∉ s.ids) ∧ ∀ e ∈ s.taskDeps, e.1 = id → e.2 ∉ s.ids

/-- What becomes of a row; `freed` says whether it counts as unblocked. -/
structure TaskRow.RecoversTo (now : Int) (freed : Prop) (r r' : TaskRow) : Prop where
  running : r.status = .running → r'.status = .pending ∧ r'.startedAt = none
  blocked : r.status = .blocked → (freed → r'.status = .pending) ∧ (¬freed → r'.status = .blocked)
  others : r.status ≠ .running → r.status ≠ .blocked → r'.status = r.status
  startedAt : r.status ≠ .running → r'.startedAt = r.startedAt
  pauseDuration : (∀ since, r.pausedAtMs = some since → since ≤ now) → r.pauseDurationMs ≤ r'.pauseDurationMs
  columns : { r' with
    status := r.status, startedAt := r.startedAt, pauseDurationMs := r.pauseDurationMs, pausedAtMs :=
      r.pausedAtMs } = r

/-- What becomes of a store. -/
structure Store.RecoversTo (s : Store) (now : Int) (s' : Store) : Prop where
  rows : List.Forall₂ (fun r r' => r.RecoversTo now (s.Freed r.id) r') s.tasks s'.tasks
  noneRunning : ∀ r ∈ s'.tasks, r.status ≠ .running
  pausesClosed : ∀ r ∈ s'.tasks, r.status = .paused → r.pausedAtMs = none
  taskDeps : s'.taskDeps = s.taskDeps.filter fun e => s.ids.contains e.2
  edges : ∀ e ∈ s'.taskDeps, e.2 ∈ s'.ids
  others : { s' with tasks := s.tasks, taskDeps := s.taskDeps } = s

section Statements

variable {s : Store} {now : Int}

/-- An `UPDATE` that selects no row. -/
theorem Store.updateTasks_of_none {p : TaskRow → Bool} {f : TaskRow → TaskRow} (h : ∀ r ∈ s.tasks, p r = false) :
    s.updateTasks p f = s := by
  rw [Store.updateTasks_congr h, Store.updateTasks]
  simp

theorem ids_settled : (s.resetRunning.settlePauses now).ids = s.ids := by
  have hreset : s.resetRunning.ids = s.ids := s.ids_updateTasks _ fun _ => rfl
  have hsettle : (s.resetRunning.settlePauses now).ids = s.resetRunning.ids := Store.ids_updateTasks _ _ fun _ => rfl
  exact hsettle.trans hreset

/-- Whether the third statement removes an edge. -/
theorem deleteDanglingEdges_length : (s.deleteDanglingEdges.taskDeps.length == s.taskDeps.length) = true ↔
    ∀ e ∈ s.taskDeps, e.2 ∈ s.ids := by
  rw [beq_iff_eq, Store.deleteDanglingEdges, List.length_filter_eq_length_iff]
  simp

theorem deleteDanglingEdges_of_live (h : ∀ e ∈ s.taskDeps, e.2 ∈ s.ids) : s.deleteDanglingEdges = s := by
  have hedges : s.taskDeps.filter (fun e => s.ids.contains e.2) = s.taskDeps := by
    rw [List.filter_eq_self]
    simpa using h
  rw [Store.deleteDanglingEdges, hedges]

theorem deleteDanglingEdges_live : ∀ e ∈ s.deleteDanglingEdges.taskDeps, e.2 ∈ s.deleteDanglingEdges.ids := by
  intro e he
  have := (List.mem_filter.1 he).2
  rwa [List.contains_iff_mem] at this

/-- Recovery has nothing to do in a store without running rows, open pauses and stale edges. -/
theorem recoverRunning_of_clean (hrunning : ∀ r ∈ s.tasks, (r.status == .running) = false)
    (hpauses : ∀ r ∈ s.tasks, (r.status == .paused && r.pausedAtMs.isSome) = false)
    (hedges : ∀ e ∈ s.taskDeps, e.2 ∈ s.ids) :
    s.recoverRunning now = s := by
  have hreset : s.resetRunning = s := Store.updateTasks_of_none hrunning
  have hsettle : s.settlePauses now = s := Store.updateTasks_of_none hpauses
  rw [Store.recoverRunning, hreset, hsettle, deleteDanglingEdges_of_live hedges]
  simp

end Statements

section Recovery

variable {s : Store} {now : Int}

/-- The first two statements, on one row. -/
def TaskRow.settled (now : Int) (r : TaskRow) : TaskRow :=
  let r := if r.status == .running then { r with status := .pending, startedAt := none } else r
  if r.status == .paused && r.pausedAtMs.isSome then
    { r with pauseDurationMs := r.pauseDurationMs + (now - r.pausedAtMs.getD now), pausedAtMs := none }
  else r

theorem settled_tasks : (s.resetRunning.settlePauses now).tasks = s.tasks.map (TaskRow.settled now) := by
  rw [Store.settlePauses, Store.resetRunning, Store.updateTasks_tasks, Store.updateTasks_tasks, List.map_map]
  rfl

theorem TaskRow.settled_id (r : TaskRow) : (r.settled now).id = r.id := by
  unfold TaskRow.settled
  dsimp only
  split <;> split <;> rfl

theorem TaskRow.settled_blocked (r : TaskRow) : (r.settled now).status = .blocked ↔ r.status = .blocked := by
  unfold TaskRow.settled
  cases hst : r.status with
  | running => simp
  | paused => cases hp : r.pausedAtMs <;> simp [hst, hp]
  | pending => simp [hst]
  | waiting => simp [hst]
  | blocked => simp [hst]

/-- A row that is not unblocked. -/
theorem TaskRow.settled_recovers {freed : Prop} {r : TaskRow} (h : r.status = .blocked → ¬freed) :
    r.RecoversTo now freed (r.settled now) := by
  by_cases hrun : r.status = .running
  · have he : r.settled now = { r with status := .pending, startedAt := none } := by simp [TaskRow.settled, hrun]
    rw [he]
    exact ⟨fun _ => ⟨rfl, rfl⟩, fun hb => (by simp [hrun] at hb), fun hn => absurd hrun hn, fun hn => absurd hrun hn,
      fun _ => le_refl _, rfl⟩
  · by_cases hp : r.status = .paused ∧ r.pausedAtMs.isSome
    · have he : r.settled now = { r with
          pauseDurationMs := r.pauseDurationMs + (now - r.pausedAtMs.getD now), pausedAtMs := none } := by
        simp [TaskRow.settled, hp.1, hp.2]
      rw [he]
      refine ⟨fun hn => absurd hn hrun, fun hb => (by simp [hp.1] at hb), fun _ _ => rfl, fun _ => rfl,
        fun hclock => ?_, rfl⟩
      obtain ⟨since, hsince⟩ := Option.isSome_iff_exists.1 hp.2
      have := hclock since hsince
      simp only [hsince, Option.getD_some]
      omega
    · have he : r.settled now = r := by
        unfold TaskRow.settled
        simp only [beq_iff_eq, hrun, if_false, Bool.and_eq_true, hp]
      rw [he]
      exact ⟨fun hn => absurd hn hrun, fun hb => ⟨fun hf => absurd hf (h hb), fun _ => hb⟩, fun _ _ =>
        rfl, fun _ => rfl, fun _ => le_refl _, rfl⟩

/-- A row that is unblocked. -/
theorem TaskRow.unblocked_recovers {freed : Prop} {r : TaskRow} (hb : r.status = .blocked) (hf : freed) :
    r.RecoversTo now freed { r.settled now with status := .pending } := by
  have he : r.settled now = r := by simp [TaskRow.settled, hb]
  rw [he]
  exact ⟨fun hn => (by simp [hb] at hn), fun _ => ⟨fun _ => rfl, fun hn => absurd hf hn⟩, fun _ hn => absurd hb hn,
    fun _ => rfl, fun _ => le_refl _, rfl⟩

theorem TaskRow.settled_rest (r : TaskRow) :
    (r.settled now).status ≠ .running ∧ ((r.settled now).status = .paused → (r.settled now).pausedAtMs = none) := by
  unfold TaskRow.settled
  cases hst : r.status with
  | paused => cases hp : r.pausedAtMs <;> simp [hst, hp]
  | running => simp
  | pending => simp [hst]
  | waiting => simp [hst]
  | blocked => simp [hst]

theorem recoverRunning_of_live (h : ∀ e ∈ s.taskDeps, e.2 ∈ s.ids) :
    s.recoverRunning now = s.resetRunning.settlePauses now := by
  have hlive : ∀ e ∈ (s.resetRunning.settlePauses now).taskDeps, e.2 ∈ (s.resetRunning.settlePauses now).ids := by
    rw [ids_settled]
    exact h
  rw [Store.recoverRunning, deleteDanglingEdges_of_live hlive]
  simp

theorem recoverRunning_of_stale (h : ∃ e ∈ s.taskDeps, e.2 ∉ s.ids) :
    s.recoverRunning now = (s.resetRunning.settlePauses now).deleteDanglingEdges.unblockEdgeless := by
  have hstale : ¬∀ e ∈ (s.resetRunning.settlePauses now).taskDeps, e.2 ∈ (s.resetRunning.settlePauses now).ids := by
    rw [ids_settled]
    push Not
    exact h
  unfold Store.recoverRunning
  rw [if_neg (mt deleteDanglingEdges_length.1 hstale)]

/-- The rows that the fourth statement selects. -/
theorem edgeless_iff (h : ∃ e ∈ s.taskDeps, e.2 ∉ s.ids) {id : Int} :
    ((s.taskDeps.filter fun e => s.ids.contains e.2).any fun e => e.1 == id) = false ↔ s.Freed id := by
  rw [List.any_eq_false]
  constructor
  · intro hnone
    refine ⟨h, fun e he hid hlive => ?_⟩
    exact hnone e (List.mem_filter.2 ⟨he, by simpa using hlive⟩) (by simpa using hid)
  · intro hfreed e he
    obtain ⟨he, hlive⟩ := List.mem_filter.1 he
    simp only [beq_iff_eq]
    intro hid
    exact hfreed.2 e he hid (by simpa using hlive)

/-- Without stale edges. -/
theorem settled_recovers (h : ∀ e ∈ s.taskDeps, e.2 ∈ s.ids) :
    s.RecoversTo now (s.resetRunning.settlePauses now) where
  rows := by
    rw [settled_tasks, List.forall₂_map_right_iff, List.forall₂_same]
    intro r _
    refine TaskRow.settled_recovers fun _ hfreed => ?_
    obtain ⟨e, he, hstale⟩ := hfreed.1
    exact hstale (h e he)
  noneRunning := by
    rw [settled_tasks, List.forall_mem_map]
    exact fun r _ => r.settled_rest.1
  pausesClosed := by
    rw [settled_tasks, List.forall_mem_map]
    exact fun r _ => r.settled_rest.2
  taskDeps := by
    have hall : s.taskDeps.filter (fun e => s.ids.contains e.2) = s.taskDeps := by
      rw [List.filter_eq_self]
      simpa using h
    exact hall.symm
  edges := by
    rw [ids_settled]
    exact h
  others := rfl

/-- With stale edges. -/
theorem unblocked_recovers (h : ∃ e ∈ s.taskDeps, e.2 ∉ s.ids) :
    s.RecoversTo now (s.resetRunning.settlePauses now).deleteDanglingEdges.unblockEdgeless := by
  have hedges : (s.resetRunning.settlePauses now).deleteDanglingEdges.taskDeps = s.taskDeps.filter fun e =>
      s.ids.contains e.2 := by
    rw [Store.deleteDanglingEdges, ids_settled]
    rfl
  have htasks : (s.resetRunning.settlePauses now).deleteDanglingEdges.unblockEdgeless.tasks = s.tasks.map fun r =>
      if (r.settled now).status == .blocked &&
        !((s.taskDeps.filter fun e => s.ids.contains e.2).any fun e => e.1 == (r.settled now).id)
      then { r.settled now with status := .pending } else r.settled now := by
    rw [Store.unblockEdgeless, Store.updateTasks_tasks, hedges, Store.deleteDanglingEdges,
      settled_tasks, List.map_map]
    rfl
  refine ⟨?_, ?_, ?_, hedges, ?_, rfl⟩
  · rw [htasks, List.forall₂_map_right_iff, List.forall₂_same]
    intro r _
    rw [r.settled_id]
    split
    · rename_i hsel
      rw [Bool.and_eq_true, beq_iff_eq, TaskRow.settled_blocked, Bool.not_eq_true', edgeless_iff h] at hsel
      exact TaskRow.unblocked_recovers hsel.1 hsel.2
    · rename_i hsel
      rw [Bool.and_eq_true, beq_iff_eq, TaskRow.settled_blocked, Bool.not_eq_true', edgeless_iff h] at hsel
      exact TaskRow.settled_recovers fun hb hf => hsel ⟨hb, hf⟩
  · rw [htasks, List.forall_mem_map]
    intro r _
    split
    · simp
    · exact r.settled_rest.1
  · rw [htasks, List.forall_mem_map]
    intro r _
    split
    · simp
    · exact r.settled_rest.2
  · have hids : (s.resetRunning.settlePauses now).deleteDanglingEdges.unblockEdgeless.ids =
        (s.resetRunning.settlePauses now).deleteDanglingEdges.ids := Store.ids_updateTasks _ _ fun _ => rfl
    rw [hids]
    exact deleteDanglingEdges_live

/-- Recovery does to every database what it is meant to do, and doing it again, at any time, changes nothing. -/
theorem recoverRunning_recovers (s : Store) (now : Int) :
    s.RecoversTo now (s.recoverRunning now) ∧
      ∀ later, (s.recoverRunning now).recoverRunning later = s.recoverRunning now := by
  have hrecovers : s.RecoversTo now (s.recoverRunning now) := by
    by_cases h : ∀ e ∈ s.taskDeps, e.2 ∈ s.ids
    · rw [recoverRunning_of_live h]
      exact settled_recovers h
    · push Not at h
      rw [recoverRunning_of_stale h]
      exact unblocked_recovers h
  refine ⟨hrecovers, fun later => recoverRunning_of_clean ?_ ?_ hrecovers.edges⟩
  · intro r hr
    simpa using hrecovers.noneRunning r hr
  · intro r hr
    by_cases hp : r.status = .paused
    · simp [hrecovers.pausesClosed r hr hp]
    · simp [hp]

/-! ### A crash in the middle of recovery -/

theorem resetRunning_settled : (s.resetRunning.settlePauses now).resetRunning = s.resetRunning.settlePauses now := by
  refine Store.updateTasks_of_none ?_
  rw [settled_tasks, List.forall_mem_map]
  intro r _
  simpa using r.settled_rest.1

theorem settlePauses_settled (later : Int) :
    (s.resetRunning.settlePauses now).settlePauses later = s.resetRunning.settlePauses now := by
  refine Store.updateTasks_of_none ?_
  rw [settled_tasks, List.forall_mem_map]
  intro r _
  by_cases hp : (r.settled now).status = .paused
  · simp [r.settled_rest.2 hp]
  · simp [hp]

/-- A crash after the first statement. -/
theorem recoverRunning_resetRunning (s : Store) (now : Int) :
    s.resetRunning.recoverRunning now = s.recoverRunning now := by
  have hreset : s.resetRunning.resetRunning = s.resetRunning := by
    refine Store.updateTasks_of_none ?_
    rw [Store.resetRunning, Store.updateTasks_tasks, List.forall_mem_map]
    intro r _
    by_cases hrun : r.status = .running
    · simp [hrun]
    · simp [hrun]
  rw [Store.recoverRunning, hreset, Store.recoverRunning]

/-- A crash after the second statement. -/
theorem recoverRunning_settlePauses (s : Store) (now later : Int) :
    (s.resetRunning.settlePauses now).recoverRunning later = s.recoverRunning now := by
  rw [Store.recoverRunning, resetRunning_settled, settlePauses_settled, Store.recoverRunning]

/-- A crash after the third statement leaves the tasks blocked that the fourth one would have unblocked. -/
theorem recoverRunning_deleteDanglingEdges_iff (s : Store) (now later : Int) :
    (s.resetRunning.settlePauses now).deleteDanglingEdges.recoverRunning later = s.recoverRunning now ↔
      ∀ r ∈ s.tasks, r.status = .blocked → ¬s.Freed r.id := by
  have hclean : (s.resetRunning.settlePauses now).deleteDanglingEdges.recoverRunning later =
      (s.resetRunning.settlePauses now).deleteDanglingEdges := by
    refine recoverRunning_of_clean ?_ ?_ deleteDanglingEdges_live
    · rw [Store.deleteDanglingEdges, settled_tasks, List.forall_mem_map]
      intro r _
      simpa using r.settled_rest.1
    · rw [Store.deleteDanglingEdges, settled_tasks, List.forall_mem_map]
      intro r _
      by_cases hp : (r.settled now).status = .paused
      · simp [r.settled_rest.2 hp]
      · simp [hp]
  rw [hclean]
  constructor
  · intro heq r hr hb hfreed
    -- the blocked row is pending after an uninterrupted recovery
    have hrows := (recoverRunning_recovers s now).1.rows
    rw [← heq, Store.deleteDanglingEdges, settled_tasks, List.forall₂_map_right_iff, List.forall₂_same] at hrows
    have hpending := ((hrows r hr).blocked hb).1 hfreed
    rw [(TaskRow.settled_blocked r).2 hb] at hpending
    cases hpending
  · intro hnone
    by_cases h : ∀ e ∈ s.taskDeps, e.2 ∈ s.ids
    · have hlive : ∀ e ∈ (s.resetRunning.settlePauses now).taskDeps, e.2 ∈ (s.resetRunning.settlePauses now).ids := by
        rw [ids_settled]
        exact h
      rw [recoverRunning_of_live h, deleteDanglingEdges_of_live hlive]
    · push Not at h
      rw [recoverRunning_of_stale h]
      symm
      refine Store.updateTasks_of_none ?_
      rw [Store.deleteDanglingEdges, settled_tasks, List.forall_mem_map, ids_settled]
      intro r hr
      rw [r.settled_id]
      by_cases hb : r.status = .blocked
      · have hedge := mt (edgeless_iff h).1 (hnone r hr hb)
        rw [Bool.not_eq_false] at hedge
        rw [Bool.and_eq_false_iff, Bool.not_eq_false']
        exact .inr hedge
      · have hother : (r.settled now).status ≠ .blocked := mt r.settled_blocked.1 hb
        simp [hother]

end Recovery

end Taskmill
