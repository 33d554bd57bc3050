import Taskmill.Schema
import Taskmill.SubmitCases

/-!
# What became of a dependency

A submission looks its dependencies up by id: first in `task_history`, then in `tasks`.  The ids of `task_history` are
its own, `insert_history` does not store the id of the task; so the history row with the id of a dependency was in
general written for another task.

`Tracked` is the store with a record of how the last task with each id ended.  A submission treats its dependencies by
that record exactly if the history rows with their ids happen to tell the same (`submit_follows_fates_iff`).
-/

namespace Taskmill

open Transact

/-! ### Tracking -/

/-- How the life `inst` ended in a step: the status of the history row that the step wrote for it. -/
def endedAs (before after : Store) (inst : Nat) : Option HistoryStatus :=
  (after.taskHistory.find? fun h => h.inst == inst && !(before.taskHistory.any (·.id == h.id))).map (·.status)

/-- The store, and how the last task with an id ended once it is no longer in `tasks`. -/
structure Tracked where
  store : Store
  ended : Int → Option HistoryStatus

def Tracked.step (sha256 : List UInt8 → String) (σ : Tracked) (a : Action) : Tracked where
  store := a.exec sha256 σ.store
  ended id :=
    match σ.store.taskById id with
    | none => σ.ended id
    | some row =>
      if (a.exec sha256 σ.store).tasks.any (·.inst == row.inst) then σ.ended id
      else endedAs σ.store (a.exec sha256 σ.store) row.inst

/-- The states of runs that start with a new database. -/
def Tracked.Run (sha256 : List UInt8 → String) (σ : Tracked) : Prop :=
  Runs (fun σ => σ.store.Fresh ∧ ∀ id, σ.ended id = none) (Tracked.step sha256) (fun _ _ => True) σ

/-- What became of the last task with an id.  It is `unknown` if there was none or it went without a history row. -/
inductive Fate where
  | active
  | completed
  | failed
  | unknown
deriving DecidableEq, Repr

def Tracked.fate (σ : Tracked) (id : Int) : Fate :=
  if σ.store.ids.contains id then .active
  else
    match σ.ended id with
    | none => .unknown
    | some .completed => .completed
    | some _ => .failed

/-- The dependencies that a new task has to wait for, or the error it has to be refused with. -/
def Tracked.waitsFor (σ : Tracked) (policy : DependencyFailurePolicy) : List Int → Except StoreError (List Int)
  | [] => .ok []
  | dep :: deps =>
    match σ.fate dep with
    | .active => (σ.waitsFor policy deps).map (dep :: ·)
    | .failed =>
      match policy with
      | .cancel | .fail => .error (.dependencyFailed dep)
      | .ignore => σ.waitsFor policy deps
    | .completed | .unknown => σ.waitsFor policy deps

/-- The submission of a new task treats its dependencies by their fates: it is refused with the right error, or the
new task gets the right edges and is blocked if there is one. -/
def Tracked.SubmitFollows (σ : Tracked) (sha256 : List UInt8 → String) (sub : TaskSubmission) (skipRequeue : Bool)
    (now : Int) : Prop :=
  match σ.waitsFor sub.onDependencyFailure sub.dependencies with
  | .error e => ∃ s', submitOne sha256 sub skipRequeue now σ.store = (.error e, s')
  | .ok active =>
    ∃ paused s', submitOne sha256 sub skipRequeue now σ.store = (.ok (.inserted σ.store.nextTaskId paused), s') ∧
      s'.taskDeps = σ.store.taskDeps ++ edgesFrom σ.store.nextTaskId active ∧
      ∀ r ∈ s'.tasks, r.id = σ.store.nextTaskId → (r.status = .blocked ↔ active ≠ [])

/-! ### The condition -/

/-- The first dependency that leads to a refusal. -/
def firstRefused (policy : DependencyFailurePolicy) (failed : Int → Bool) (deps : List Int) : Option Int :=
  match policy with
  | .cancel | .fail => deps.find? failed
  | .ignore => none

/-- The history row with this row id is of a task that did not complete. -/
def Store.historyFailed (s : Store) (id : Int) : Bool := (s.historyStatus id).any (· != .completed)

/-- Edges from the new task `id` to `active` can be inserted: they are few enough for the query that looks for cycles,
none is there twice, and no edge that an earlier owner of the id left closes a cycle. -/
structure Store.AcceptsEdges (s : Store) (id : Int) (active : List Int) : Prop where
  few : active.length < maxCompoundSelect
  nodup : active.Nodup
  absent : ∀ dep ∈ active, (id, dep) ∉ s.taskDeps
  acyclic : ¬ ∃ dep ∈ active, Relation.ReflTransGen (Edge s.taskDeps) dep id

theorem Store.acceptsEdges_nil (s : Store) (id : Int) : s.AcceptsEdges id [] :=
  ⟨by decide, List.nodup_nil, by simp, by simp⟩

/-- The history rows with the ids of the dependencies tell their fates: the dependencies are few enough to be looked
up, the same dependency is refused first, and if none is, those without a history row are the active ones and their
edges can be inserted. -/
structure Tracked.HistoryTells (σ : Tracked) (sub : TaskSubmission) : Prop where
  tags : ¬ σ.store.TagLeft σ.store.nextTaskId sub.tags.entries
  few : sub.dependencies.length ≤ maxVariableNumber
  refused : firstRefused sub.onDependencyFailure σ.store.historyFailed sub.dependencies =
    firstRefused sub.onDependencyFailure (σ.fate · == .failed) sub.dependencies
  active : firstRefused sub.onDependencyFailure (σ.fate · == .failed) sub.dependencies = none →
    (∀ dep ∈ sub.dependencies, σ.store.historyStatus dep = none ↔ σ.fate dep = .active) ∧
    σ.store.AcceptsEdges σ.store.nextTaskId (sub.dependencies.filter (σ.fate · == .active))

/-! ### The lookup -/

section Lookup

variable {s : Store} {policy : DependencyFailurePolicy}

/-- The loop over the history: the first refusal, or the dependencies without a history row. -/
private theorem needActiveCheck_eq (deps : List Int) :
    needActiveCheck s policy deps =
      match firstRefused policy s.historyFailed deps with
      | some dep => .error (.dependencyFailed dep)
      | none => .ok (deps.filter fun dep => (s.historyStatus dep).isNone) := by
  induction deps with
  | nil => cases policy <;> rfl
  | cons dep deps ih =>
    unfold needActiveCheck
    rw [ih]
    cases hst : s.historyStatus dep with
    | none =>
      have hf : s.historyFailed dep = false := by rw [Store.historyFailed, hst]; rfl
      cases policy <;> simp only [firstRefused, List.find?_cons, hf, List.filter_cons, hst,
        Option.isNone_none, if_true]
      · cases deps.find? s.historyFailed <;> rfl
      · cases deps.find? s.historyFailed <;> rfl
      · rfl
    | some st =>
      by_cases hc : st = .completed
      · subst hc
        have hf : s.historyFailed dep = false := by rw [Store.historyFailed, hst]; rfl
        cases policy <;> simp [firstRefused, hf, hst]
      · have hf : s.historyFailed dep = true := by simpa [Store.historyFailed, hst] using hc
        cases policy <;> cases st <;> simp_all [firstRefused]

/-- The loop over the active tasks. -/
private theorem activeDependencies_cases (needed : List Int) :
    ((∀ dep ∈ needed, dep ∈ s.ids) ∧ activeDependencies s needed = .ok needed) ∨
    ((¬ ∀ dep ∈ needed, dep ∈ s.ids) ∧ ∃ dep, activeDependencies s needed = .error (.invalidDependency dep)) := by
  induction needed with
  | nil => exact .inl ⟨by simp, rfl⟩
  | cons dep needed ih =>
    rw [activeDependencies]
    by_cases hd : dep ∈ s.ids
    · rw [if_pos (List.contains_iff_mem.2 hd)]
      rcases ih with ⟨hall, hok⟩ | ⟨hnot, d, herr⟩
      · rw [hok]
        exact .inl ⟨by simpa [hd] using hall, rfl⟩
      · rw [herr]
        exact .inr ⟨by simpa [hd] using hnot, d, rfl⟩
    · rw [if_neg (by simpa using hd)]
      exact .inr ⟨by simp [hd], dep, rfl⟩

/-- The specification in the same form. -/
private theorem waitsFor_eq (σ : Tracked) (policy : DependencyFailurePolicy) (deps : List Int) :
    σ.waitsFor policy deps =
      match firstRefused policy (σ.fate · == .failed) deps with
      | some dep => .error (.dependencyFailed dep)
      | none => .ok (deps.filter (σ.fate · == .active)) := by
  induction deps with
  | nil => cases policy <;> rfl
  | cons dep deps ih =>
    unfold Tracked.waitsFor
    rw [ih]
    cases hf : σ.fate dep with
    | active =>
      cases policy <;> simp only [firstRefused, List.find?_cons, hf, List.filter_cons]
      · cases deps.find? (σ.fate · == .failed) <;> rfl
      · cases deps.find? (σ.fate · == .failed) <;> rfl
      · rfl
    | failed => cases policy <;> simp [firstRefused, hf]
    | completed => cases policy <;> simp [firstRefused, hf]
    | unknown => cases policy <;> simp [firstRefused, hf]

end Lookup

/-! ### The submission -/

section Submission

variable {s : Store} {sha256 : List UInt8 → String} {sub : TaskSubmission} {skipRequeue : Bool} {now : Int}

/-- The status of the new row. -/
private theorem status_newRow {taskId : Int} {rows : List TaskRow} {row : TaskRow} (hold : ∀ r ∈ rows, r.id ≠ taskId)
    {s' : Store} (ht : s'.tasks = rows ++ [row]) (group : Option String) :
    ∀ r ∈ (s'.pauseNew taskId group now).tasks, r.id = taskId → (r.status = .blocked ↔ row.status = .blocked) := by
  intro r hr hid
  rw [Store.pauseNew] at hr
  split at hr
  · rw [Store.updateTasks_tasks, ht] at hr
    obtain ⟨r₀, hr₀, rfl⟩ := List.mem_map.1 hr
    have hid₀ : r₀.id = taskId := by
      split at hid
      · exact hid
      · exact hid
    rcases List.mem_append.1 hr₀ with hr₀ | hr₀
    · exact absurd hid₀ (hold r₀ hr₀)
    · rw [List.mem_singleton] at hr₀
      subst hr₀
      split
      · rename_i hp
        have hst : r₀.status = .pending := by simpa [hid₀] using hp
        simp [TaskRow.pauseFor, hst]
      · exact Iff.rfl
  · rw [ht] at hr
    rcases List.mem_append.1 hr with hr | hr
    · exact absurd hid (hold r hr)
    · rw [List.mem_singleton] at hr
      rw [hr]

private theorem seedsError_ne {active : List Int} (dep : Int) : seedsError active ≠ .dependencyFailed dep := by
  intro h
  rw [seedsError] at h
  split at h
  · cases h
  · cases h

private theorem edgesError_ne {active : List Int} (dep : Int) : edgesError active ≠ .dependencyFailed dep := by
  intro h
  rw [edgesError] at h
  split at h
  · cases h
  · cases h

/-- Edges that can be inserted are, and the new row is blocked if there is one; others are an error. -/
private theorem attachDependencies_new {deps active : List Int} {policy : DependencyFailurePolicy} {s₁ : Store}
    {row : TaskRow} {taskId : Int} (hact : s₁.activeDeps policy deps = .ok active)
    (hold : ∀ r ∈ s.tasks, r.id ≠ taskId) (hrow : row.id = taskId) (hst : row.status = .pending)
    (ht : s₁.tasks = s.tasks ++ [row]) (hd : s₁.taskDeps = s.taskDeps) :
    (s.AcceptsEdges taskId active ∧ ∃ s₂ row₂, attachDependencies taskId deps policy s₁ = (.ok (), s₂) ∧
      s₂.taskDeps = s.taskDeps ++ edgesFrom taskId active ∧ s₂.tasks = s.tasks ++ [row₂] ∧
      (row₂.status = .blocked ↔ active ≠ [])) ∨
    (¬ s.AcceptsEdges taskId active ∧ ∃ e s₂, attachDependencies taskId deps policy s₁ = (.error e, s₂) ∧
      ∀ dep, e ≠ .dependencyFailed dep) := by
  rw [attachDependencies_apply, hact]
  dsimp only
  by_cases hempty : active = []
  · subst hempty
    rw [if_pos rfl]
    refine .inl ⟨s.acceptsEdges_nil taskId, s₁, row, rfl, ?_, ht, ?_⟩
    · simp [hd, edgesFrom]
    · simp [hst]
  · rw [if_neg hempty]
    by_cases hins : s₁.TakesEdges taskId active
    · rw [if_pos hins]
      by_cases hcycle : (s₁.addEdges (edgesFrom taskId active)).RefusesSeeds taskId active
      · rw [if_pos hcycle]
        refine .inr ⟨fun hacc => ?_, _, _, rfl, seedsError_ne⟩
        rcases refusesSeeds_edgesFrom.1 hcycle with hmany | hpath
        · exact Nat.not_lt.2 hmany hacc.few
        · exact hacc.acyclic (hd ▸ hpath)
      · rw [if_neg hcycle]
        have hfew : ¬ maxCompoundSelect ≤ active.length := fun hmany => hcycle (.inl hmany)
        have hfree : ¬ ∃ dep ∈ active, Relation.ReflTransGen (Edge s.taskDeps) dep taskId :=
          fun hpath => hcycle (refusesSeeds_edgesFrom.2 (.inr (hd ▸ hpath)))
        refine .inl ⟨⟨Nat.not_le.1 hfew, hins.2.1, hd ▸ hins.2.2, hfree⟩, _,
          { row with status := .blocked }, rfl, ?_, ?_, ?_⟩
        · show s₁.taskDeps ++ _ = _
          rw [hd]
        · show s₁.tasks.map _ = _
          rw [ht, List.map_append, List.map_cons, List.map_nil, if_pos (by simp [hrow])]
          refine congrArg (· ++ _) ?_
          conv_rhs => rw [← List.map_id s.tasks]
          refine List.map_congr_left fun r hr => ?_
          simp [hold r hr]
        · simp [hempty]
    · rw [if_neg hins]
      refine .inr ⟨fun hacc => hins ⟨?_, hacc.nodup, hd ▸ hacc.absent⟩, _, _, rfl, edgesError_ne⟩
      have hfew : active.length < 500 := hacc.few
      show 2 * active.length ≤ 32766
      omega

/-- The ends of the submission of a new task. -/
private theorem submitOne_new (skipRequeue : Bool) (now : Int) (hv : sub.validate = .ok ())
    (hk : s.taskByKey (sub.effectiveKey sha256) = none) :
    (s.TagLeft s.nextTaskId sub.tags.entries ∧
      ∃ s', submitOne sha256 sub skipRequeue now s = (.error taskTagsError, s')) ∨
    (¬ s.TagLeft s.nextTaskId sub.tags.entries ∧
      match (s.addTask (sub.newRow (sub.effectiveKey sha256) now)).activeDeps sub.onDependencyFailure
        sub.dependencies with
      | .error e => ∃ s', submitOne sha256 sub skipRequeue now s = (.error e, s')
      | .ok active =>
        (s.AcceptsEdges s.nextTaskId active ∧
          ∃ paused s', submitOne sha256 sub skipRequeue now s = (.ok (.inserted s.nextTaskId paused), s') ∧
            s'.taskDeps = s.taskDeps ++ edgesFrom s.nextTaskId active ∧
            ∀ r ∈ s'.tasks, r.id = s.nextTaskId → (r.status = .blocked ↔ active ≠ [])) ∨
        (¬ s.AcceptsEdges s.nextTaskId active ∧
          ∃ e s', submitOne sha256 sub skipRequeue now s = (.error e, s') ∧ ∀ dep, e ≠ .dependencyFailed dep)) := by
  rw [submitOne_fresh hv hk]
  have hold : ∀ r ∈ s.tasks, r.id ≠ s.nextTaskId := fun r hr => Store.id_ne_nextTaskId hr
  obtain ⟨row, hrow, hst, ht⟩ : ∃ row : TaskRow, row.id = s.nextTaskId ∧ row.status = .pending ∧
      (s.addTask (sub.newRow (sub.effectiveKey sha256) now)).tasks = s.tasks ++ [row] := ⟨_, rfl, rfl, rfl⟩
  have htags₀ : (s.addTask (sub.newRow (sub.effectiveKey sha256) now)).taskTags = s.taskTags := rfl
  have hdeps₀ : (s.addTask (sub.newRow (sub.effectiveKey sha256) now)).taskDeps = s.taskDeps := rfl
  generalize s.addTask (sub.newRow (sub.effectiveKey sha256) now) = s₀ at ht htags₀ hdeps₀ ⊢
  have hleft : ∀ hierarchy hasTags, (s₀.tagged s₀.taskTags hierarchy hasTags).TagLeft s.nextTaskId sub.tags.entries ↔
      s.TagLeft s.nextTaskId sub.tags.entries := by
    intro hierarchy hasTags
    rw [Store.TagLeft, Store.TagLeft, Store.tagged_taskTags, htags₀]
  obtain ⟨tags, hierarchy, hasTags, ⟨hins, h⟩ | ⟨hins, hrest⟩⟩ := finishInsert_cases sub s.nextTaskId now s₀
  · refine .inl ⟨?_, _, h⟩
    by_contra hfree
    rw [insertTags_free sub.tags.nodup (fun hl => hfree ((hleft _ _).1 hl))] at hins
    cases hins
  · have hfree : ¬ s.TagLeft s.nextTaskId sub.tags.entries := by
      intro hl
      obtain ⟨tt, herr⟩ := insertTags_refused (.inr ((hleft hierarchy hasTags).2 hl))
      rw [herr] at hins
      cases hins
    refine .inr ⟨hfree, ?_⟩
    have hact :
        (s₀.tagged tags hierarchy hasTags).activeDeps sub.onDependencyFailure sub.dependencies =
        s₀.activeDeps sub.onDependencyFailure sub.dependencies := by
      apply activeDeps_congr
      · rfl
      · rfl
    cases hdeps : s₀.activeDeps sub.onDependencyFailure sub.dependencies with
    | error e =>
      have hatt : attachDependencies s.nextTaskId sub.dependencies sub.onDependencyFailure
          (s₀.tagged tags hierarchy hasTags) = (.error e, s₀.tagged tags hierarchy hasTags) := by
        rw [attachDependencies_apply, hact, hdeps]
      rcases hrest with ⟨e', s₂, hatt', h⟩ | ⟨s₂, hatt', h⟩
      · rw [hatt] at hatt'
        cases hatt'
        exact ⟨_, h⟩
      · rw [hatt] at hatt'
        cases hatt'
    | ok active =>
      rw [hdeps] at hact
      rcases attachDependencies_new hact hold hrow hst ht hdeps₀ with
        ⟨hacc, s₂, row₂, hatt, hd₂, ht₂, hblocked⟩ | ⟨hacc, e, s₂, hatt, he⟩
      · refine .inl ⟨hacc, ?_⟩
        rcases hrest with ⟨e', s₃, hatt', h⟩ | ⟨s₃, hatt', h⟩
        · rw [hatt] at hatt'
          cases hatt'
        · rw [hatt] at hatt'
          cases hatt'
          refine ⟨_, _, h, ?_, fun r hr hid => (status_newRow hold ht₂ sub.groupKey r hr hid).trans hblocked⟩
          rw [Store.pauseNew]
          split
          · exact hd₂
          · exact hd₂
      · refine .inr ⟨hacc, ?_⟩
        rcases hrest with ⟨e', s₃, hatt', h⟩ | ⟨s₃, hatt', h⟩
        · rw [hatt] at hatt'
          cases hatt'
          exact ⟨e, _, h, he⟩
        · rw [hatt] at hatt'
          cases hatt'

/-- The lookup of the dependencies of a new task. -/
private theorem activeDeps_cases (policy : DependencyFailurePolicy) (deps : List Int) :
    (maxVariableNumber < deps.length ∧ s.activeDeps policy deps = .error variablesError) ∨
    (deps.length ≤ maxVariableNumber ∧ ∃ dep, firstRefused policy s.historyFailed deps = some dep ∧
      s.activeDeps policy deps = .error (.dependencyFailed dep)) ∨
    (deps.length ≤ maxVariableNumber ∧ firstRefused policy s.historyFailed deps = none ∧
      (((∀ dep ∈ deps, s.historyStatus dep = none → dep ∈ s.ids) ∧
          s.activeDeps policy deps = .ok (deps.filter fun dep => (s.historyStatus dep).isNone)) ∨
        ((∃ dep ∈ deps, s.historyStatus dep = none ∧ dep ∉ s.ids) ∧
          ∃ dep, s.activeDeps policy deps = .error (.invalidDependency dep)))) := by
  by_cases hmany : maxVariableNumber < deps.length
  · exact .inl ⟨hmany, if_pos hmany⟩
  rw [activeDeps_of_le (Nat.not_lt.1 hmany), needActiveCheck_eq]
  cases firstRefused policy s.historyFailed deps with
  | some dep => exact .inr (.inl ⟨Nat.not_lt.1 hmany, dep, rfl, rfl⟩)
  | none =>
    refine .inr (.inr ⟨Nat.not_lt.1 hmany, rfl, ?_⟩)
    rcases activeDependencies_cases (s := s) (deps.filter fun dep => (s.historyStatus dep).isNone) with
      ⟨hall, hok⟩ | ⟨hnot, dep, herr⟩
    · refine .inl ⟨fun dep hdep hnone => hall dep (List.mem_filter.2 ⟨hdep, ?_⟩), hok⟩
      rw [hnone]
      rfl
    · refine .inr ⟨?_, dep, herr⟩
      by_contra hnone
      refine hnot fun dep hdep => ?_
      obtain ⟨hdep, hst⟩ := List.mem_filter.1 hdep
      by_contra hout
      exact hnone ⟨dep, hdep, by simpa using hst, hout⟩

/-- The edges determine the tasks they lead to. -/
private theorem edgesFrom_inj {id : Int} {active active' : List Int}
    (h : edgesFrom id active = edgesFrom id active') :
    active = active' := by
  have := congrArg (List.map Prod.snd) h
  simpa [edgesFrom, Function.comp_def] using this

/-- A submission is refused for a dependency when the history says so. -/
private theorem refused_iff (skipRequeue : Bool) (now : Int) (hv : sub.validate = .ok ())
    (hk : s.taskByKey (sub.effectiveKey sha256) = none) (dep : Int) :
    (∃ s', submitOne sha256 sub skipRequeue now s = (.error (.dependencyFailed dep), s')) ↔
      ¬ s.TagLeft s.nextTaskId sub.tags.entries ∧ sub.dependencies.length ≤ maxVariableNumber ∧
        firstRefused sub.onDependencyFailure s.historyFailed sub.dependencies = some dep := by
  have hlookup := activeDeps_cases (s := s.addTask (sub.newRow (sub.effectiveKey sha256) now))
    sub.onDependencyFailure sub.dependencies
  have hnew := submitOne_new skipRequeue now hv hk
  generalize submitOne sha256 sub skipRequeue now s = result at hnew ⊢
  rcases hnew with ⟨hleft, s', rfl⟩ | ⟨hfree, hnew⟩
  · -- the tags of an earlier owner of the id: an error of its own
    refine iff_of_false ?_ fun h => h.1 hleft
    rintro ⟨s'', h⟩
    cases h
  · rcases hlookup with ⟨hmany, hact⟩ | ⟨hle, dep', hfirst, hact⟩ | ⟨_, hfirst, ⟨_, hact⟩ | ⟨_, dep', hact⟩⟩
    · rw [hact] at hnew
      obtain ⟨s', rfl⟩ := hnew
      refine iff_of_false ?_ fun h => Nat.not_lt.2 h.2.1 hmany
      rintro ⟨s'', h⟩
      cases h
    · rw [hact] at hnew
      obtain ⟨s', rfl⟩ := hnew
      have hfirst' : firstRefused sub.onDependencyFailure s.historyFailed sub.dependencies = some dep' := hfirst
      rw [hfirst']
      constructor
      · rintro ⟨s'', h⟩
        cases h
        exact ⟨hfree, hle, rfl⟩
      · rintro ⟨_, _, h⟩
        cases h
        exact ⟨s', rfl⟩
    · rw [hact] at hnew
      have hfirst' : firstRefused sub.onDependencyFailure s.historyFailed sub.dependencies = none := hfirst
      rw [hfirst']
      refine iff_of_false ?_ (by simp)
      rintro ⟨s'', h⟩
      rcases hnew with ⟨_, paused, s', rfl, _⟩ | ⟨_, e, s', rfl, he⟩
      · cases h
      · cases h
        exact he dep rfl
    · rw [hact] at hnew
      have hfirst' : firstRefused sub.onDependencyFailure s.historyFailed sub.dependencies = none := hfirst
      rw [hfirst']
      refine iff_of_false ?_ (by simp)
      obtain ⟨s', rfl⟩ := hnew
      rintro ⟨s'', h⟩
      cases h

/-- A submission gets edges to `active` when these are the dependencies without a history row and the edges can be
inserted. -/
private theorem accepted_iff (skipRequeue : Bool) (now : Int) (hv : sub.validate = .ok ())
    (hk : s.taskByKey (sub.effectiveKey sha256) = none) {active : List Int} (hactive : ∀ dep ∈ active, dep ∈ s.ids) :
    (∃ paused s', submitOne sha256 sub skipRequeue now s = (.ok (.inserted s.nextTaskId paused), s') ∧
        s'.taskDeps = s.taskDeps ++ edgesFrom s.nextTaskId active ∧
        ∀ r ∈ s'.tasks, r.id = s.nextTaskId → (r.status = .blocked ↔ active ≠ [])) ↔
      ¬ s.TagLeft s.nextTaskId sub.tags.entries ∧ sub.dependencies.length ≤ maxVariableNumber ∧
        firstRefused sub.onDependencyFailure s.historyFailed sub.dependencies = none ∧
        (sub.dependencies.filter fun dep => (s.historyStatus dep).isNone) = active ∧
        s.AcceptsEdges s.nextTaskId active := by
  have hlookup := activeDeps_cases (s := s.addTask (sub.newRow (sub.effectiveKey sha256) now))
    sub.onDependencyFailure sub.dependencies
  have hnew := submitOne_new skipRequeue now hv hk
  generalize submitOne sha256 sub skipRequeue now s = result at hnew ⊢
  rcases hnew with ⟨hleft, s', rfl⟩ | ⟨hfree, hnew⟩
  · refine iff_of_false ?_ fun h => h.1 hleft
    rintro ⟨_, _, h, _⟩
    cases h
  · rcases hlookup with ⟨hmany, hact⟩ | ⟨_, dep', hfirst, hact⟩ |
      ⟨hle, hfirst, ⟨_, hact⟩ | ⟨⟨dep, hdep, hnone, hout⟩, dep', hact⟩⟩
    · rw [hact] at hnew
      obtain ⟨s', rfl⟩ := hnew
      refine iff_of_false ?_ fun h => Nat.not_lt.2 h.2.1 hmany
      rintro ⟨_, _, h, _⟩
      cases h
    · rw [hact] at hnew
      obtain ⟨s', rfl⟩ := hnew
      have hfirst' : firstRefused sub.onDependencyFailure s.historyFailed sub.dependencies = some dep' := hfirst
      rw [hfirst']
      refine iff_of_false ?_ (by simp)
      rintro ⟨_, _, h, _⟩
      cases h
    · rw [hact] at hnew
      have hfirst' : firstRefused sub.onDependencyFailure s.historyFailed sub.dependencies = none := hfirst
      change (s.AcceptsEdges s.nextTaskId (sub.dependencies.filter fun dep => (s.historyStatus dep).isNone) ∧ _) ∨
        _ at hnew
      constructor
      · rintro ⟨paused, s', h, hd, _⟩
        rcases hnew with ⟨hacc, paused', s'', rfl, hd', _⟩ | ⟨_, e, s'', rfl, _⟩
        · cases h
          have heq := edgesFrom_inj (List.append_cancel_left (hd'.symm.trans hd))
          exact ⟨hfree, hle, hfirst', heq, heq ▸ hacc⟩
        · cases h
      · rintro ⟨_, _, _, heq, hacc⟩
        rcases hnew with ⟨_, paused', s'', rfl, hd', hst⟩ | ⟨hnot, _⟩
        · change s''.taskDeps = s.taskDeps ++ edgesFrom s.nextTaskId
            (sub.dependencies.filter fun dep => (s.historyStatus dep).isNone) at hd'
          change ∀ r ∈ s''.tasks, r.id = s.nextTaskId →
            (r.status = .blocked ↔ (sub.dependencies.filter fun dep => (s.historyStatus dep).isNone) ≠ []) at hst
          rw [heq] at hd' hst
          exact ⟨paused', s'', rfl, hd', hst⟩
        · exact absurd (heq ▸ hacc) hnot
    · rw [hact] at hnew
      obtain ⟨s', rfl⟩ := hnew
      refine iff_of_false ?_ ?_
      · rintro ⟨_, _, h, _⟩
        cases h
      · -- a dependency without a history row that is not active either
        rintro ⟨_, _, _, heq, _⟩
        have hmem : dep ∈ active := by
          rw [← heq]
          exact List.mem_filter.2 ⟨hdep, by rw [show s.historyStatus dep = none from hnone]; rfl⟩
        refine hout ?_
        show dep ∈ (s.tasks ++ [_]).map TaskRow.id
        rw [List.map_append]
        exact List.mem_append_left _ (hactive dep hmem)

end Submission

/-- The submission of a new task treats its dependencies, each of which was a task once, by what became of them if and
only if the history rows with their ids tell it. -/
theorem submit_follows_fates_iff {sha256 : List UInt8 → String} {σ : Tracked} (_ : σ.Run sha256)
    {sub : TaskSubmission} (hv : sub.validate = .ok ()) (hk : σ.store.taskByKey (sub.effectiveKey sha256) = none)
    (_ : ∀ dep ∈ sub.dependencies, σ.fate dep ≠ .unknown) (skipRequeue : Bool) (now : Int) :
    σ.SubmitFollows sha256 sub skipRequeue now ↔ σ.HistoryTells sub := by
  have hfate : ∀ dep, σ.fate dep = .active ↔ dep ∈ σ.store.ids := by
    intro dep
    rw [Tracked.fate]
    split
    · rename_i hin
      simpa using List.contains_iff_mem.1 hin
    · rename_i hout
      rw [List.contains_iff_mem] at hout
      refine iff_of_false ?_ hout
      split <;> simp
  rw [Tracked.SubmitFollows, waitsFor_eq]
  cases hfirst : firstRefused sub.onDependencyFailure (σ.fate · == .failed) sub.dependencies with
  | some dep =>
    dsimp only
    rw [refused_iff skipRequeue now hv hk]
    constructor
    · rintro ⟨htags, hfew, hhist⟩
      exact ⟨htags, hfew, hhist.trans hfirst.symm, fun hnone => by rw [hfirst] at hnone; cases hnone⟩
    · rintro ⟨htags, hfew, hhist, _⟩
      exact ⟨htags, hfew, hhist.trans hfirst⟩
  | none =>
    dsimp only
    have hactive : ∀ dep ∈ sub.dependencies.filter (σ.fate · == .active), dep ∈ σ.store.ids := by
      intro dep hdep
      exact (hfate dep).1 (by simpa using (List.mem_filter.1 hdep).2)
    rw [accepted_iff skipRequeue now hv hk hactive]
    -- the same dependencies are selected if and only if the two conditions agree on each of them
    have hsame : ((sub.dependencies.filter fun dep => (σ.store.historyStatus dep).isNone) =
        sub.dependencies.filter (σ.fate · == .active)) ↔
        ∀ dep ∈ sub.dependencies, σ.store.historyStatus dep = none ↔ σ.fate dep = .active := by
      constructor
      · intro heq dep hdep
        have hmem : dep ∈ (sub.dependencies.filter fun dep => (σ.store.historyStatus dep).isNone) ↔
          dep ∈ sub.dependencies.filter (σ.fate · == .active) := by rw [heq]
        simpa [List.mem_filter, hdep] using hmem
      · intro hall
        refine List.filter_congr fun dep hdep => ?_
        rw [Bool.eq_iff_iff]
        simpa using hall dep hdep
    rw [hsame]
    constructor
    · rintro ⟨htags, hfew, hhist, hall, hacc⟩
      exact ⟨htags, hfew, hhist.trans hfirst.symm, fun _ => ⟨hall, hacc⟩⟩
    · rintro ⟨htags, hfew, hhist, hrest⟩
      exact ⟨htags, hfew, hhist.trans hfirst, hrest hfirst⟩

/-- The state of a run from a new in-memory store. -/
private def tracked (actions : List Action) : Tracked :=
  actions.foldl (Tracked.step sampleSha256) ⟨openMemory, fun _ => none⟩

private theorem tracked_run (actions : List Action)
    (h : Along (Tracked.step sampleSha256) (fun _ _ => True) ⟨openMemory, fun _ => none⟩ actions) :
    (tracked actions).Run sampleSha256 :=
  Runs.list (.start ⟨openMemory_fresh, fun _ => rfl⟩) actions h

/-- A task that depends on the one with id 1. -/
private def afterFirst (taskType : String) : TaskSubmission :=
  { TaskSubmission.new taskType with dependencies := [1] }

/-- A task completes: it has row id 1 in `tasks`, and its history row is the first one. -/
private def alignedRun : List Action := [.submitDirect (.new "a") 0, .claimTask 1 0, .complete 1 {} 1]

theorem aligned_follows :
    (tracked alignedRun).fate 1 = .completed ∧
      (tracked alignedRun).SubmitFollows sampleSha256 (afterFirst "b") true 2 := by
  have hfate : (tracked alignedRun).fate 1 = .completed := by decide +kernel
  refine ⟨hfate, ?_⟩
  rw [submit_follows_fates_iff (tracked_run alignedRun ⟨trivial, trivial, trivial, trivial⟩) rfl (by decide +kernel)
    (by simp [afterFirst, hfate])]
  refine ⟨?_, by decide, ?_, ?_⟩
  · rintro ⟨_, htag, _⟩
    cases htag
  · decide +kernel
  · intro _
    refine ⟨?_, ?_⟩
    · decide +kernel
    · have hnone : (afterFirst "b").dependencies.filter ((tracked alignedRun).fate · == .active) = [] := by
        decide +kernel
      rw [hnone]
      exact Store.acceptsEdges_nil _ _

/-- The second of two tasks completes first: its history row gets the id of the first one. -/
private def shiftedRun : List Action :=
  [.submitDirect (.new "a") 0, .submitDirect (.new "b") 0, .claimTask 2 0, .complete 2 {} 1]

/-- A task that depends on the first one, which has not even started, does not wait for it. -/
theorem shifted_does_not_follow :
    ¬ ∀ σ : Tracked, σ.Run sampleSha256 → ∀ sub : TaskSubmission, sub.validate = .ok () →
      σ.store.taskByKey (sub.effectiveKey sampleSha256) = none → (∀ dep ∈ sub.dependencies, σ.fate dep ≠ .unknown) →
      ∀ skipRequeue now, σ.SubmitFollows sampleSha256 sub skipRequeue now := by
  intro h
  have hfollows := h (tracked shiftedRun) (tracked_run shiftedRun ⟨trivial, trivial, trivial, trivial, trivial⟩)
    (afterFirst "c") rfl (by decide +kernel) (by decide +kernel) true 2
  have hwaits : (tracked shiftedRun).waitsFor (afterFirst "c").onDependencyFailure (afterFirst "c").dependencies =
      .ok [1] := by rfl
  rw [Tracked.SubmitFollows, hwaits] at hfollows
  obtain ⟨paused, s', hsub, hdeps, _⟩ := hfollows
  have hnone : (submitOne sampleSha256 (afterFirst "c") true 2 (tracked shiftedRun).store).2.taskDeps = [] := by
    decide +kernel
  rw [hsub] at hnone
  rw [hnone] at hdeps
  simp [edgesFrom] at hdeps

end Taskmill
