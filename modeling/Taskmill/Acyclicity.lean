import Taskmill.SubmitCases

/-!
# The dependency graph stays acyclic

Only a submission writes to `task_deps`; every other step deletes edges or leaves them.  A submission inserts edges
that all leave the new task `t`, and then asks whether `t` can be reached from their targets in the table that already
holds them.  So a new cycle would run through `t` by a new edge, and the query sees it, whatever the edges are that an
earlier owner of the id left behind.  The error rolls the edges back.

Every dependency is a term of the query's compound `SELECT`.  From 500 of them on SQLite refuses the query, and what
was a cycle is reported as an error of the database (`manySeeds_not_cyclic`); it is rolled back all the same.
-/

namespace Taskmill

open Transact

/-- No task depends on itself, directly or through others. -/
def Store.Acyclic (s : Store) : Prop := Transact.Acyclic s.taskDeps

/-! ### Statements that insert no edge -/

private theorem stmt_deps {s s' : Store} (h : Stmt false s s') : ∀ e ∈ s'.taskDeps, e ∈ s.taskDeps := by
  cases h with
  | deleteEdges p => exact fun e he => List.mem_of_mem_filter he
  | addEdges id deps hs hn hd => cases hs
  | _ => exact fun e he => he

private theorem acyclic_of_steps {s s' : Store} (h : Steps false s s') (hs : s.Acyclic) : s'.Acyclic :=
  h.invariant (fun _ _ hst ha => Transact.Acyclic.mono ha (stmt_deps hst)) hs

private theorem acyclic_of_always {α : Type} {x : Sql α} (h : Txn.Always (Steps false) x) :
    Txn.Ensures Store.Acyclic x fun _ => Store.Acyclic := by
  intro s hs a s' hx
  have := h s
  rw [hx] at this
  exact acyclic_of_steps this hs

/-! ### Cycle detection -/

/-- With few seeds `detect_cycle` fails exactly when the new task can be reached from one of them. -/
theorem detectCycle_error_iff {newTaskId : Int} {deps : List Int} {s : Store}
    (hfew : deps.length < maxCompoundSelect) :
    (detectCycle newTaskId deps s).1 = .error .cyclicDependency ↔
      ∃ dep ∈ deps, Relation.ReflTransGen (Edge s.taskDeps) dep newTaskId := by
  rw [detectCycle_apply, seedsError, if_neg (Nat.not_le.2 hfew), ← mem_reached]
  by_cases hcycle : newTaskId ∈ reached s.taskDeps deps
  · rw [if_pos (.inr hcycle)]
    exact ⟨fun _ => hcycle, fun _ => rfl⟩
  · rw [if_neg fun h => h.elim (Nat.not_le.2 hfew) hcycle]
    constructor
    · intro h
      cases h
    · exact fun h => absurd h hcycle

/-- With many seeds its query is not even prepared. -/
theorem detectCycle_many {newTaskId : Int} {deps : List Int} {s : Store} (hmany : maxCompoundSelect ≤ deps.length) :
    (detectCycle newTaskId deps s).1 = .error compoundSelectError := by
  rw [detectCycle_apply, seedsError, if_pos hmany, if_pos (.inl hmany)]

private theorem compoundSelectError_ne : compoundSelectError ≠ .cyclicDependency := nofun

/-! ### Submissions -/

private theorem acyclic_attachDependencies {taskId : Int} {deps : List Int} {policy : DependencyFailurePolicy} :
    Txn.Ensures Store.Acyclic (attachDependencies taskId deps policy) fun _ => Store.Acyclic := by
  intro s hs u s' h
  rw [attachDependencies_apply] at h
  split at h
  · cases h
  · rename_i active _
    split at h
    · cases h
      exact hs
    · split at h
      · split at h
        · cases h
        · rename_i hcycle
          cases h
          -- the table that was searched is the one with the new edges
          refine Transact.Acyclic.append hs (fun e he => (mem_edgesFrom.1 he).1) fun e he hpath => ?_
          exact hcycle (.inr (mem_reached.2 ⟨e.2, (mem_edgesFrom.1 he).2, hpath⟩))
      · cases h

private theorem acyclic_finishInsert {sub : TaskSubmission} {taskId now : Int} :
    Txn.Ensures Store.Acyclic (finishInsert sub taskId now) fun _ => Store.Acyclic := by
  refine Txn.Ensures.bind (Q := fun _ => Store.Acyclic) (Txn.Ensures.modify fun s hs => hs) fun _ => ?_
  refine Txn.Ensures.bind (acyclic_of_always steps_insertTagsFlagged) fun _ => ?_
  refine Txn.Ensures.bind acyclic_attachDependencies fun _ => ?_
  refine Txn.Ensures.bind (Q := fun _ => Store.Acyclic) (Txn.Ensures.map_get fun s hs => hs) fun groupPaused => ?_
  refine Txn.Ensures.bind (Q := fun _ => Store.Acyclic) (Txn.Ensures.modify fun s hs => ?_)
    fun _ => Txn.Ensures.pure fun s hs => hs
  split
  · exact hs
  · exact hs

private theorem acyclic_submitOne {sha256 : List UInt8 → String} {sub : TaskSubmission}
    {skipRequeue : Bool} {now : Int} :
    Txn.Ensures Store.Acyclic (submitOne sha256 sub skipRequeue now) fun _ => Store.Acyclic := by
  refine Txn.Ensures.bind (Q := fun _ => Store.Acyclic) (Txn.Ensures.ofExcept fun _ _ s hs => hs) fun _ => ?_
  refine Txn.Ensures.bind (acyclic_of_always (steps_insertOrIgnoreTask rfl)) fun inserted => ?_
  split
  · exact acyclic_finishInsert
  · split
    · exact Txn.Ensures.pure fun s hs => hs
    · exact acyclic_of_always steps_supersedeExisting
    · exact acyclic_of_always steps_skipExisting

/-! ### Runs -/

/-- The steps in which several callers share a transaction. -/
def Action.coalesced : Action → Bool
  | .processSubmitBatch _ _ => true
  | _ => false

private theorem acyclic_step (sha256 : List UInt8 → String) (s : Store) (a : Action) (hs : s.Acyclic)
    (ha : a.coalesced = false) : (a.exec sha256 s).Acyclic := by
  by_cases hsub : a.submits = true
  · cases a with
    | submitDirect sub now =>
      exact transaction_invariant (fun s => acyclic_submitOne s) (fun s s' hs => hs) hs
    | submitChunk skipRequeue last now chunk =>
      refine transaction_invariant (Txn.Ensures.mapList fun item _ => ?_) (fun s s' hs => hs) hs
      rw [submitItem]
      split
      · exact acyclic_submitOne
      · exact Txn.Ensures.pure fun s hs => hs
    | processSubmitBatch skipRequeue batch => cases ha
    | _ => cases hsub
  · have h := a.steps sha256 s
    rw [Bool.not_eq_true] at hsub
    rw [hsub] at h
    exact acyclic_of_steps h hs

/-- `submit_batch` is a run of its chunks: a chunk that fails leaves the chunks before it committed. -/
theorem submitBatch_reachable {sha256 : List UInt8 → String} {guard : Store → Action → Prop}
    (hg : ∀ s skipRequeue last now chunk, guard s (.submitChunk skipRequeue last now chunk)) {s : Store}
    (h : ReachableVia sha256 guard s) (subs : List TaskSubmission) (now : Int) :
    ReachableVia sha256 guard (submitBatch sha256 subs now s).2 := by
  have hr : ∀ s, ReachableVia sha256 guard s → ReachableVia sha256 guard s := fun _ h => h
  have ht : ∀ a b c : Store, (ReachableVia sha256 guard a → ReachableVia sha256 guard b) →
      (ReachableVia sha256 guard b → ReachableVia sha256 guard c) →
      ReachableVia sha256 guard a → ReachableVia sha256 guard c := fun _ _ _ h₁ h₂ h => h₂ (h₁ h)
  have hall : Txn.Always (fun s s' => ReachableVia sha256 guard s → ReachableVia sha256 guard s')
      (submitBatch sha256 subs now) := by
    refine (Txn.Always.mapList hr ht (fun sub => Txn.Always.ofExcept hr _) subs).bind ht fun _ => ?_
    refine ((Txn.Always.get hr).bind ht fun _ => Txn.Always.pure hr _).bind ht fun skipRequeue => ?_
    refine (Txn.Always.mapList hr ht (fun chunk s hs => ?_) _).bind ht fun _ => Txn.Always.pure hr _
    exact Runs.next hs (.submitChunk skipRequeue _ now chunk) (hg s skipRequeue _ now chunk)
  exact hall s h

/-- As long as every submission has a transaction of its own (or shares one that is rolled back as a whole), the
dependency graph is acyclic in every reachable state; `detect_cycle` reports exactly the submissions whose new task
can be reached from one of its dependencies unless such a submission has 500 dependencies or more; and its recursive
query ends on every table. -/
theorem acyclic_and_detectCycle_exact (sha256 : List UInt8 → String) :
    (∀ s, ReachableVia sha256 (fun _ a => a.coalesced = false) s →
      s.Acyclic ∧ ∀ subs now, (submitBatch sha256 subs now s).2.Acyclic) ∧
    ∀ (s : Store) (newTaskId : Int) (deps : List Int),
      (((detectCycle newTaskId deps s).1 = .error .cyclicDependency ↔
          ∃ dep ∈ deps, Relation.ReflTransGen (Edge s.taskDeps) dep newTaskId) ↔
        deps.length < maxCompoundSelect ∨
          ¬ ∃ dep ∈ deps, Relation.ReflTransGen (Edge s.taskDeps) dep newTaskId) ∧
      (cteLoop s.taskDeps (deps.length + s.taskDeps.length) deps.dedup deps.dedup).isSome := by
  constructor
  · have hacyclic : ∀ s, ReachableVia sha256 (fun _ a => a.coalesced = false) s → s.Acyclic := by
      intro s h
      refine h.invariant ?_ (acyclic_step sha256)
      intro s hs
      rw [Store.Acyclic, hs.taskDeps]
      exact acyclic_nil
    intro s h
    exact ⟨hacyclic s h, fun subs now => hacyclic _ (submitBatch_reachable (fun _ _ _ _ _ => rfl) h subs now)⟩
  · intro s newTaskId deps
    refine ⟨?_, cteLoop_terminates s.taskDeps deps⟩
    by_cases hfew : deps.length < maxCompoundSelect
    · exact ⟨fun _ => .inl hfew, fun _ => detectCycle_error_iff hfew⟩
    · have hnot : (detectCycle newTaskId deps s).1 ≠ .error .cyclicDependency := by
        rw [detectCycle_many (Nat.not_lt.1 hfew)]
        exact fun h => compoundSelectError_ne (Except.error.inj h)
      constructor
      · exact fun hexact => .inr fun hcycle => hnot (hexact.2 hcycle)
      · rintro (h | hfree)
        · exact absurd h hfew
        · exact ⟨fun h => absurd h hnot, fun h => absurd h hfree⟩

/-- Two tasks, the second one waiting for the first. -/
def chainRun : List Action :=
  [.submitDirect (.new "a") 0, .submitDirect { TaskSubmission.new "b" with dependencies := [1] } 0]

theorem chainRun_acyclic :
    (execAll sampleSha256 openMemory chainRun).taskDeps = [(2, 1)] ∧
      (execAll sampleSha256 openMemory chainRun).Acyclic :=
  ⟨by decide, ((acyclic_and_detectCycle_exact sampleSha256).1 _
    ((Runs.start openMemory_fresh).list chainRun ⟨rfl, rfl, trivial⟩)).1⟩

/-! ### Many dependencies -/

/-- One of many tasks of type `a`, told apart by the lengths of their payloads. -/
def numbered (n : Nat) : TaskSubmission :=
  { TaskSubmission.new "a" with payload := some (List.replicate (n + 1) 0) }

/-- `n` tasks without dependencies are submitted, one after the other. -/
def filled : Nat → Store
  | 0 => openMemory
  | n + 1 => (Action.submitDirect (numbered n) 0).exec sampleSha256 (filled n)

/-- A store with `n` tasks and nothing else. -/
private structure Filled (n : Nat) (s : Store) : Prop where
  ids : s.ids = (List.range n).map fun i : Nat => (i : Int) + 1
  keys : ∀ r ∈ s.tasks, ∃ i < n, r.key = (numbered i).effectiveKey sampleSha256
  taskTags : s.taskTags = []
  taskDeps : s.taskDeps = []
  taskHistory : s.taskHistory = []

private theorem numbered_key (n : Nat) : (numbered n).effectiveKey sampleSha256 =
    String.ofList (([97, 58] ++ List.replicate (n + 1) 0 : List UInt8).map fun b => Char.ofNat b.toNat) := rfl

private theorem numbered_key_injective {i n : Nat}
    (h : (numbered i).effectiveKey sampleSha256 = (numbered n).effectiveKey sampleSha256) : i = n := by
  rw [numbered_key, numbered_key] at h
  have hlength := congrArg List.length (String.ofList_injective h)
  simp only [List.length_map, List.length_append, List.length_replicate] at hlength
  omega

private theorem Filled.nextTaskId {n : Nat} {s : Store} (h : Filled n s) : s.nextTaskId = (n : Int) + 1 := by
  unfold Store.nextTaskId nextRowid
  rw [h.ids]
  cases n with
  | zero => rfl
  | succ n =>
    have hmax : ((List.range (n + 1)).map fun i : Nat => (i : Int) + 1).max? = some ((n : Int) + 1) := by
      refine List.max?_eq_some_iff.2 ⟨List.mem_map.2 ⟨n, List.mem_range.2 n.lt_succ_self, rfl⟩, fun m hm => ?_⟩
      obtain ⟨i, hi, rfl⟩ := List.mem_map.1 hm
      have hlt := List.mem_range.1 hi
      omega
    rw [hmax]
    push_cast
    rfl

private theorem Filled.taskByKey {n : Nat} {s : Store} (h : Filled n s) :
    s.taskByKey ((numbered n).effectiveKey sampleSha256) = none := by
  refine List.find?_eq_none.2 fun r hr heq => ?_
  obtain ⟨i, hi, hkey⟩ := h.keys r hr
  have hsame : i = n := numbered_key_injective (hkey.symm.trans (by simpa using heq))
  omega

private theorem Filled.submit {n : Nat} {s : Store} (h : Filled n s) :
    Filled (n + 1) ((Action.submitDirect (numbered n) 0).exec sampleSha256 s) := by
  let s' : Store :=
    { s.addTask ((numbered n).newRow ((numbered n).effectiveKey sampleSha256) 0) with
      hasHierarchy := s.hasHierarchy || false, hasTags := s.hasTags || false }
  have hone : submitOne sampleSha256 (numbered n) (!s.hasRunning) 0 s = (.ok (.inserted s.nextTaskId false), s') := by
    rw [submitOne_fresh rfl h.taskByKey]
    rfl
  have hexec : (Action.submitDirect (numbered n) 0).exec sampleSha256 s = s' := by
    show (transaction (fun s => submitOne sampleSha256 (numbered n) (!s.hasRunning) 0 s) s).2 = s'
    unfold transaction Txn.atomically
    dsimp only
    rw [hone]
  rw [hexec]
  refine ⟨?_, fun r hr => ?_, h.taskTags, h.taskDeps, h.taskHistory⟩
  · have hids : s'.ids = s.ids ++ [s.nextTaskId] := List.map_append
    rw [hids, h.ids, h.nextTaskId, List.range_succ, List.map_append]
    rfl
  · rcases List.mem_append.1 hr with hr | hr
    · obtain ⟨i, hi, hkey⟩ := h.keys r hr
      exact ⟨i, Nat.lt_succ_of_lt hi, hkey⟩
    · rw [List.mem_singleton.1 hr]
      exact ⟨n, n.lt_succ_self, rfl⟩

private theorem filled_filled (n : Nat) : Filled n (filled n) := by
  induction n with
  | zero => exact ⟨rfl, fun r hr => absurd hr List.not_mem_nil, rfl, rfl, rfl⟩
  | succ n ih => exact ih.submit

private theorem filled_reachable (n : Nat) :
    ReachableVia sampleSha256 (fun _ a => a.coalesced = false) (filled n) := by
  induction n with
  | zero => exact .start openMemory_fresh
  | succ n ih => exact .next ih (.submitDirect (numbered n) 0) rfl

/-- The ids of `n` tasks. -/
def firstIds (n : Nat) : List Int := (List.range n).map fun i : Nat => (i : Int) + 1

/-- A task that depends on `n` others and on itself. -/
def dependsOnAll (n : Nat) : TaskSubmission := { numbered n with dependencies := firstIds (n + 1) }

private theorem needActiveCheck_of_empty {s : Store} (h : s.taskHistory = []) (policy : DependencyFailurePolicy)
    (deps : List Int) : needActiveCheck s policy deps = .ok deps := by
  induction deps with
  | nil => rfl
  | cons dep deps ih =>
    have hnone : s.historyStatus dep = none := by
      rw [Store.historyStatus, h]
      rfl
    unfold needActiveCheck
    rw [hnone, ih]
    rfl

private theorem activeDependencies_of_subset {s : Store} {deps : List Int} (h : ∀ dep ∈ deps, dep ∈ s.ids) :
    activeDependencies s deps = .ok deps := by
  induction deps with
  | nil => rfl
  | cons dep deps ih =>
    rw [List.forall_mem_cons] at h
    rw [activeDependencies, if_pos (List.contains_iff_mem.2 h.1), ih h.2]
    rfl

private theorem firstIds_length (n : Nat) : (firstIds n).length = n := by
  rw [firstIds, List.length_map, List.length_range]

/-- The edges are inserted, and then there are too many of them. -/
private theorem Filled.attach {n : Nat} {s t : Store} (h : Filled n s) (hmany : maxCompoundSelect ≤ n + 1)
    (hle : 2 * (n + 1) ≤ maxVariableNumber) (hids : t.ids = s.ids ++ [s.nextTaskId]) (hdeps : t.taskDeps = s.taskDeps)
    (hhistory : t.taskHistory = s.taskHistory) (policy : DependencyFailurePolicy) :
    (attachDependencies s.nextTaskId (firstIds (n + 1)) policy t).1 = .error compoundSelectError := by
  have hlength := firstIds_length (n + 1)
  have hall : t.ids = firstIds (n + 1) := by
    rw [hids, h.ids, h.nextTaskId, firstIds, List.range_succ, List.map_append]
    rfl
  have hactive : t.activeDeps policy (firstIds (n + 1)) = .ok (firstIds (n + 1)) := by
    rw [activeDeps_of_le (by omega), needActiveCheck_of_empty (hhistory.trans h.taskHistory)]
    exact activeDependencies_of_subset fun dep hdep => hall ▸ hdep
  have hnodup : (firstIds (n + 1)).Nodup := List.nodup_range.map fun i j hij => by omega
  have htakes : t.TakesEdges s.nextTaskId (firstIds (n + 1)) := by
    refine ⟨by omega, hnodup, fun dep _ => ?_⟩
    rw [hdeps, h.taskDeps]
    exact List.not_mem_nil
  have hne : firstIds (n + 1) ≠ [] := fun hnil => by
    rw [hnil] at hlength
    cases hlength
  have hmany' : maxCompoundSelect ≤ (firstIds (n + 1)).length := by omega
  rw [attachDependencies_apply, hactive]
  dsimp only
  rw [if_neg hne, if_pos htakes, if_pos (.inl hmany'), seedsError, if_pos hmany']

private theorem Filled.refuses {n : Nat} {s : Store} (h : Filled n s) (hmany : maxCompoundSelect ≤ n + 1)
    (hle : 2 * (n + 1) ≤ maxVariableNumber) :
    (submitDirect sampleSha256 (dependsOnAll n) 0 s).1 = .error compoundSelectError := by
  have hkey : s.taskByKey ((dependsOnAll n).effectiveKey sampleSha256) = none := h.taskByKey
  have hone : (submitOne sampleSha256 (dependsOnAll n) (!s.hasRunning) 0 s).1 = .error compoundSelectError := by
    rw [submitOne_fresh rfl hkey]
    have hids : ∀ tags hierarchy hasTags,
        ((s.addTask ((dependsOnAll n).newRow ((dependsOnAll n).effectiveKey sampleSha256) 0)).tagged tags hierarchy
          hasTags).ids = s.ids ++ [s.nextTaskId] := fun _ _ _ => List.map_append
    obtain ⟨tags, hierarchy, hasTags, ⟨hins, _⟩ | ⟨hins, ⟨e, s₂, hatt, hfin⟩ | ⟨s₂, hatt, _⟩⟩⟩ :=
      finishInsert_cases (dependsOnAll n) s.nextTaskId 0
        (s.addTask ((dependsOnAll n).newRow ((dependsOnAll n).effectiveKey sampleSha256) 0))
    · cases hins
    · cases (congrArg Prod.fst hatt).symm.trans (h.attach hmany hle (hids tags hierarchy hasTags) rfl rfl _)
      rw [hfin]
    · cases (congrArg Prod.fst hatt).symm.trans (h.attach hmany hle (hids tags hierarchy hasTags) rfl rfl _)
  unfold submitDirect transaction Txn.atomically
  dsimp only
  rcases hrun : submitOne sampleSha256 (dependsOnAll n) (!s.hasRunning) 0 s with ⟨r, s'⟩
  rw [hrun] at hone
  obtain rfl : r = .error compoundSelectError := hone
  rfl

/-- The table in which `detect_cycle` looks when this task is submitted after `n` others. -/
def afterEdges (n : Nat) : Store :=
  ((filled n).addTask ((dependsOnAll n).newRow ((dependsOnAll n).effectiveKey sampleSha256) 0)).addEdges
    (edgesFrom (n + 1) (firstIds (n + 1)))

/-- The 500th task is one of its own dependencies, and neither `detect_cycle` nor the submission says so. -/
theorem manySeeds_not_cyclic :
    ReachableVia sampleSha256 (fun _ a => a.coalesced = false) (filled 499) ∧
    (submitDirect sampleSha256 (dependsOnAll 499) 0 (filled 499)).1 = .error compoundSelectError ∧
    ¬ ((detectCycle 500 (firstIds 500) (afterEdges 499)).1 = .error .cyclicDependency ↔
      ∃ dep ∈ firstIds 500, Relation.ReflTransGen (Edge (afterEdges 499).taskDeps) dep 500) := by
  have hlength := firstIds_length 500
  have herr : (detectCycle 500 (firstIds 500) (afterEdges 499)).1 = .error compoundSelectError :=
    detectCycle_many hlength.ge
  have hmem : (500 : Int) ∈ firstIds 500 := List.mem_map.2 ⟨499, List.mem_range.2 (by decide), rfl⟩
  refine ⟨filled_reachable 499, (filled_filled 499).refuses (by decide) (by decide), fun hexact => ?_⟩
  have hcyclic := hexact.2 ⟨500, hmem, .refl⟩
  rw [herr] at hcyclic
  exact compoundSelectError_ne (Except.error.inj hcyclic)

end Taskmill
