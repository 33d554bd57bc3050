import Taskmill.DispatchQueries
import Taskmill.Scheduler.Allocation
import Taskmill.Scheduler.SlowDispatch

/-!
# The passes of fair dispatch

`dispatch_fair` (`src/scheduler/run_loop.rs`): the groups start what the allocation leaves them, the next tasks of
the queue fill the slots that are left, and the urgent tasks those that are left then.  The clock stands still, and
the shares are those of exact arithmetic (`exactAllocation`).

The first pass counts what it has started, and adds this to the active tasks, of which they are a part already.
Each task of the first pass so takes two slots, and `fair_fills_iff` says when nobody notices.
-/

namespace Taskmill

open Transact

/-- `DispatchGate::admit` with `skip_group_concurrency`; a gate may take tokens. -/
abbrev DispatchGate := Bool → GateContext → TaskRecord → Except StoreError (Admission × GateContext)

/-- `DefaultDispatchGate` -/
def GateConfig.toDispatchGate (g : GateConfig) : DispatchGate := fun skip ctx task =>
  .ok ((if skip then { g with groupLimits := .new } else g).admission ctx task)

/-- The gate admits whatever it is asked from now on. -/
def DispatchGate.AdmitsAll (gate : DispatchGate) (types groups : RateLimits) : Prop :=
  ∃ P : RateLimits → RateLimits → Prop, P types groups ∧ ∀ skip ctx task, P ctx.typeRateLimits ctx.groupRateLimits →
    ∃ ctx', gate skip ctx task = .ok (.admitted, ctx') ∧ P ctx'.typeRateLimits ctx'.groupRateLimits

/-- What does not change during a call of `dispatch_fair`. -/
structure FairCycle where
  gate : DispatchGate
  /-- the task types with an executor -/
  registered : String → Bool
  maxConcurrency : Nat
  weights : GroupWeights
  groupLimits : GroupLimits
  pausedGroups : List String
  agingConfig : Option AgingConfig
  now : Int
  /-- the readings with which the record of a task is patched after its claim -/
  readings : Int → Readings

/-- The keys of a hash map with the demand of the groups, in the order in which it happens to be iterated. -/
structure GroupOrder (s : Store) (now : Int) where
  groups : List (Option String)
  nodup : groups.Nodup
  demanding : ∀ g ∈ groups, ∃ r ∈ s.tasks, r.groupKey = g ∧ (r.status = .running ∨ r.due now = true)
  complete : ∀ r ∈ s.tasks, r.status = .running ∨ r.due now = true → r.groupKey ∈ groups

/-- `merge_demand` -/
def GroupOrder.demand {s : Store} {now : Int} (order : GroupOrder s now) : Demand where
  groups := order.groups.map fun g => (g, s.demand now g)
  nodup := by
    rw [List.map_map]
    exact (List.map_id order.groups).symm ▸ order.nodup

/-- The query of the first pass. -/
def Store.peekNextIn (s : Store) (group : Option String) (aging : Option AgingParams) (now : Int) :
    Option TaskRecord :=
  match group with
  | some g => s.peekNextInGroup g aging now
  | none => s.peekNextUngrouped aging now

/-- What has become of a candidate. -/
inductive Dispatched where
  | started
  /-- it has expired, waits for a token, or somebody else has claimed it -/
  | skipped
  /-- the gate denies it, which ends the loop -/
  | denied

namespace FairCycle

variable (c : FairCycle)

def aging : Option AgingParams := c.agingConfig.map fun config => .fromConfig config c.now

/-- `spawn_dispatched_task` -/
def spawnDispatchedTask (task : TaskRecord) : Txn Dispatching StoreError Dispatched := fun σ =>
  if c.registered task.taskType then (.ok .started, σ.spawn task)
  else
    match withPrune c.now (failUnregistered task c.now) σ.store with
    | (.ok _, s) => (.ok .started, { σ with store := s })
    | (.error e, s) => (.error e, { σ with store := s })

/-- What all three passes do with a candidate. -/
def dispatch (skip : Bool) (candidate : TaskRecord) : Txn Dispatching StoreError Dispatched := fun σ =>
  if candidate.expiresAt.any (· ≤ c.now) then (.ok .skipped,
    { σ with store := (expireSingle candidate.id c.now σ.store).2 })
  else
    let candidate := σ.store.populateTags candidate
    match c.gate skip σ.context candidate with
    | .error e => (.error e, σ)
    | .ok (.deny, ctx) => (.ok .denied, σ.acquired ctx)
    | .ok (.rateLimited runAfter, ctx) =>
      (.ok .skipped, { σ.acquired ctx with store := σ.store.setRunAfter candidate.id runAfter })
    | .ok (.admitted, ctx) =>
      match claimTask candidate.id c.now σ.store with
      | (.ok true, s) =>
        c.spawnDispatchedTask (candidate.patched (c.readings candidate.id)) { σ.acquired ctx with store := s }
      | (.ok false, s) => (.ok .skipped, { σ.acquired ctx with store := s })
      | (.error e, s) => (.error e, { σ.acquired ctx with store := s })

/-- The inner loop of the first pass, and `dispatched` after it. -/
def dispatchGroup (group : Option String) : Nat → Nat → Txn Dispatching StoreError Nat
  | 0, dispatched => pure dispatched
  | available + 1, dispatched => do
    let σ ← Txn.get
    if c.maxConcurrency ≤ σ.active.length + dispatched then pure dispatched
    else
      match σ.store.peekNextIn group c.aging c.now with
      | none => pure dispatched
      | some candidate =>
        match ← c.dispatch true candidate with
        | .started => dispatchGroup group available (dispatched + 1)
        | .skipped => dispatchGroup group available dispatched
        | .denied => pure dispatched

/-- The first pass. -/
def dispatchGroups : List (Option String × Nat) → Nat → Txn Dispatching StoreError Nat
  | [], dispatched => pure dispatched
  | (group, available) :: rest, dispatched => do
    let dispatched ← c.dispatchGroup group available dispatched
    dispatchGroups rest dispatched

/-- The loop of the second pass, and that of `dispatch_urgent`. -/
def fill (query : Store → Option TaskRecord) : Nat → Txn Dispatching StoreError Unit
  | 0 => pure ()
  | remaining + 1 => do
    let σ ← Txn.get
    match query σ.store with
    | none => pure ()
    | some candidate =>
      match ← c.dispatch false candidate with
      | .denied => pure ()
      | _ => fill query remaining

/-- The third pass. -/
def dispatchUrgent : Txn Dispatching StoreError Unit := do
  match c.agingConfig.bind (·.urgentThreshold) with
  | none => pure ()
  | some threshold =>
    let σ ← Txn.get
    c.fill (·.peekNextUrgent threshold c.aging c.now) (c.maxConcurrency - σ.active.length)

/-- What the allocation leaves to the groups, in the order of the hash map. -/
def available {s : Store} (slots : List (Option String × Nat)) (order : GroupOrder s c.now) :
    List (Option String × Nat) :=
  order.groups.map fun group => (group, (slots.lookup group).getD 0 - s.runningIn group)

/-- The three passes. -/
def passes (available : List (Option String × Nat)) : Txn Dispatching StoreError Unit := do
  let dispatched ← c.dispatchGroups available 0
  let σ ← Txn.get
  c.fill (·.peekNext c.aging c.now) (c.maxConcurrency - (σ.active.length + dispatched))
  c.dispatchUrgent

/-- `dispatch_fair`, which panics if the sum of the weights overflows. -/
def dispatchFair (σ : Dispatching) (merged allocated : GroupOrder σ.store c.now) :
    Option (Except StoreError Unit × Dispatching) :=
  if c.maxConcurrency ≤ σ.active.length then some (.ok (), σ)
  else
    match exactAllocation c.maxConcurrency merged.demand c.weights c.groupLimits c.pausedGroups with
    | none => none
    | some slots => some (c.passes (c.available slots allocated) σ)

/-- The gate admits every task, every task has an executor, none has expired and none of the tasks that wait is still
active. -/
structure Plain (σ : Dispatching) : Prop where
  schema : σ.store.Schema
  admits : c.gate.AdmitsAll σ.typeRateLimits σ.groupRateLimits
  registered : ∀ r ∈ σ.store.tasks, c.registered r.taskType = true
  unexpired : ∀ r ∈ σ.store.tasks, r.due c.now = true → r.past c.now = false
  inactive : ∀ r ∈ σ.store.tasks, r.due c.now = true → ∀ task ∈ σ.active, task.id ≠ r.id

/-- How many of the tasks that can be dispatched meet `p`. -/
def waiting (s : Store) (p : TaskRow → Bool) : Nat := s.tasks.countP fun r => r.due c.now && p r

/-- The tasks of `dispatch_urgent`. -/
def urgent (r : TaskRow) : Bool :=
  match c.agingConfig.bind (·.urgentThreshold) with
  | none => false
  | some threshold => r.rank c.aging ≤ threshold.toNat

/-- What the first pass starts in each group: half of the free slots are poured into what is available and needed. -/
def shares (σ : Dispatching) (available : List (Option String × Nat)) : List Nat :=
  Apportion.pour ((c.maxConcurrency - σ.active.length + 1) / 2)
    (available.map fun g => min g.2 (c.waiting σ.store (·.groupKey == g.1)))

/-- The urgent tasks that the first pass leaves. -/
def urgentLeft (σ : Dispatching) (available : List (Option String × Nat)) : Nat :=
  (List.zipWith (fun g started => c.waiting σ.store (fun r => r.groupKey == g.1 && c.urgent r) - started) available
    (c.shares σ available)).sum

/-- No slot is free, the first pass starts nothing, twice what it starts leaves enough for the rest, or the urgent
tasks make up for what is missing. -/
def Covers (σ : Dispatching) (available : List (Option String × Nat)) : Prop :=
  let free := c.maxConcurrency - σ.active.length
  let started := (c.shares σ available).sum
  let pending := c.waiting σ.store fun _ => true
  started = 0 ∨ started + pending ≤ free ∨ min free pending ≤ started + c.urgentLeft σ available

instance (σ : Dispatching) (available : List (Option String × Nat)) : Decidable (c.Covers σ available) :=
  inferInstanceAs (Decidable (_ ∨ _ ∨ _))

/-- After `dispatch_fair` no slot is free while a task waits. -/
def FillsSlots (σ : Dispatching) (merged allocated : GroupOrder σ.store c.now) : Prop :=
  ∃ σ', c.dispatchFair σ merged allocated = some (.ok (), σ') ∧
    σ'.active.length = max σ.active.length (min c.maxConcurrency (σ.active.length + c.waiting σ.store fun _ => true))

end FairCycle

/-! ### Four tasks for four slots -/

private def fourTasks : Store :=
  execAll sampleSha256 openMemory
    [.submitDirect (.new "a") 0, .submitDirect (.new "b") 0, .submitDirect (.new "c") 0, .submitDirect (.new "d") 0]

private def fourSlots : FairCycle where
  gate := GateConfig.toDispatchGate ⟨fun _ => false, none, .new, ∅, [], fun _ => 0, fun _ => 0⟩
  registered := fun _ => true
  maxConcurrency := 4
  weights := GroupWeights.new.setWeight "g" 2
  groupLimits := .new
  pausedGroups := []
  agingConfig := none
  now := 0
  readings := fun _ => ⟨0, 0⟩

private def oneQueue : GroupOrder fourTasks 0 := ⟨[none], by decide, by decide +kernel, by decide +kernel⟩

namespace FairCycle

variable {c : FairCycle} {σ σ' σ'' : Dispatching} {r : TaskRow} {p q : TaskRow → Bool}

/-- The row has been claimed and its task is active. -/
structure Started (c : FairCycle) (σ : Dispatching) (r : TaskRow) (σ' : Dispatching) : Prop where
  plain : c.Plain σ'
  active : σ'.active.length = σ.active.length + 1
  claimed : ∃ front back, σ.store.Split r front back ∧ σ'.store.tasks = front ++ r.claim c.now :: back

/-- A due task is started. -/
theorem dispatch_due (h : c.Plain σ) (hr : r ∈ σ.store.tasks) (hdue : r.due c.now = true) (skip : Bool) :
    ∃ σ', c.dispatch skip (rowToTaskRecord r) σ = (.ok .started, σ') ∧ c.Started σ r σ' := by
  obtain ⟨tags, htags⟩ := σ.store.populateTags_eq (rowToTaskRecord r)
  obtain ⟨P, hP, hadmit⟩ := h.admits
  obtain ⟨ctx, hgate, hctx⟩ := hadmit skip σ.context (σ.store.populateTags (rowToTaskRecord r)) hP
  obtain ⟨front, back, hsplit⟩ := h.schema.split hr
  obtain ⟨s, hclaim, htasks⟩ := claimTask_due hdue hsplit
  have hs : s.Schema := by
    have hexec : ((Action.claimTask r.id c.now).exec (fun _ => "") σ.store).Schema :=
      h.schema.steps ((Action.claimTask r.id c.now).steps _ σ.store)
    rwa [Action.exec, hclaim] at hexec
  let task := (σ.store.populateTags (rowToTaskRecord r)).patched (c.readings r.id)
  have htask : task.id = r.id ∧ task.taskType = r.taskType := by
    dsimp only [task]
    rw [htags]
    exact ⟨rfl, rfl⟩
  have hrun : c.dispatch skip (rowToTaskRecord r) σ =
      (.ok .started, Dispatching.spawn { σ.acquired ctx with store := s } task) := by
    have hexpired : ((rowToTaskRecord r).expiresAt.any (· ≤ c.now)) = false := h.unexpired r hr hdue
    have hid : (σ.store.populateTags (rowToTaskRecord r)).id = r.id := htask.1
    unfold dispatch
    rw [hexpired]
    dsimp only
    rw [hgate]
    dsimp only
    rw [hid, hclaim]
    dsimp only
    rw [spawnDispatchedTask, htask.2, if_pos (h.registered r hr)]
    rfl
  -- the rows of the store before
  have hmem : ∀ x ∈ s.tasks, x = r.claim c.now ∨ x ∈ σ.store.tasks ∧ x.id ≠ r.id := by
    intro x hx
    rw [htasks, List.mem_append, List.mem_cons] at hx
    rw [hsplit.tasks, List.mem_append, List.mem_cons]
    rcases hx with hx | hx | hx
    · exact .inr ⟨.inl hx, hsplit.front x hx⟩
    · exact .inl hx
    · exact .inr ⟨.inr (.inr hx), hsplit.back x hx⟩
  have hdue' : (r.claim c.now).due c.now = false := rfl
  refine ⟨_, hrun, ⟨hs, ⟨P, hctx, hadmit⟩, fun x hx => ?_, fun x hx hx' => ?_, fun x hx hx' t ht => ?_⟩, ?_,
    front, back, hsplit, htasks⟩
  · rcases hmem x hx with rfl | ⟨hx, _⟩
    · exact h.registered r hr
    · exact h.registered x hx
  · rcases hmem x hx with rfl | ⟨hx, _⟩
    · rw [hdue'] at hx'
      cases hx'
    · exact h.unexpired x hx hx'
  · rcases hmem x hx with rfl | ⟨hx, hne⟩
    · rw [hdue'] at hx'
      cases hx'
    · have ht : t ∈ σ.active.insert task := ht
      unfold ActiveTaskMap.insert ActiveTaskMap.remove at ht
      rw [List.mem_append, List.mem_singleton] at ht
      rcases ht with ht | rfl
      · exact h.inactive x hx hx' t (List.mem_filter.1 ht).1
      · rw [htask.1]
        exact Ne.symm hne
  · have hnew : σ.active.remove task.id = σ.active := by
      unfold ActiveTaskMap.remove
      rw [List.filter_eq_self]
      intro t ht
      have hne := h.inactive r hr hdue t ht
      rw [htask.1]
      simpa using hne
    show (σ.active.insert task).length = _
    rw [ActiveTaskMap.insert, hnew, List.length_append]
    rfl

/-- A task that has been started does not wait any more. -/
theorem Started.waiting_add (h : c.Started σ r σ') (hdue : r.due c.now = true) (p : TaskRow → Bool) :
    c.waiting σ'.store p + (if p r = true then 1 else 0) = c.waiting σ.store p := by
  obtain ⟨front, back, hsplit, htasks⟩ := h.claimed
  have hclaim : ((r.claim c.now).due c.now && p (r.claim c.now)) = false := rfl
  unfold waiting
  rw [htasks, hsplit.tasks, List.countP_append, List.countP_append, List.countP_cons, List.countP_cons, hclaim, hdue]
  simp only [Bool.true_and, Bool.false_eq_true, if_false]
  omega

/-! ### Tasks one after the other -/

/-- The rows that come before one with the property have it, too. -/
def Leading (c : FairCycle) (q : TaskRow → Bool) : Prop := ∀ x y, x.before c.aging y → q y = true → q x = true

/-- `n` tasks with `p` have been started, in the order of the queue. -/
structure Took (c : FairCycle) (σ : Dispatching) (p : TaskRow → Bool) (n : Nat) (σ' : Dispatching) : Prop where
  plain : c.Plain σ'
  active : σ'.active.length = σ.active.length + n
  all : c.waiting σ'.store (fun _ => true) + n = c.waiting σ.store fun _ => true
  leading : ∀ q, c.Leading q → c.waiting σ'.store (fun r => p r && q r) = c.waiting σ.store (fun r => p r && q r) - n
  others : ∀ q, (∀ r, q r = true → p r = false) → c.waiting σ'.store q = c.waiting σ.store q

theorem Took.zero (h : c.Plain σ) (p : TaskRow → Bool) : c.Took σ p 0 σ :=
  ⟨h, rfl, rfl, fun _ _ => rfl, fun _ _ => rfl⟩

theorem Took.cons {n : Nat} (hfirst : σ.store.IsFirst c.aging (fun r => r.due c.now && p r) r) (h : c.Started σ r σ')
    (hrest : c.Took σ' p n σ'') : c.Took σ p (n + 1) σ'' := by
  have hsel := hfirst.selected
  rw [Bool.and_eq_true] at hsel
  obtain ⟨hdue, hp⟩ := hsel
  have hadd := h.waiting_add hdue
  refine ⟨hrest.plain, ?_, ?_, fun q hq => ?_, fun q hq => ?_⟩
  · rw [hrest.active, h.active]
    omega
  · have hone := hadd fun _ => true
    rw [if_pos rfl] at hone
    have hall := hrest.all
    omega
  · rw [hrest.leading q hq]
    have hone := hadd fun r => p r && q r
    by_cases hqr : q r = true
    · rw [if_pos (by rw [hp, hqr]; rfl)] at hone
      omega
    · -- no task behind `r` has the property
      have hnone : c.waiting σ.store (fun r => p r && q r) = 0 := by
        unfold waiting
        rw [List.countP_eq_zero]
        intro x hx hsel
        rw [Bool.and_eq_true, Bool.and_eq_true] at hsel
        exact hqr (hq r x (hfirst.least x hx (by rw [hsel.1, hsel.2.1]; rfl)) hsel.2.2)
      omega
  · rw [hrest.others q hq]
    have hone := hadd q
    have hqr : ¬q r = true := fun hqr => by
      rw [hq r hqr] at hp
      cases hp
    rw [if_neg hqr] at hone
    omega

/-- The next candidate, if there is one. -/
theorem next_cases (s : Store) (p : TaskRow → Bool) :
    (c.waiting s p = 0 ∧ (s.ordered c.aging fun r => r.due c.now && p r).head?.map rowToTaskRecord = none) ∨
      ∃ r, s.IsFirst c.aging (fun r => r.due c.now && p r) r ∧
        (s.ordered c.aging fun r => r.due c.now && p r).head?.map rowToTaskRecord = some (rowToTaskRecord r) := by
  cases hq : s.ordered c.aging fun r => r.due c.now && p r with
  | nil =>
    refine .inl ⟨?_, rfl⟩
    unfold waiting
    rw [List.countP_eq_zero]
    intro r hr
    rw [Store.ordered_eq_nil.1 hq r hr]
    exact Bool.false_ne_true
  | cons r queue => exact .inr ⟨r, Store.isFirst_of_ordered hq, rfl⟩

/-- The second and the third pass start as many tasks as there are, up to their limit. -/
theorem fill_took {query : Store → Option TaskRecord} (h : c.Plain σ)
    (hquery : ∀ s : Store, query s = (s.ordered c.aging fun r => r.due c.now && p r).head?.map rowToTaskRecord)
    (n : Nat) :
    ∃ σ', c.fill query n σ = (.ok (), σ') ∧ c.Took σ p (min n (c.waiting σ.store p)) σ' := by
  induction n generalizing σ with
  | zero =>
    refine ⟨σ, rfl, ?_⟩
    rw [Nat.zero_min]
    exact .zero h p
  | succ n ih =>
    rcases next_cases (c := c) σ.store p with ⟨hnone, hq⟩ | ⟨r, hfirst, hq⟩
    · refine ⟨σ, ?_, ?_⟩
      · unfold fill
        rw [Txn.get_bind_apply]
        rw [hquery, hq]
        rfl
      · rw [hnone, Nat.min_zero]
        exact .zero h p
    · have hsel := hfirst.selected
      rw [Bool.and_eq_true] at hsel
      obtain ⟨σ₁, hrun, hstarted⟩ := dispatch_due h hfirst.mem hsel.1 false
      obtain ⟨σ₂, hrest, htook⟩ := ih hstarted.plain
      refine ⟨σ₂, ?_, ?_⟩
      · unfold fill
        rw [Txn.get_bind_apply]
        rw [hquery, hq]
        dsimp only
        rw [Txn.bind_of_ok hrun]
        exact hrest
      · have hone := hstarted.waiting_add hsel.1 p
        rw [if_pos hsel.2] at hone
        have hn : min (n + 1) (c.waiting σ.store p) = min n (c.waiting σ₁.store p) + 1 := by omega
        rw [hn]
        exact .cons hfirst hstarted htook

theorem peekNextIn_eq (s : Store) (group : Option String) (aging : Option AgingParams) (now : Int) :
    s.peekNextIn group aging now =
      (s.ordered aging fun r => r.due now && r.groupKey == group).head?.map rowToTaskRecord := by
  cases group with
  | none => rfl
  | some g => rfl

/-- The first pass starts the tasks of a group until two slots for each are gone. -/
theorem dispatchGroup_took (h : c.Plain σ) (group : Option String) (available dispatched : Nat) :
    ∃ n σ', n = min ((c.maxConcurrency - (σ.active.length + dispatched) + 1) / 2)
        (min available (c.waiting σ.store (·.groupKey == group))) ∧
      c.dispatchGroup group available dispatched σ = (.ok (dispatched + n), σ') ∧
        c.Took σ (·.groupKey == group) n σ' := by
  induction available generalizing σ dispatched with
  | zero =>
    refine ⟨0, σ, ?_, rfl, .zero h _⟩
    rw [Nat.zero_min, Nat.min_zero]
  | succ available ih =>
    by_cases hfull : c.maxConcurrency ≤ σ.active.length + dispatched
    · refine ⟨0, σ, by omega, ?_, .zero h _⟩
      unfold dispatchGroup
      rw [Txn.get_bind_apply, if_pos hfull]
      rfl
    rcases next_cases (c := c) σ.store (·.groupKey == group) with ⟨hnone, hq⟩ | ⟨r, hfirst, hq⟩
    · refine ⟨0, σ, by omega, ?_, .zero h _⟩
      unfold dispatchGroup
      rw [Txn.get_bind_apply, if_neg hfull, peekNextIn_eq, hq]
      rfl
    · have hsel := hfirst.selected
      rw [Bool.and_eq_true] at hsel
      obtain ⟨σ₁, hrun, hstarted⟩ := dispatch_due h hfirst.mem hsel.1 true
      obtain ⟨n, σ₂, hn, hrest, htook⟩ := ih hstarted.plain (dispatched + 1)
      have hone := hstarted.waiting_add hsel.1 (·.groupKey == group)
      rw [if_pos hsel.2] at hone
      have hhalf : (c.maxConcurrency - (σ₁.active.length + (dispatched + 1)) + 1) / 2 + 1 =
          (c.maxConcurrency - (σ.active.length + dispatched) + 1) / 2 := by
        rw [hstarted.active]
        clear hn hone
        omega
      rw [← hhalf, ← hone, Nat.add_min_add_right, Nat.add_min_add_right, ← hn]
      refine ⟨n + 1, σ₂, rfl, ?_, .cons hfirst hstarted htook⟩
      unfold dispatchGroup
      rw [Txn.get_bind_apply, if_neg hfull, peekNextIn_eq, hq]
      dsimp only
      rw [Txn.bind_of_ok hrun]
      dsimp only
      rw [hrest, Nat.add_assoc, Nat.add_comm 1 n]

/-- The first pass: what each group starts, and what waits in it afterwards. -/
theorem dispatchGroups_took (h : c.Plain σ) (available : List (Option String × Nat))
    (hnodup : (available.map (·.1)).Nodup) (dispatched : Nat) :
    ∃ counts σ', counts = Apportion.pour ((c.maxConcurrency - (σ.active.length + dispatched) + 1) / 2)
        (available.map fun g => min g.2 (c.waiting σ.store (·.groupKey == g.1))) ∧
      c.dispatchGroups available dispatched σ = (.ok (dispatched + counts.sum), σ') ∧ c.Plain σ' ∧
      σ'.active.length = σ.active.length + counts.sum ∧
      c.waiting σ'.store (fun _ => true) + counts.sum = c.waiting σ.store (fun _ => true) ∧
      (∀ q, c.Leading q → available.map (fun g => c.waiting σ'.store fun r => r.groupKey == g.1 && q r) =
        List.zipWith (fun g n => c.waiting σ.store (fun r => r.groupKey == g.1 && q r) - n) available counts) ∧
      (∀ q, (∀ r, q r = true → r.groupKey ∉ available.map (·.1)) → c.waiting σ'.store q = c.waiting σ.store q) := by
  induction available generalizing σ dispatched with
  | nil => exact ⟨[], σ, rfl, rfl, h, rfl, rfl, fun _ _ => rfl, fun _ _ => rfl⟩
  | cons g available ih =>
    obtain ⟨group, slots⟩ := g
    rw [List.map_cons, List.nodup_cons] at hnodup
    obtain ⟨n, σ₁, hn, hrun, htook⟩ := dispatchGroup_took h group slots dispatched
    obtain ⟨counts, σ₂, hcounts, hrest, hplain, hactive, hall, hleading, hothers⟩ :=
      ih htook.plain hnodup.2 (dispatched + n)
    -- the first group leaves the others alone
    have hwaiting : ∀ g ∈ available, ∀ q : TaskRow → Bool, c.waiting σ₁.store (fun r => r.groupKey == g.1 && q r) =
        c.waiting σ.store fun r => r.groupKey == g.1 && q r := by
      intro g hg q
      refine htook.others _ fun r hr => ?_
      rw [Bool.and_eq_true, beq_iff_eq] at hr
      rw [beq_eq_false_iff_ne, hr.1]
      rintro rfl
      exact hnodup.1 (List.mem_map.2 ⟨g, hg, rfl⟩)
    have hsizes : (available.map fun g => min g.2 (c.waiting σ₁.store (·.groupKey == g.1))) =
        available.map fun g => min g.2 (c.waiting σ.store (·.groupKey == g.1)) := by
      refine List.map_congr_left fun g hg => ?_
      have hsame := hwaiting g hg fun _ => true
      simp only [Bool.and_true] at hsame
      rw [hsame]
    have hactive₁ := htook.active
    have hall₁ := htook.all
    have hamount : (c.maxConcurrency - (σ₁.active.length + (dispatched + n)) + 1) / 2 =
        (c.maxConcurrency - (σ.active.length + dispatched) + 1) / 2 -
          min slots (c.waiting σ.store (·.groupKey == group)) := by
      have hhalf : (c.maxConcurrency - (σ₁.active.length + (dispatched + n)) + 1) / 2 =
          (c.maxConcurrency - (σ.active.length + dispatched) + 1) / 2 - n := by
        rw [hactive₁]
        clear hn hall₁
        omega
      rw [hhalf, hn]
      generalize (c.maxConcurrency - (σ.active.length + dispatched) + 1) / 2 = half
      clear hn hall₁ hhalf
      omega
    rw [hsizes, hamount] at hcounts
    refine ⟨n :: counts, σ₂, ?_, ?_, hplain, ?_, ?_, fun q hq => ?_, fun q hq => ?_⟩
    · rw [hn, hcounts]
      rfl
    · unfold dispatchGroups
      rw [Txn.bind_of_ok hrun, hrest, List.sum_cons, Nat.add_assoc]
    · rw [hactive, hactive₁, List.sum_cons, Nat.add_assoc]
    · rw [List.sum_cons]
      omega
    · rw [List.map_cons, List.zipWith_cons_cons, hleading q hq]
      have hfirst : c.waiting σ₂.store (fun r => r.groupKey == group && q r) =
          c.waiting σ₁.store fun r => r.groupKey == group && q r := by
        refine hothers _ fun r hr => ?_
        rw [Bool.and_eq_true, beq_iff_eq] at hr
        rw [hr.1]
        exact hnodup.1
      rw [hfirst, htook.leading q hq]
      congr 1
      have hsame : available.map (fun g => c.waiting σ₁.store fun r => r.groupKey == g.1 && q r) =
          available.map fun g => c.waiting σ.store fun r => r.groupKey == g.1 && q r :=
        List.map_congr_left fun g hg => hwaiting g hg q
      have hzip : ∀ s : Store, List.zipWith (fun g n => c.waiting s (fun r => r.groupKey == g.1 && q r) - n)
        available counts =
          List.zipWith (· - ·) (available.map fun g => c.waiting s fun r => r.groupKey == g.1 && q r) counts :=
              fun s => by
        rw [List.zipWith_map_left]
      rw [hzip, hzip, hsame]
    · rw [hothers q fun r hr => fun hmem => hq r hr (by rw [List.map_cons]; exact List.mem_cons_of_mem _ hmem)]
      refine htook.others q fun r hr => ?_
      rw [beq_eq_false_iff_ne]
      rintro rfl
      exact hq r hr (by rw [List.map_cons]; exact List.mem_cons_self)

/-- The tasks that wait, group by group. -/
theorem waiting_groups (c : FairCycle) (s : Store) (groups : List (Option String)) (hnodup : groups.Nodup)
    (q : TaskRow → Bool) (hgroups : ∀ r ∈ s.tasks, r.due c.now = true → q r = true → r.groupKey ∈ groups) :
    c.waiting s q = (groups.map fun g => c.waiting s fun r => r.groupKey == g && q r).sum := by
  induction groups generalizing q with
  | nil =>
    unfold waiting
    rw [List.map_nil, List.sum_nil, List.countP_eq_zero]
    intro r hr hsel
    rw [Bool.and_eq_true] at hsel
    exact absurd (hgroups r hr hsel.1 hsel.2) List.not_mem_nil
  | cons g groups ih =>
    rw [List.nodup_cons] at hnodup
    have hrest := ih hnodup.2 (fun r => !(r.groupKey == g) && q r) fun r hr hdue hq => by
      rw [Bool.and_eq_true, Bool.not_eq_true', beq_eq_false_iff_ne] at hq
      exact (List.mem_cons.1 (hgroups r hr hdue hq.2)).resolve_left hq.1
    have hsame : groups.map (fun g' => c.waiting s fun r => r.groupKey == g' && (!(r.groupKey == g) && q r)) =
        groups.map fun g' => c.waiting s fun r => r.groupKey == g' && q r := by
      refine List.map_congr_left fun g' hg' => ?_
      refine List.countP_congr fun r _ => ?_
      by_cases hr : r.groupKey = g'
      · have hne : g' ≠ g := fun h => hnodup.1 (h ▸ hg')
        simp [hr, hne]
      · simp [hr]
    rw [hsame] at hrest
    rw [List.map_cons, List.sum_cons, ← hrest]
    unfold waiting
    rw [List.countP_eq_countP_filter_add s.tasks _ (·.groupKey == g), List.countP_filter, List.countP_filter]
    congr 1
    · refine List.countP_congr fun r _ => ?_
      simp only [Bool.and_eq_true]
      tauto
    · refine List.countP_congr fun r _ => ?_
      simp only [Bool.and_eq_true]
      tauto

theorem urgent_leading (c : FairCycle) : c.Leading c.urgent := by
  intro x y hxy hy
  unfold urgent at hy ⊢
  cases h : c.agingConfig.bind (·.urgentThreshold) with
  | none =>
    rw [h] at hy
    cases hy
  | some threshold =>
    simp only [h, decide_eq_true_eq] at hy ⊢
    unfold TaskRow.before at hxy
    omega

/-- The third pass. -/
theorem dispatchUrgent_took (h : c.Plain σ) :
    ∃ σ', c.dispatchUrgent σ = (.ok (), σ') ∧
      c.Took σ c.urgent (min (c.maxConcurrency - σ.active.length) (c.waiting σ.store c.urgent)) σ' := by
  cases hthreshold : c.agingConfig.bind (·.urgentThreshold) with
  | none =>
    have hnone : c.waiting σ.store c.urgent = 0 := by
      unfold waiting
      rw [List.countP_eq_zero]
      intro r _ hsel
      rw [Bool.and_eq_true, urgent, hthreshold] at hsel
      cases hsel.2
    refine ⟨σ, ?_, ?_⟩
    · unfold dispatchUrgent
      rw [hthreshold]
      rfl
    · rw [hnone, Nat.min_zero]
      exact .zero h _
  | some threshold =>
    obtain ⟨config, hconfig, _⟩ := Option.bind_eq_some_iff.1 hthreshold
    have hquery : ∀ s : Store, s.peekNextUrgent threshold c.aging c.now =
        (s.ordered c.aging fun r => r.due c.now && c.urgent r).head?.map rowToTaskRecord := by
      intro s
      unfold Store.peekNextUrgent aging urgent
      rw [hthreshold, aging, hconfig]
      rfl
    obtain ⟨σ', hrun, htook⟩ := fill_took h hquery (c.maxConcurrency - σ.active.length)
    refine ⟨σ', ?_, htook⟩
    unfold dispatchUrgent
    rw [hthreshold]
    exact hrun

/-- How many tasks the three passes start. -/
theorem passes_count (h : c.Plain σ) (slots : List (Option String × Nat)) (order : GroupOrder σ.store c.now) :
    ∃ first second third σ', first = (c.shares σ (c.available slots order)).sum ∧
      second = min (c.maxConcurrency - (σ.active.length + first + first))
      (c.waiting σ.store (fun _ => true) - first) ∧
      third = min (c.maxConcurrency - (σ.active.length + first + second))
      (c.urgentLeft σ (c.available slots order) - second) ∧
      first + c.urgentLeft σ (c.available slots order) ≤ c.waiting σ.store (fun _ => true) ∧
      c.passes (c.available slots order) σ = (.ok (), σ') ∧
        σ'.active.length = σ.active.length + first + second + third := by
  have hkeys : (c.available slots order).map (·.1) = order.groups := by
    unfold available
    rw [List.map_map]
    exact List.map_id _
  obtain ⟨counts, σ₁, hcounts, hrun, hplain, hactive, hall, hleading, hothers⟩ :=
    dispatchGroups_took h (c.available slots order) (by rw [hkeys]; exact order.nodup) 0
  have hshares : counts = c.shares σ (c.available slots order) := hcounts
  rw [Nat.zero_add] at hrun
  -- the second pass takes urgent tasks first
  have hquery : ∀ s : Store, s.peekNext c.aging c.now =
      (s.ordered c.aging fun r => r.due c.now && true).head?.map rowToTaskRecord := by
    intro s
    unfold Store.peekNext
    simp only [Bool.and_true]
  obtain ⟨σ₂, hfill, htook⟩ := fill_took hplain hquery (c.maxConcurrency - (σ₁.active.length + counts.sum))
  obtain ⟨σ₃, hurgent, htook'⟩ := dispatchUrgent_took htook.plain
  have hgroups : ∀ r ∈ σ₁.store.tasks, r.due c.now = true → r.groupKey ∈ order.groups := by
    intro r hr hdue
    by_contra hno
    have hnone : c.waiting σ.store (·.groupKey == r.groupKey) = 0 := by
      unfold waiting
      rw [List.countP_eq_zero]
      intro x hx hsel
      rw [Bool.and_eq_true, beq_iff_eq] at hsel
      exact hno (hsel.2 ▸ order.complete x hx (.inr hsel.1))
    have hsame := hothers (·.groupKey == r.groupKey) fun x hx => by
      rw [hkeys, eq_of_beq hx]
      exact hno
    rw [hnone] at hsame
    unfold waiting at hsame
    rw [List.countP_eq_zero] at hsame
    exact hsame r hr (by simp [hdue])
  have hleft : c.waiting σ₁.store c.urgent = c.urgentLeft σ (c.available slots order) := by
    rw [waiting_groups c σ₁.store order.groups order.nodup c.urgent fun r hr hdue _ => hgroups r hr hdue]
    have hlist := hleading c.urgent c.urgent_leading
    rw [hshares] at hlist
    unfold urgentLeft
    rw [← hlist, ← hkeys, List.map_map]
    rfl
  have hmono : c.waiting σ₁.store c.urgent ≤ c.waiting σ₁.store fun _ => true := by
    unfold waiting
    refine List.countP_mono_left fun r _ hsel => ?_
    rw [Bool.and_eq_true] at hsel
    rw [hsel.1]
    rfl
  have hpending : c.waiting σ₁.store (fun _ => true) = c.waiting σ.store (fun _ => true) - counts.sum := by omega
  have hafter : c.waiting σ₂.store c.urgent = c.waiting σ₁.store c.urgent -
      min (c.maxConcurrency - (σ₁.active.length + counts.sum)) (c.waiting σ₁.store fun _ => true) :=
    htook.leading c.urgent c.urgent_leading
  have hactive₃ := htook'.active
  rw [hafter, htook.active, hactive, hpending] at hactive₃
  rw [← hshares, ← hleft]
  refine ⟨counts.sum, _, _, σ₃, rfl, rfl, rfl, by omega, ?_, hactive₃⟩
  unfold passes
  rw [Txn.bind_of_ok hrun, Txn.get_bind_apply, Txn.bind_of_ok hfill]
  exact hurgent

end FairCycle

/-- The slots that are filled, with `free` slots for `pending` tasks, `urgent` of which are urgent and left by the
first pass. -/
theorem passes_fill_iff {free first second third pending urgent : Nat} (hfirst : first ≤ (free + 1) / 2)
    (hsecond : second = min (free - first - first) (pending - first))
    (hthird : third = min (free - first - second) (urgent - second)) (hurgent : first + urgent ≤ pending) :
    first + second + third = min free pending ↔
      first = 0 ∨ first + pending ≤ free ∨ min free pending ≤ first + urgent := by
  -- the third pass goes on where the second has left off
  have htotal : second + third = max second (min (free - first) urgent) := by
    clear hfirst hurgent
    omega
  rw [Nat.add_assoc, htotal]
  by_cases hlast : pending - first ≤ free - first - first
  · rw [hsecond, Nat.min_eq_right hlast]
    clear hsecond hthird htotal
    omega
  · rw [hsecond, Nat.min_eq_left (Nat.le_of_not_le hlast)]
    clear hsecond hthird htotal
    omega

private theorem fourTasks_plain (max : Nat) :
    { fourSlots with maxConcurrency := max }.Plain ⟨fourTasks, [], ∅, ∅, ∅⟩ := by
  have hfresh : ∀ r ∈ fourTasks.tasks, r.due 0 = true → r.past 0 = false := by decide +kernel
  refine ⟨schema_execAll sampleSha256 _ openMemory_fresh.schema, ?_, fun _ _ => rfl, hfresh,
    fun _ _ _ _ h => nomatch h⟩
  -- without buckets the gate is open
  refine ⟨fun types groups => types = ∅ ∧ groups = ∅, ⟨rfl, rfl⟩, fun skip ctx task hempty => ⟨ctx, ?_, hempty⟩⟩
  have hopen : ∀ limits : GroupLimits, limits = .new →
      (⟨fun _ => false, none, limits, ∅, [], fun _ => 0, fun _ => 0⟩ : GateConfig).denies ctx task = false := by
    rintro _ rfl
    cases hg : task.groupKey <;> cases hm : moduleName task.taskType <;>
      simp [GateConfig.denies, GateConfig.hasIoHeadroom, GateConfig.hasNetIoHeadroom, GateConfig.groupSaturated,
        GateConfig.moduleSaturated, GroupLimits.limitFor, GroupLimits.new, hg, hm]
  have hadmitted : ∀ g : GateConfig, g.denies ctx task = false → g.admission ctx task = (.admitted, ctx) := by
    intro g hg
    obtain ⟨running, io, modules, types, groups⟩ := ctx
    obtain ⟨rfl, rfl⟩ : types = ∅ ∧ groups = ∅ := hempty
    unfold GateConfig.admission
    rw [hg]
    cases task.groupKey <;> rfl
  cases skip with
  | false => exact congrArg Except.ok (hadmitted _ (hopen _ rfl))
  | true => exact congrArg Except.ok (hadmitted _ (hopen _ rfl))

end Taskmill
