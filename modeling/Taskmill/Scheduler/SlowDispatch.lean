import Taskmill.Scheduler.Admission
import Taskmill.Scheduler.Queue
import Taskmill.Survival

/-!
# The slow dispatch loop

The slow loop of `dispatch_pending` (`src/scheduler/run_loop.rs`) calls `try_dispatch` until it returns `false`, and
`try_dispatch` looks at the head of the queue only.  When the gate denies the head, the loop ends, and nobody has
asked whether the gate admits one of the tasks behind it.

The clock stands still.  The queue is then a list that is worked off from its head (`Cycle.Clear`), and the loop
ends with nothing left to start if and only if, where it meets a task that is denied, the gate denies all the tasks
behind it, too.
-/

namespace Taskmill

open Transact

/-- What does not change during the loop. -/
structure Cycle where
  gate : GateConfig
  /-- the task types with an executor -/
  registered : String → Bool
  maxConcurrency : Nat
  aging : Option AgingParams
  now : Int
  /-- the readings with which the record of a task is patched after its claim -/
  readings : Int → Readings

structure Dispatching where
  store : Store
  active : ActiveTaskMap
  moduleRunning : StringMap Nat
  typeRateLimits : RateLimits
  groupRateLimits : RateLimits

namespace Dispatching

/-- What the gate reads. -/
def context (σ : Dispatching) : GateContext where
  runningCountForGroup := σ.store.runningCountForGroup
  runningIo := σ.store.runningIo
  moduleRunning := σ.moduleRunning
  typeRateLimits := σ.typeRateLimits
  groupRateLimits := σ.groupRateLimits

/-- The gate has taken tokens. -/
def acquired (σ : Dispatching) (ctx : GateContext) : Dispatching :=
  { σ with typeRateLimits := ctx.typeRateLimits, groupRateLimits := ctx.groupRateLimits }

/-- `spawn_task`, as far as dispatch sees it -/
def spawn (σ : Dispatching) (task : TaskRecord) : Dispatching :=
  { σ with active := σ.active.insert task, moduleRunning := countRunning σ.moduleRunning task.taskType }

end Dispatching

namespace Cycle

/-- `spawn_dispatched_task` -/
def spawnDispatchedTask (c : Cycle) (task : TaskRecord) (σ : Dispatching) : Except StoreError Bool × Dispatching :=
  if c.registered task.taskType then (.ok true, σ.spawn task)
  else
    match withPrune c.now (failUnregistered task c.now) σ.store with
    | (.ok _, s) => (.ok true, { σ with store := s })
    | (.error e, s) => (.error e, { σ with store := s })

/-- `try_dispatch` without fast dispatch -/
def tryDispatch (c : Cycle) (σ : Dispatching) : Except StoreError Bool × Dispatching :=
  if c.maxConcurrency ≤ σ.active.length then (.ok false, σ)
  else
    match σ.store.peekNext c.aging c.now with
    | none => (.ok false, σ)
    | some candidate =>
      let candidate := σ.store.populateTags candidate
      -- an expired candidate is expired, whatever comes of it, and the loop goes on
      if candidate.expiresAt.any (· ≤ c.now) then
        (.ok true, { σ with store := (expireSingle candidate.id c.now σ.store).2 })
      else
        match c.gate.admission σ.context candidate with
        | (.deny, _) => (.ok false, σ)
        | (.rateLimited runAfter, ctx) =>
          (.ok true, { σ.acquired ctx with store := σ.store.setRunAfter candidate.id runAfter })
        | (.admitted, ctx) =>
          match claimTask candidate.id c.now σ.store with
          | (.ok true, s) =>
            c.spawnDispatchedTask (candidate.patched (c.readings candidate.id)) { σ.acquired ctx with store := s }
          | (.ok false, s) => (.ok false, { σ.acquired ctx with store := s })
          | (.error e, s) => (.error e, { σ.acquired ctx with store := s })

/-- The slow loop of `dispatch_pending`, for as many rounds as `fuel` allows. -/
def dispatchPending (c : Cycle) : Nat → Dispatching → Option (Except StoreError Unit × Dispatching)
  | 0, _ => none
  | fuel + 1, σ =>
    match c.tryDispatch σ with
    | (.ok true, σ) => c.dispatchPending fuel σ
    | (.ok false, σ) => some (.ok (), σ)
    | (.error e, σ) => some (.error e, σ)

/-- The slots are taken, or the gate admits no eligible task. -/
def Exhausted (c : Cycle) (σ : Dispatching) : Prop :=
  c.maxConcurrency ≤ σ.active.length ∨
    ∀ r ∈ σ.store.tasks, r.eligible c.now = true → (c.gate.admission σ.context (rowToTaskRecord r)).1 ≠ .admitted

end Cycle

/-! ### Working off the queue -/

/-- A task of this row runs, too. -/
def GateContext.start (ctx : GateContext) (r : TaskRow) : GateContext :=
  { ctx with
    runningCountForGroup := fun group => ctx.runningCountForGroup group + if r.groupKey = some group then 1 else 0
    runningIo := ctx.runningIo.add r.expectedIo
    moduleRunning := countRunning ctx.moduleRunning r.taskType }

/-- What the head of the queue leaves behind when it is worked off: the active tasks, what the gate reads, and the row
itself if its token comes before the clock moves on.  A task that is denied is not worked off. -/
def Cycle.workOff (c : Cycle) (active : List Int) (ctx : GateContext) (r : TaskRow) :
    Option (List Int × GateContext × List TaskRow) :=
  if r.past c.now then some (active, ctx, [])
  else
    match c.gate.admission ctx (rowToTaskRecord r) with
    | (.deny, _) => none
    | (.rateLimited runAfter, ctx) =>
      some (active, ctx, if c.now < runAfter then [] else [{ r with runAfter := some runAfter }])
    | (.admitted, ctx) =>
      if c.registered r.taskType then some (active.filter (· != r.id) ++ [r.id], ctx.start r, [])
      else some (active, ctx, [])

/-- Going down the queue with these active tasks, no task that the gate admits stands behind one that it denies,
unless the slots are taken before. -/
inductive Cycle.Clear (c : Cycle) : List Int → GateContext → List TaskRow → Prop
  | full {active : List Int} {ctx : GateContext} {queue : List TaskRow} (h : c.maxConcurrency ≤ active.length) :
    Clear c active ctx queue
  | empty {active : List Int} {ctx : GateContext} : Clear c active ctx []
  | next {active active' : List Int} {ctx ctx' : GateContext} {r : TaskRow} {queue head : List TaskRow}
    (hr : c.workOff active ctx r = some (active', ctx', head)) (h : Clear c active' ctx' (head ++ queue)) :
    Clear c active ctx (r :: queue)
  | denied {active : List Int} {ctx : GateContext} {r : TaskRow} {queue : List TaskRow}
  (hr : c.workOff active ctx r = none)
    (h : ∀ r ∈ queue, r.past c.now = false → (c.gate.admission ctx (rowToTaskRecord r)).1 ≠ .admitted) :
    Clear c active ctx (r :: queue)

def Cycle.queue (c : Cycle) (s : Store) : List TaskRow := s.ordered c.aging (·.due c.now)

/-- The queue is clear in this state. -/
def Cycle.ClearFrom (c : Cycle) (σ : Dispatching) : Prop := c.Clear (σ.active.map (·.id)) σ.context (c.queue σ.store)

section Clear

variable {c : Cycle} {active active' : List Int} {ctx ctx' : GateContext} {r : TaskRow} {queue head : List TaskRow}

private theorem clear_next (hfull : ¬ c.maxConcurrency ≤ active.length)
    (hr : c.workOff active ctx r = some (active', ctx', head)) :
    c.Clear active ctx (r :: queue) ↔ c.Clear active' ctx' (head ++ queue) := by
  constructor
  · intro h
    cases h with
    | full h => exact absurd h hfull
    | next hr' h =>
      cases hr.symm.trans hr'
      exact h
    | denied hr' _ => cases hr.symm.trans hr'
  · exact fun h => .next hr h

private theorem clear_denied (hfull : ¬ c.maxConcurrency ≤ active.length) (hr : c.workOff active ctx r = none) :
    c.Clear active ctx (r :: queue) ↔
      ∀ r ∈ queue, r.past c.now = false → (c.gate.admission ctx (rowToTaskRecord r)).1 ≠ .admitted := by
  constructor
  · intro h
    cases h with
    | full h => exact absurd h hfull
    | next hr' _ => cases hr.symm.trans hr'
    | denied _ h => exact h
  · exact fun h => .denied hr h

end Clear

/-! ### What the gate reads -/

section Context

variable {s s' : Store} {r : TaskRow} {front back mid : List TaskRow}

/-- The rows that do not run do not count. -/
private theorem running_same (h : s.Split r front back) (hr : r.status ≠ .running)
    (hmid : ∀ x ∈ mid, x.status ≠ .running) (htasks : s'.tasks = front ++ mid ++ back) :
    s'.runningCountForGroup = s.runningCountForGroup ∧ s'.runningIo = s.runningIo := by
  have hmidf : mid.filter (·.status == .running) = [] := List.filter_eq_nil_iff.2 fun x hx => by simpa using hmid x hx
  constructor
  · funext group
    have hmidc : mid.countP (fun x => x.groupKey == some group && x.status == .running) = 0 :=
      List.countP_eq_zero.2 fun x hx => by simp [hmid x hx]
    simp [Store.runningCountForGroup, htasks, h.tasks, List.countP_append, hmidc, hr]
  · simp [Store.runningIo, Store.sumRunning, htasks, h.tasks, List.filter_append, hmidf, hr]

private theorem sumRunning_claim {now : Int} (h : s.Split r front back) (hr : r.status = .pending)
    (htasks : s'.tasks = front ++ r.claim now :: back) (f : IoBudget → Int) :
    s'.sumRunning f = s.sumRunning f + f r.expectedIo := by
  have hclaim : (r.claim now).status = .running := rfl
  have hio : (r.claim now).expectedIo = r.expectedIo := rfl
  have hafter : s'.tasks.filter (·.status == .running) =
      front.filter (·.status == .running) ++ r.claim now :: back.filter (·.status == .running) := by
    simp [htasks, hclaim]
  have hbefore : s.tasks.filter (·.status == .running) =
      front.filter (·.status == .running) ++ back.filter (·.status == .running) := by
    simp [h.tasks, hr]
  rw [Store.sumRunning, Store.sumRunning, hafter, hbefore]
  simp only [List.map_append, List.map_cons, List.sum_append, List.sum_cons, hio]
  omega

/-- A row that is claimed counts. -/
theorem running_claim {now : Int} (h : s.Split r front back) (hr : r.status = .pending)
    (htasks : s'.tasks = front ++ r.claim now :: back) :
    (∀ group, s'.runningCountForGroup group = s.runningCountForGroup group + if r.groupKey =
      some group then 1 else 0) ∧
      s'.runningIo = s.runningIo.add r.expectedIo := by
  have hclaim : (r.claim now).status = .running := rfl
  have hgroup : (r.claim now).groupKey = r.groupKey := rfl
  constructor
  · intro group
    simp only [Store.runningCountForGroup, htasks, h.tasks, List.countP_append, List.countP_cons, hclaim, hgroup, hr]
    by_cases hg : r.groupKey = some group
    · simp [hg, Nat.add_assoc]
    · simp [hg]
  · have hsum := sumRunning_claim h hr htasks
    simp [Store.runningIo, IoBudget.add, hsum]

end Context

/-- The gate takes tokens and changes nothing else. -/
theorem admission_frame {g : GateConfig} {ctx ctx' : GateContext} {task : TaskRecord} {a : Admission}
    (h : g.admission ctx task = (a, ctx')) :
    ctx' = { ctx with typeRateLimits := ctx'.typeRateLimits, groupRateLimits := ctx'.groupRateLimits } := by
  rw [GateConfig.admission] at h
  split at h
  · cases h
    rfl
  · split at h
    · cases h
      rfl
    · dsimp only at h
      split at h
      · cases h
        rfl
      · split at h
        · cases h
          rfl
        · cases h
          rfl

/-! ### One round -/

section Round

variable {c : Cycle} {σ σ' : Dispatching} {r : TaskRow} {queue : List TaskRow}

/-- The queue and what the gate reads are in the tasks. -/
private theorem clearFrom_congr (htasks : σ'.store.tasks = σ.store.tasks)
    (h : σ' = { σ with store := σ'.store }) : c.ClearFrom σ' ↔ c.ClearFrom σ := by
  have hcount : σ'.store.runningCountForGroup = σ.store.runningCountForGroup := by
    funext group
    rw [Store.runningCountForGroup, Store.runningCountForGroup, htasks]
  have hio : σ'.store.runningIo = σ.store.runningIo := by
    simp [Store.runningIo, Store.sumRunning, htasks]
  have hqueue : c.queue σ'.store = c.queue σ.store := by
    rw [Cycle.queue, Cycle.queue, Store.ordered, Store.ordered, htasks]
  rw [Cycle.ClearFrom, Cycle.ClearFrom, hqueue, h]
  simp [Dispatching.context, hcount, hio]

theorem tryDispatch_empty (hfull : ¬ c.maxConcurrency ≤ σ.active.length) (hq : c.queue σ.store = []) :
    c.tryDispatch σ = (.ok false, σ) := by
  have hpeek : σ.store.peekNext c.aging c.now = none := by
    rw [Store.peekNext, show σ.store.ordered c.aging (·.due c.now) = [] from hq]
    rfl
  rw [Cycle.tryDispatch, if_neg hfull, hpeek]

theorem mem_of_queue (hq : c.queue σ.store = r :: queue) : r ∈ σ.store.tasks ∧ r.due c.now = true :=
  Store.mem_ordered.1 (hq ▸ List.mem_cons_self)

private theorem expireSingle_tasks (id now : Int) (s : Store) :
    (expireSingle id now s).2.tasks = s.tasks ∨ (expireSingle id now s).2.tasks = s.tasks.filter fun r =>
      !(r.id == id) := by
  rcases h : expireSingle id now s with ⟨e | task, s'⟩
  · obtain ⟨s₁, _, rfl⟩ := transaction_error h
    exact .inl rfl
  · have hok := transaction_ok h
    split at hok
    · cases hok
      exact .inl rfl
    · rename_i row hrow
      obtain ⟨_, s₁, h₁, hok⟩ := Txn.bind_ok hok
      cases hok
      have hsel := List.find?_some hrow
      simp only [Bool.and_eq_true, beq_iff_eq] at hsel
      rw [← hsel.1.1]
      exact .inr (expireRow_ok h₁).2.1

/-- What the gate reads when the head of the queue has changed and still does not run. -/
theorem context_same (hq : c.queue σ.store = r :: queue) {ctx : GateContext}
    (hframe : ctx = { σ.context with typeRateLimits := ctx.typeRateLimits, groupRateLimits := ctx.groupRateLimits })
    {front back : List TaskRow} (mid : List TaskRow) (hsplit : σ.store.Split r front back)
    (hmid : ∀ x ∈ mid, x.status ≠ .running) {s : Store} (htasks : s.tasks = front ++ mid ++ back) :
    Dispatching.context { σ.acquired ctx with store := s } = ctx := by
  have hne : r.status ≠ .running := by
    rw [TaskRow.pending_of_due (mem_of_queue hq).2]
    exact TaskStatus.noConfusion
  obtain ⟨hcount, hio⟩ := running_same hsplit hne hmid htasks
  rw [hframe]
  simp only [Dispatching.context, Dispatching.acquired, hcount, hio]

/-- The head of the queue is taken out. -/
private theorem clearFrom_remove (hschema : σ.store.Schema) (hfull : ¬ c.maxConcurrency ≤ σ.active.length)
    (hq : c.queue σ.store = r :: queue) (ctx : GateContext)
    (hframe : ctx = { σ.context with typeRateLimits := ctx.typeRateLimits, groupRateLimits := ctx.groupRateLimits })
    (hwork : c.workOff (σ.active.map (·.id)) σ.context r = some (σ.active.map (·.id), ctx, [])) {s : Store}
    (htasks : s.tasks = σ.store.tasks.filter fun x => !(x.id == r.id)) :
    c.ClearFrom { σ.acquired ctx with store := s } ↔ c.ClearFrom σ := by
  obtain ⟨front, back, hsplit⟩ := hschema.split (mem_of_queue hq).1
  have hafter : s.tasks = front ++ [] ++ back := by
    rw [htasks, hsplit.delete, List.append_nil]
  have hqueue : c.queue s = queue := Store.ordered_remove [] hschema hsplit hq hafter rfl
  have hcontext := context_same hq hframe [] hsplit (fun x hx => absurd hx List.not_mem_nil) hafter
  rw [Cycle.ClearFrom, Cycle.ClearFrom, hcontext, hq, hqueue]
  exact (clear_next (by simpa using hfull) hwork).symm

/-- The head of the queue has to wait for a token. -/
private theorem clearFrom_setRunAfter (hschema : σ.store.Schema) (hfull : ¬ c.maxConcurrency ≤ σ.active.length)
    (hq : c.queue σ.store = r :: queue) (hpast : r.past c.now = false) {ctx : GateContext} {runAfter : Int}
    (hg : c.gate.admission σ.context (rowToTaskRecord r) = (.rateLimited runAfter, ctx)) :
    c.ClearFrom { σ.acquired ctx with store := σ.store.setRunAfter r.id runAfter } ↔ c.ClearFrom σ := by
  obtain ⟨hmem, hdue⟩ := mem_of_queue hq
  have hpending := TaskRow.pending_of_due hdue
  obtain ⟨front, back, hsplit⟩ := hschema.split hmem
  let r' : TaskRow := { r with runAfter := some runAfter }
  have hafter : (σ.store.setRunAfter r.id runAfter).tasks = front ++ r' :: back := by
    refine hsplit.update (by simp [hpending]) fun x hx => ?_
    rw [Bool.and_eq_true, beq_iff_eq] at hx
    exact hx.1
  have hcontext : Dispatching.context { σ.acquired ctx with store := σ.store.setRunAfter r.id runAfter } = ctx := by
    refine context_same hq (admission_frame hg) [r'] hsplit (fun x hx => ?_) (by rw [hafter]; simp)
    rw [List.mem_singleton.1 hx, hpending]
    exact TaskStatus.noConfusion
  have hwork : c.workOff (σ.active.map (·.id)) σ.context r =
      some (σ.active.map (·.id), ctx, if c.now < runAfter then [] else [r']) := by
    rw [Cycle.workOff, hpast, hg]
    rfl
  have hdue' : r'.due c.now = decide (runAfter ≤ c.now) := by
    simp [TaskRow.due, r', hpending]
  have hqueue : c.queue (σ.store.setRunAfter r.id runAfter) = (if c.now < runAfter then [] else [r']) ++ queue := by
    split
    · refine Store.ordered_remove [r'] hschema hsplit hq (by rw [hafter]; simp) ?_
      rw [List.filter_singleton, hdue', decide_eq_false (by omega)]
      rfl
    · refine Store.ordered_replace hschema hsplit hq hafter ?_ rfl rfl
      rw [hdue', decide_eq_true (by omega)]
  rw [Cycle.ClearFrom, Cycle.ClearFrom, hcontext, hq, hqueue]
  exact (clear_next (by simpa using hfull) hwork).symm

/-- A due row can be claimed. -/
theorem claimTask_due {now : Int} {s : Store} {front back : List TaskRow} (hdue : r.due now = true)
    (hsplit : s.Split r front back) :
    ∃ s', claimTask r.id now s = (.ok true, s') ∧ s'.tasks = front ++ r.claim now :: back := by
  let p : TaskRow → Bool := fun x => x.id == r.id && x.status == .pending
  have hr : p r = true := by simp [p, TaskRow.pending_of_due hdue]
  have hp : ∀ x, p x = true → x.id = r.id := by
    intro x hx
    rw [Bool.and_eq_true, beq_iff_eq] at hx
    exact hx.1
  have hclaim : claimRows p now s = (.ok [r.claim now], s.updateTasks p (TaskRow.claim now)) := by
    rw [claimRows, hsplit.select hr hp]
    rfl
  refine ⟨_, Txn.bind_of_ok hclaim, ?_⟩
  exact hsplit.update hr hp

/-- What the gate reads when the head of the queue has been started. -/
theorem context_spawn (hq : c.queue σ.store = r :: queue) {ctx : GateContext}
    (hg : c.gate.admission σ.context (rowToTaskRecord r) = (.admitted, ctx)) {front back : List TaskRow}
    (hsplit : σ.store.Split r front back) {s : Store} (htasks : s.tasks = front ++ r.claim c.now :: back)
    {task : TaskRecord} (htype : task.taskType = r.taskType) :
    (Dispatching.spawn { σ.acquired ctx with store := s } task).context = ctx.start r := by
  obtain ⟨hcount, hio⟩ := running_claim hsplit (TaskRow.pending_of_due (mem_of_queue hq).2) htasks
  have hframe := admission_frame hg
  rw [hframe]
  have hcount' : s.runningCountForGroup = fun group =>
      σ.store.runningCountForGroup group + if r.groupKey = some group then 1 else 0 := funext hcount
  simp only [Dispatching.context, Dispatching.spawn, Dispatching.acquired, GateContext.start, hcount', hio, htype]

/-- The head of the queue is started. -/
private theorem clearFrom_spawn (hschema : σ.store.Schema) (hfull : ¬ c.maxConcurrency ≤ σ.active.length)
    (hq : c.queue σ.store = r :: queue) (hpast : r.past c.now = false) {ctx : GateContext}
    (hg : c.gate.admission σ.context (rowToTaskRecord r) = (.admitted, ctx)) (he : c.registered r.taskType = true)
    {front back : List TaskRow} (hsplit : σ.store.Split r front back) {s : Store}
    (htasks : s.tasks = front ++ r.claim c.now :: back) {task : TaskRecord} (hid : task.id = r.id)
    (htype : task.taskType = r.taskType) :
    c.ClearFrom (Dispatching.spawn { σ.acquired ctx with store := s } task) ↔ c.ClearFrom σ := by
  have hwork : c.workOff (σ.active.map (·.id)) σ.context r =
      some ((σ.active.map (·.id)).filter (· != r.id) ++ [r.id], ctx.start r, []) := by
    rw [Cycle.workOff, hpast, hg, he]
    rfl
  have hqueue : c.queue s = queue := by
    refine Store.ordered_remove [r.claim c.now] hschema hsplit hq (by rw [htasks]; simp) ?_
    rfl
  have hcontext : (Dispatching.spawn { σ.acquired ctx with store := s } task).context = ctx.start r :=
    context_spawn hq hg hsplit htasks htype
  have hactive : (σ.active.insert task).map (·.id) = (σ.active.map (·.id)).filter (· != r.id) ++ [r.id] := by
    simp only [ActiveTaskMap.insert, ActiveTaskMap.remove, List.map_append, List.map_cons, List.map_nil, hid,
      List.filter_map]
    rfl
  rw [Cycle.ClearFrom, Cycle.ClearFrom, hcontext, hq]
  show c.Clear ((σ.active.insert task).map (·.id)) _ (c.queue s) ↔ _
  rw [hqueue, hactive]
  exact (clear_next (by simpa using hfull) hwork).symm

/-- The failure of a task without an executor. -/
private theorem failUnregistered_tasks {task : TaskRecord} {now : Int} {s s' : Store} {u : Unit} (hschema : s.Schema)
    (h : withPrune now (failUnregistered task now) s = (.ok u, s')) :
    s'.Schema ∧ s'.tasks = s.tasks.filter fun x => !(x.id == task.id) := by
  obtain ⟨_, s₁, h₁, h⟩ := Txn.bind_ok h
  cases h
  let a : Action := .failWithRecord task s!"no executor registered for type '{task.taskType}'" false 0 {} {} now
  have hexec : s₁ = a.exec (fun _ => "") s := by
    have hrun : a.exec (fun _ => "") s = (failUnregistered task now s).2 := rfl
    rw [hrun, h₁]
  have hs₁ : s₁.Schema := by
    rw [hexec]
    exact hschema.steps (a.steps _ s)
  refine ⟨hs₁.steps (steps_maybePrune (b := true) s₁ now), ?_⟩
  have hfail := transaction_ok h₁
  rw [failInner, if_neg (by simp [willRetry_zero])] at hfail
  obtain ⟨_, s₂, h₂, hfail⟩ := Txn.bind_ok hfail
  obtain ⟨tags, rfl⟩ := insertHistory_leaves h₂
  cases hfail
  exact Store.tasks_maybePrune _ _

private theorem filter_claimed {front back : List TaskRow} {s : Store} (hsplit : σ.store.Split r front back)
    (htasks : s.tasks = front ++ r.claim c.now :: back) :
    s.tasks.filter (fun x => !(x.id == r.id)) = σ.store.tasks.filter fun x => !(x.id == r.id) := by
  have hclaim : (r.claim c.now).id = r.id := rfl
  rw [htasks, hsplit.tasks]
  simp [hclaim]

theorem eligible_iff {now : Int} : r.eligible now = true ↔ r.due now = true ∧ r.past now = false := by
  have hpast : r.unexpired now = !r.past now := by
    unfold TaskRow.unexpired TaskRow.past
    cases r.expiresAt with
    | none => rfl
    | some e =>
      by_cases he : e ≤ now
      · simp [he]
      · simp [he, Int.not_le.1 he]
  rw [TaskRow.eligible, Bool.and_eq_true, hpast, Bool.not_eq_true']

/-- What a round does with the head of the queue. -/
theorem tryDispatch_head (hfull : ¬ c.maxConcurrency ≤ σ.active.length) (hq : c.queue σ.store = r :: queue) :
    ∃ tags, σ.store.populateTags (rowToTaskRecord r) = { rowToTaskRecord r with tags := tags } ∧
      c.tryDispatch σ = if r.past c.now then (.ok true, { σ with store := (expireSingle r.id c.now σ.store).2 })
      else
        match c.gate.admission σ.context (rowToTaskRecord r) with
        | (.deny, _) => (.ok false, σ)
        | (.rateLimited runAfter, ctx) =>
          (.ok true, { σ.acquired ctx with store := σ.store.setRunAfter r.id runAfter })
        | (.admitted, ctx) =>
          match claimTask r.id c.now σ.store with
          | (.ok true, s) =>
            c.spawnDispatchedTask (TaskRecord.patched { rowToTaskRecord r with tags := tags } (c.readings r.id))
              { σ.acquired ctx with store := s }
          | (.ok false, s) => (.ok false, { σ.acquired ctx with store := s })
          | (.error e, s) => (.error e, { σ.acquired ctx with store := s }) := by
  obtain ⟨tags, htags⟩ := σ.store.populateTags_eq (rowToTaskRecord r)
  have hpeek : σ.store.peekNext c.aging c.now = some (rowToTaskRecord r) := by
    rw [Store.peekNext, show σ.store.ordered c.aging (·.due c.now) = r :: queue from hq]
    rfl
  refine ⟨tags, htags, ?_⟩
  rw [Cycle.tryDispatch, if_neg hfull, hpeek]
  dsimp only
  rw [htags]
  rfl

/-- A round after which the loop goes on. -/
private theorem tryDispatch_true (hschema : σ.store.Schema) (h : c.tryDispatch σ = (.ok true, σ')) :
    σ'.store.Schema ∧ (c.ClearFrom σ' ↔ c.ClearFrom σ) := by
  have hsteps (a : Action) : (a.exec (fun _ => "") σ.store).Schema := hschema.steps (a.steps _ σ.store)
  by_cases hfull : c.maxConcurrency ≤ σ.active.length
  · rw [Cycle.tryDispatch, if_pos hfull] at h
    cases h
  cases hq : c.queue σ.store with
  | nil =>
    rw [tryDispatch_empty hfull hq] at h
    cases h
  | cons r queue =>
    obtain ⟨tags, _, hround⟩ := tryDispatch_head hfull hq
    rw [hround] at h
    split at h
    · -- the candidate has expired
      rename_i hpast
      cases h
      refine ⟨hsteps (.expireSingle r.id c.now), ?_⟩
      rcases expireSingle_tasks r.id c.now σ.store with hsame | hgone
      · exact clearFrom_congr hsame rfl
      · refine clearFrom_remove hschema hfull hq σ.context rfl ?_ hgone
        exact if_pos hpast
    rename_i hpast
    have hpast : r.past c.now = false := Bool.eq_false_of_not_eq_true hpast
    split at h
    · cases h
    · rename_i runAfter ctx hg
      cases h
      exact ⟨hsteps (.update (.setRunAfter r.id runAfter)), clearFrom_setRunAfter hschema hfull hq hpast hg⟩
    rename_i ctx hg
    obtain ⟨front, back, hsplit⟩ := hschema.split (mem_of_queue hq).1
    obtain ⟨s, hclaim, htasks⟩ := claimTask_due (mem_of_queue hq).2 hsplit
    have hs : s.Schema := by
      have hexec := hsteps (.claimTask r.id c.now)
      rwa [Action.exec, hclaim] at hexec
    rw [hclaim] at h
    dsimp only at h
    rw [Cycle.spawnDispatchedTask] at h
    split at h
    · rename_i he
      cases h
      exact ⟨hs, clearFrom_spawn hschema hfull hq hpast hg he hsplit htasks rfl rfl⟩
    · rename_i he
      have he : c.registered r.taskType = false := Bool.eq_false_of_not_eq_true he
      split at h
      · rename_i u s' hfail
        cases h
        obtain ⟨hs', htasks'⟩ := failUnregistered_tasks hs hfail
        refine ⟨hs', clearFrom_remove hschema hfull hq ctx (admission_frame hg) ?_ ?_⟩
        · rw [Cycle.workOff, hpast, hg, he]
          rfl
        · exact htasks'.trans (filter_claimed (r := r) hsplit htasks)
      · cases h

/-- A round after which the loop ends. -/
private theorem tryDispatch_false (hschema : σ.store.Schema) (h : c.tryDispatch σ = (.ok false, σ')) :
    c.Exhausted σ' ↔ c.ClearFrom σ := by
  by_cases hfull : c.maxConcurrency ≤ σ.active.length
  · rw [Cycle.tryDispatch, if_pos hfull] at h
    cases h
    exact iff_of_true (.inl hfull) (.full (by simpa using hfull))
  have hmem {x : TaskRow} (hx : x ∈ σ.store.tasks) (heligible : x.eligible c.now = true) : x ∈ c.queue σ.store :=
    Store.mem_ordered.2 ⟨hx, (eligible_iff.1 heligible).1⟩
  cases hq : c.queue σ.store with
  | nil =>
    rw [tryDispatch_empty hfull hq] at h
    cases h
    have hclear : c.ClearFrom σ := by
      rw [Cycle.ClearFrom, hq]
      exact .empty
    refine iff_of_true (.inr fun x hx heligible => ?_) hclear
    have hin := hmem hx heligible
    rw [hq] at hin
    cases hin
  | cons r queue =>
    obtain ⟨tags, _, hround⟩ := tryDispatch_head hfull hq
    rw [hround] at h
    split at h
    · cases h
    rename_i hpast
    split at h
    · -- the head is denied
      rename_i ctx hg
      cases h
      have hwork : c.workOff (σ.active.map (·.id)) σ.context r = none := by
        rw [Cycle.workOff, if_neg hpast, hg]
      rw [Cycle.ClearFrom, hq, clear_denied (by simpa using hfull) hwork, Cycle.Exhausted, or_iff_right hfull]
      constructor
      · intro hall x hx hxpast
        have hin : x ∈ c.queue σ.store := hq ▸ List.mem_cons_of_mem r hx
        obtain ⟨hx', hdue⟩ := Store.mem_ordered.1 hin
        exact hall x hx' (eligible_iff.2 ⟨hdue, hxpast⟩)
      · intro hall x hx heligible
        have hin := hmem hx heligible
        rw [hq] at hin
        rcases List.mem_cons.1 hin with rfl | hin
        · rw [hg]
          exact Admission.noConfusion
        · exact hall x hin (eligible_iff.1 heligible).2
    · cases h
    obtain ⟨front, back, hsplit⟩ := hschema.split (mem_of_queue hq).1
    obtain ⟨s, hclaim, htasks⟩ := claimTask_due (mem_of_queue hq).2 hsplit
    rw [hclaim] at h
    dsimp only at h
    rw [Cycle.spawnDispatchedTask] at h
    split at h
    · cases h
    · split at h
      · cases h
      · cases h

end Round

/-- When the slow loop returns, the slots are taken or the gate admits no eligible task, if and only if the queue
was clear. -/
theorem slow_dispatch_exhausts_iff (c : Cycle) (σ σ' : Dispatching) (hschema : σ.store.Schema) (fuel : Nat)
    (h : c.dispatchPending fuel σ = some (.ok (), σ')) : c.Exhausted σ' ↔ c.ClearFrom σ := by
  induction fuel generalizing σ with
  | zero => cases h
  | succ fuel ih =>
    rw [Cycle.dispatchPending] at h
    split at h
    · rename_i σ₁ hround
      obtain ⟨hschema₁, hclear⟩ := tryDispatch_true hschema hround
      rw [← hclear]
      exact ih σ₁ hschema₁ h
    · rename_i σ₁ hround
      cases h
      exact tryDispatch_false hschema hround
    · cases h

/-! ### A group with room for one task -/

private def oneOfGroup : Cycle where
  gate :=
    { throttles := fun _ => false, reader := none, groupLimits := GroupLimits.new.setLimit "g" 1, moduleCaps := ∅,
      pausedGroups := [], typeNext := fun _ => 0, groupNext := fun _ => 0 }
  registered := fun _ => true
  maxConcurrency := 4
  aging := none
  now := 0
  readings := fun _ => ⟨0, 0⟩

/-- The store after these submissions, with nothing running. -/
private def submitted (subs : List TaskSubmission) : Dispatching where
  store := subs.foldl (fun s sub => (Action.submitDirect sub 0).exec sampleSha256 s) openMemory
  active := []
  moduleRunning := ∅
  typeRateLimits := ∅
  groupRateLimits := ∅

private theorem submitted_schema (subs : List TaskSubmission) : (submitted subs).store.Schema := by
  suffices h : ∀ s : Store, s.Schema →
      (subs.foldl (fun s sub => (Action.submitDirect sub 0).exec sampleSha256 s) s).Schema from
    h openMemory openMemory_fresh.schema
  induction subs with
  | nil => exact fun s hs => hs
  | cons sub subs ih => exact fun s hs => ih _ (hs.steps ((Action.submitDirect sub 0).steps sampleSha256 s))

private def keyedInGroup (key : String) : TaskSubmission := { TaskSubmission.new key with groupKey := some "g" }

/-- One task of the group and one task of none. -/
private def mixed : Dispatching := submitted [keyedInGroup "a", .new "b"]

private theorem mixed_returns : ∃ σ, oneOfGroup.dispatchPending 3 mixed = some (.ok (), σ) := ⟨_, rfl⟩

theorem mixed_exhausts : ∃ σ, oneOfGroup.dispatchPending 3 mixed = some (.ok (), σ) ∧ oneOfGroup.Exhausted σ := by
  obtain ⟨σ, hσ⟩ := mixed_returns
  exact ⟨σ, hσ, (slow_dispatch_exhausts_iff oneOfGroup mixed σ (submitted_schema _) 3 hσ).2
    (.next rfl (.next rfl .empty))⟩

/-- Two tasks of the group stand before a task of none. -/
private def saturated : Dispatching := submitted [keyedInGroup "a", keyedInGroup "b", .new "c"]

private def stopped : Dispatching := ((oneOfGroup.dispatchPending 2 saturated).map (·.2)).getD saturated

private theorem saturated_stops : oneOfGroup.dispatchPending 2 saturated = some (.ok (), stopped) := rfl

/-- The second task of the group keeps the task behind it from running. -/
theorem slow_dispatch_blocked : ¬ ∀ (c : Cycle) (σ σ' : Dispatching) (fuel : Nat), σ.store.Schema →
    c.dispatchPending fuel σ = some (.ok (), σ') → c.Exhausted σ' := by
  intro h
  have hex := h oneOfGroup saturated stopped 2 (submitted_schema _) saturated_stops
  revert hex
  unfold Cycle.Exhausted
  decide +kernel

end Taskmill
