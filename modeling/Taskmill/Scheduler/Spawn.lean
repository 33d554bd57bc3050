import Taskmill.Action
import Taskmill.Scheduler.Gate

/-!
# Spawned futures

`spawn_task` puts an entry into the active map, counts the task in its module and spawns a future that calls the
executor until it has an outcome, records the outcome and takes back both (`src/scheduler/spawn.rs`,
`src/scheduler/spawn/`).  Meanwhile others drain the entries of tasks that they pause, cancel or supersede
(`src/scheduler/dispatch.rs`, `src/scheduler/submit.rs`), and the outcomes that go through a channel are recorded by
whoever drains it.

Futures, tokens and trackers are numbered in the order in which they are made.  Every entry carries the number of the
future it was made for, and a row that runs the number of the future that it was spawned for last (`owner`); the code
knows neither.  Any statement of the database may fail (`fault`), with no effect.
-/

namespace Taskmill

open Transact

/-! ### Retries -/

/-- `TaskError` -/
structure TaskError where
  message : String
  retryable : Bool
  retryAfterMs : Option Nat

/-- `RetryPolicy`; `delayFor` also gets what the random number generator returns, and is `none` where `delay_for`
panics. -/
structure RetryPolicy where
  maxRetries : Int
  delayFor : (retryCount random : Nat) → Option Duration

structure SpawnConfig where
  /-- `type_retry_policy` -/
  typeRetryPolicy : String → Option RetryPolicy
  maxRetries : Int

namespace SpawnConfig

variable (c : SpawnConfig)

/-- `effective_max` -/
def effectiveMax (task : TaskRecord) : Int :=
  task.maxRetries.getD (((c.typeRetryPolicy task.taskType).map (·.maxRetries)).getD c.maxRetries)

/-- The delay of a retry, `none` if `delay_for` panics. -/
def retryDelay (task : TaskRecord) (error : TaskError) (random : Nat) : Option Duration :=
  match error.retryAfterMs, c.typeRetryPolicy task.taskType with
  | some ms, _ => some ⟨ms * 1000000⟩
  | none, some policy => policy.delayFor task.retryCount random
  | none, none => some ⟨0⟩

def willRetry (task : TaskRecord) (error : TaskError) : Bool := task.willRetry error.retryable (c.effectiveMax task)

end SpawnConfig

/-! ### Futures -/

/-- `ExecutionPhase` -/
inductive ExecutionPhase where
  | execute
  | finalize
deriving DecidableEq, Repr

/-- How a call of the executor ends. -/
inductive Outcome where
  | ok (memo : Option (List UInt8))
  | err (error : TaskError)
  | panic

/-- `PreparedTask`: the token and the tracker that the executor sees. -/
structure PreparedTask where
  token : Nat
  io : Nat
deriving DecidableEq, Repr

/-- Where a future is. -/
inductive Stage where
  /-- the executor runs -/
  | executing
  /-- it has succeeded, the children are to be counted -/
  | counting (memo : Option (List UInt8)) (metrics : IoBudget)
  /-- there are children, `set_waiting` is next -/
  | waiting (memo : Option (List UInt8))
  /-- it has failed and is retried inline, `increment_retry` is next -/
  | retrying (error : TaskError)
  /-- it has failed, `handle_failure` is next -/
  | failing (error : TaskError) (metrics : IoBudget)
  /-- the failure is in the channel -/
  | sent
  /-- the entry and the count have been taken back -/
  | ended
  | panicked

structure Future where
  task : TaskRecord
  phase : ExecutionPhase
  prepared : PreparedTask
  /-- `token_for_spawn` -/
  token : Nat
  decremented : Bool
  /-- the handle has been stored -/
  handled : Bool
  stage : Stage

/-- The future has come to its end. -/
def Future.over (f : Future) : Bool :=
  match f.stage with
  | .ended | .panicked => true
  | _ => false

/-- Whether the retry is inline, `none` if `delay_for` panics. -/
def SpawnConfig.retriesInline (c : SpawnConfig) (f : Future) (error : TaskError) (random : Nat) : Option Bool :=
  if f.phase = .execute ∧ c.willRetry f.task error = true then (c.retryDelay f.task error random).map (·.isZero)
  else some false

/-- `ActiveTask`; the reported progress is left out, `started_at` too. -/
structure ActiveTask where
  record : TaskRecord
  token : Nat
  io : Nat
  /-- the handle of this future -/
  handle : Option Nat
  /-- the future it was made for -/
  future : Nat

/-- Why an entry has been taken out of the map by somebody else than its future. -/
inductive Purpose where
  /-- `cancel_pause_emit` -/
  | pause (reason : PauseReasons)
  /-- `cancel` -/
  | cancel
  /-- `propagate_failure`, for the siblings -/
  | delete
  /-- `handle_superseded_active` -/
  | supersede

/-- What is written then. -/
def Purpose.action (record : TaskRecord) (now : Int) : Purpose → Option Action
  | .pause reason => some (.update (.pause record.id reason now))
  | .cancel => some (.cancelToHistoryWithRecord record now)
  | .delete => some (.delete record.id)
  | .supersede => none

structure Drained where
  entry : ActiveTask
  purpose : Purpose
  /-- the token has been cancelled -/
  cancelled : Bool

/-- A future has removed or written the entry that was made for another one, or for itself. -/
structure Touch where
  future : Nat
  entry : Nat
deriving DecidableEq, Repr

structure Futures where
  store : Store
  active : List ActiveTask
  /-- `module_running` -/
  moduleRunning : StringMap Int
  futures : List Future
  /-- how many tokens there are; a tracker is made with each -/
  tokens : Nat
  /-- the cancelled tokens -/
  cancelled : List Nat
  /-- the channel of completions, with the future of each message -/
  completions : List (Nat × TaskRecord × IoBudget)
  /-- the batches that have been drained from it -/
  completing : List (List (Nat × TaskRecord × IoBudget))
  failures : List (Nat × FailureItem)
  failing : List (List (Nat × FailureItem))
  drained : List Drained
  owner : Int → Option Nat
  log : List Touch

/-- Whether a row with this id runs. -/
def Store.running (s : Store) (id : Int) : Bool := s.tasks.any fun r => r.id == id && r.status == .running

/-- `active_children_count` -/
def Store.activeChildrenCount (s : Store) (id : Int) : Nat := s.tasks.countP fun r => r.parentId == some id

/-- The counter of the module of a task type changes, if there is one. -/
def bumpModule (moduleRunning : StringMap Int) (taskType : String) (d : Int) : StringMap Int :=
  match moduleName taskType with
  | none => moduleRunning
  | some module =>
    match moduleRunning.lookup module with
    | none => moduleRunning
    | some n => moduleRunning.insert module (n + d)

namespace Futures

variable (σ : Futures)

/-- The store becomes `s`.  A row that starts to run belongs to nobody until it is spawned. -/
def write (s : Store) : Futures :=
  { σ with store := s, owner := fun id => if s.running id && !σ.store.running id then none else σ.owner id }

/-- A statement of the database, or its failure. -/
def attempt (fault : Bool) (s : Store) : Futures := if fault then σ else σ.write s

/-- What is written for an entry that has been taken out of the map. -/
def carryOut (sha256 : List UInt8 → String) (d : Drained) (fault : Bool) (now : Int) : Futures :=
  match d.purpose.action d.entry.record now with
  | none => σ
  | some a => σ.attempt fault (a.exec sha256 σ.store)

/-- A step of future `i`. -/
def step (i : Nat) (next : Future → Futures) : Futures :=
  match σ.futures[i]? with
  | none => σ
  | some f => next f

def enter (i : Nat) (f : Future) (stage : Stage) : Futures :=
  { σ with futures := σ.futures.set i { f with stage := stage } }

/-- What future `i` does to the entries with the id of its task. -/
def touches (i : Nat) (id : Int) : List Touch :=
  (σ.active.filter (·.record.id == id)).map fun entry => ⟨i, entry.future⟩

/-- `decrement_module_once` and the removal of the entry. -/
def leave (i : Nat) (f : Future) : Futures :=
  { σ with
    active := σ.active.filter fun entry => !(entry.record.id == f.task.id)
    moduleRunning := if f.decremented then σ.moduleRunning else bumpModule σ.moduleRunning f.task.taskType (-1)
    futures := σ.futures.set i { f with decremented := true, stage := .ended }
    log := σ.touches i f.task.id ++ σ.log }

/-- The end of `handle_success`: the outcome goes to the channel. -/
def complete (i : Nat) (f : Future) (metrics : IoBudget) : Futures :=
  { σ.leave i f with completions := σ.completions ++ [(i, f.task, metrics)] }

/-- `spawn_task`, up to the spawn of the future -/
def spawn (task : TaskRecord) (phase : ExecutionPhase) : Futures :=
  { σ with
    active := (σ.active.filter fun entry => !(entry.record.id == task.id)) ++
      [{ record := task, token := σ.tokens, io := σ.tokens, handle := none, future := σ.futures.length }]
    moduleRunning := bumpModule σ.moduleRunning task.taskType 1
    futures := σ.futures ++
      [{ task := task, phase := phase, prepared := ⟨σ.tokens, σ.tokens⟩, token := σ.tokens, decremented := false,
         handled := false, stage := .executing }]
    tokens := σ.tokens + 1
    owner := Function.update σ.owner task.id (some σ.futures.length) }

end Futures

inductive FutureStep where
  /-- a step of another caller; the claims of the dispatchers are among them -/
  | store (a : Action)
  | spawn (task : TaskRecord) (phase : ExecutionPhase)
  /-- `set_handle` -/
  | setHandle (i : Nat)
  /-- `update_progress` -/
  | progress (i : Nat)
  /-- the executor is done; `metrics` is what its tracker says -/
  | returns (i : Nat) (outcome : Outcome) (metrics : IoBudget) (random : Nat)
  /-- `active_children_count`; if it fails the task is completed -/
  | countChildren (i : Nat) (fault : Bool)
  /-- `set_waiting` -/
  | setWaiting (i : Nat) (fault : Bool)
  /-- `increment_retry` and the next attempt -/
  | retryInline (i : Nat) (fault : Bool)
  /-- `handle_failure` -/
  | handleFailure (i : Nat) (fault : Bool) (random : Nat) (now : Int)
  /-- its end, after the failure has gone to the channel -/
  | cleanUp (i : Nat)
  | drainCompletions
  /-- `process_completion_batch` -/
  | completeBatch (k : Nat) (fault : Bool) (now : Int)
  | drainFailures
  /-- `process_failure_batch` -/
  | failBatch (k : Nat) (fault : Bool) (now : Int)
  /-- somebody takes entries out of the map -/
  | drain (p : TaskRecord → Bool) (purpose : Purpose)
  /-- and cancels the token of one of them -/
  | cancelToken (i : Nat)
  /-- and writes to the database -/
  | settle (i : Nat) (fault : Bool) (now : Int)

namespace FutureStep

variable (c : SpawnConfig) (sha256 : List UInt8 → String) (σ : Futures)

def execReturns (i : Nat) (outcome : Outcome) (metrics : IoBudget) (random : Nat) (f : Future) : Futures :=
  match f.stage, outcome with
  | .executing, .ok memo =>
    if f.phase = .execute ∧ σ.store.hasHierarchy = true then σ.enter i f (.counting memo metrics)
    else σ.complete i f metrics
  | .executing, .err error =>
    if f.token ∈ σ.cancelled then σ.leave i f
    else
      match c.retriesInline f error random with
      | none => σ.enter i f .panicked
      | some true => σ.enter i f (.retrying error)
      | some false => σ.enter i f (.failing error metrics)
  | .executing, .panic => σ.enter i f .panicked
  | _, _ => σ

def execRetry (i : Nat) (fault : Bool) (f : Future) : Futures :=
  match f.stage with
  | .retrying error =>
    { σ.attempt fault (σ.store.incrementRetry f.task.id error.message) with
      tokens := σ.tokens + 1
      futures := σ.futures.set i
        { f with
          task := { f.task with retryCount := f.task.retryCount + 1 }
          prepared := ⟨σ.tokens, σ.tokens⟩
          stage := .executing } }
  | _ => σ

def execFailure (i : Nat) (fault : Bool) (random : Nat) (now : Int) (f : Future) : Futures :=
  match f.stage with
  | .failing error metrics =>
    if c.willRetry f.task error then
      match c.retryDelay f.task error random with
      | none => σ.enter i f .panicked
      | some delay => (σ.attempt fault (σ.store.requeueForRetry f.task.id error.message delay now)).leave i f
    else if f.task.parentId.isSome then
      let backoff : FailBackoff :=
        { strategy := (c.typeRetryPolicy f.task.taskType).map fun policy n => (policy.delayFor n random).getD ⟨0⟩
          executorRetryAfterMs := error.retryAfterMs }
      let a : Action := .failWithRecord f.task error.message error.retryable (c.effectiveMax f.task)
        metrics backoff now
      (σ.attempt fault (a.exec sha256 σ.store)).leave i f
    else
      { σ.enter i f .sent with failures := σ.failures ++ [(i, ⟨f.task, error.message, error.retryable, metrics⟩)] }
  | _ => σ

def exec : FutureStep → Futures
  | .store a => σ.write (a.exec sha256 σ.store)
  | .spawn task phase => σ.spawn task phase
  | .setHandle i => σ.step i fun f =>
    if f.handled then σ
    else
      { σ with
        active := σ.active.map fun entry =>
          if entry.record.id == f.task.id then { entry with handle := some i } else entry
        futures := σ.futures.set i { f with handled := true }
        log := σ.touches i f.task.id ++ σ.log }
  | .progress i => σ.step i fun f =>
    match f.stage with
    | .executing => { σ with log := σ.touches i f.task.id ++ σ.log }
    | _ => σ
  | .returns i outcome metrics random => σ.step i (execReturns c σ i outcome metrics random)
  | .countChildren i fault => σ.step i fun f =>
    match f.stage with
    | .counting memo metrics =>
      if fault = false ∧ 0 < σ.store.activeChildrenCount f.task.id then σ.enter i f (.waiting memo)
      else σ.complete i f metrics
    | _ => σ
  | .setWaiting i fault => σ.step i fun f =>
    match f.stage with
    | .waiting memo => (σ.attempt fault (σ.store.setWaiting f.task.id memo)).leave i f
    | _ => σ
  | .retryInline i fault => σ.step i (execRetry σ i fault)
  | .handleFailure i fault random now => σ.step i (execFailure c sha256 σ i fault random now)
  | .cleanUp i => σ.step i fun f =>
    match f.stage with
    | .sent => σ.leave i f
    | _ => σ
  | .drainCompletions => { σ with completing := σ.completing ++ [σ.completions], completions := [] }
  | .completeBatch k fault now =>
    match σ.completing[k]? with
    | none => σ
    | some batch =>
      { σ.attempt fault (Action.exec sha256 σ.store (.completeBatch (batch.map (·.2)) now)) with
        completing := σ.completing.eraseIdx k }
  | .drainFailures => { σ with failing := σ.failing ++ [σ.failures], failures := [] }
  | .failBatch k fault now =>
    match σ.failing[k]? with
    | none => σ
    | some batch =>
      { σ.attempt fault (Action.exec sha256 σ.store (.failBatch (batch.map (·.2)) now)) with
        failing := σ.failing.eraseIdx k }
  | .drain p purpose =>
    { σ with
      active := σ.active.filter fun entry => !p entry.record
      drained := σ.drained ++ (σ.active.filter fun entry => p entry.record).map fun entry => ⟨entry, purpose, false⟩ }
  | .cancelToken i =>
    { σ with
      cancelled := ((σ.drained.filter (·.entry.future == i)).map (·.entry.token)) ++ σ.cancelled
      drained := σ.drained.map fun d => if d.entry.future == i then { d with cancelled := true } else d }
  | .settle i fault now =>
    match σ.drained.find? fun d => d.entry.future == i && d.cancelled with
    | none => σ
    | some d =>
      { σ.carryOut sha256 d fault now with drained := σ.drained.eraseP fun d => d.entry.future == i && d.cancelled }

end FutureStep

/-- The scheduler has just started. -/
structure Futures.Fresh (σ : Futures) : Prop where
  store : σ.store.Fresh
  active : σ.active = []
  moduleRunning : ∀ module n, σ.moduleRunning.lookup module = some n → n = 0
  futures : σ.futures = []
  cancelled : σ.cancelled = []
  completions : σ.completions = []
  completing : σ.completing = []
  failures : σ.failures = []
  failing : σ.failing = []
  drained : σ.drained = []
  owner : ∀ id, σ.owner id = none
  log : σ.log = []

/-! ### What a step does to the futures and the entries -/

/-- Future `f` has become `f'`.  Its executor runs again only after an inline retry. -/
structure Future.Follows (inline : Prop) (f f' : Future) : Prop where
  id : f'.task.id = f.task.id
  taskType : f'.task.taskType = f.task.taskType
  token : f'.token = f.token
  executing : f'.stage = .executing → inline ∨ (f.stage = .executing ∧ f'.prepared = f.prepared)
  closed : f.over = true → f'.over = true
  handled : f.handled = true → f'.handled = true
  decremented : f.decremented = true → f'.decremented = true

/-- The same entry, up to its handle. -/
structure ActiveTask.Same (e e' : ActiveTask) : Prop where
  record : e'.record = e.record
  token : e'.token = e.token
  io : e'.io = e.io
  future : e'.future = e.future

/-- No future and no entry is new, an entry that is taken out of the map was in it, and only tokens of entries that
have been taken out are cancelled. -/
structure Futures.Keeps (inline : Prop) (σ σ' : Futures) : Prop where
  length : σ'.futures.length = σ.futures.length
  futures : ∀ (n : Nat) (f' : Future), σ'.futures[n]? = some f' → ∃ f, σ.futures[n]? = some f ∧ f.Follows inline f'
  active : ∀ e' ∈ σ'.active, ∃ e ∈ σ.active, e.Same e'
  drained : ∀ d' ∈ σ'.drained, d'.entry ∈ σ.active ∨ ∃ d ∈ σ.drained, d'.entry = d.entry
  tokens : σ.tokens ≤ σ'.tokens
  cancelled : ∀ t ∈ σ'.cancelled, t ∈ σ.cancelled ∨ ∃ d ∈ σ.drained, d.entry.token = t

/-- An inline retry. -/
def FutureStep.Inline (σ : Futures) : FutureStep → Prop
  | .retryInline i _ => ∃ f error, σ.futures[i]? = some f ∧ f.stage = .retrying error
  | _ => False

def FutureStep.isSpawn : FutureStep → Bool
  | .spawn .. => true
  | _ => false

section Keeps

variable {σ : Futures} {inline : Prop} {i : Nat} {f f' : Future}

theorem Future.Follows.refl (f : Future) : f.Follows inline f :=
  ⟨rfl, rfl, rfl, fun h => .inr ⟨h, rfl⟩, fun h => h, fun h => h, fun h => h⟩

theorem Future.over_of_stage {stage : Stage} (h : f.stage = stage) :
    f.over = ({ f with stage := stage } : Future).over := by
  rw [Future.over, Future.over, h]

theorem ActiveTask.Same.refl (e : ActiveTask) : e.Same e := ⟨rfl, rfl, rfl, rfl⟩

theorem Futures.Keeps.refl (σ : Futures) : σ.Keeps inline σ :=
  ⟨rfl, fun _ f' hf' => ⟨f', hf', .refl f'⟩, fun e' he' => ⟨e', he', .refl e'⟩, fun d' hd' =>
    .inr ⟨d', hd', rfl⟩, Nat.le_refl _, fun _ ht => .inl ht⟩

/-- Only future `i` goes on. -/
private theorem follows_set (hf : σ.futures[i]? = some f) (h : f.Follows inline f') (n : Nat) (g' : Future)
    (hg' : (σ.futures.set i f')[n]? = some g') : ∃ g, σ.futures[n]? = some g ∧ g.Follows inline g' := by
  rw [List.getElem?_set] at hg'
  split at hg'
  · rename_i hin
    split at hg'
    · cases hg'
      exact ⟨f, hin ▸ hf, h⟩
    · cases hg'
  · exact ⟨g', hg', .refl g'⟩

/-- The future goes on to a stage in which the executor does not run. -/
theorem Futures.Keeps.enter (hf : σ.futures[i]? = some f) {before stage : Stage} (hstage : f.stage = before)
    (hover : ({ f with stage := before } : Future).over = false) (h : stage ≠ .executing) :
    σ.Keeps inline (σ.enter i f stage) where
  length := List.length_set
  futures := by
    refine follows_set hf ⟨rfl, rfl, rfl, fun hs => absurd hs h, fun hf => ?_, id, id⟩
    rw [Future.over_of_stage hstage, hover] at hf
    cases hf
  active := fun e' he' => ⟨e', he', .refl e'⟩
  drained := fun d' hd' => .inr ⟨d', hd', rfl⟩
  tokens := Nat.le_refl _
  cancelled := fun _ ht => .inl ht

theorem Futures.Keeps.leave (hf : σ.futures[i]? = some f) : σ.Keeps inline (σ.leave i f) where
  length := List.length_set
  futures := follows_set hf ⟨rfl, rfl, rfl, nofun, fun _ => rfl, id, fun _ => rfl⟩
  active := fun e' he' => ⟨e', List.mem_of_mem_filter he', .refl e'⟩
  drained := fun d' hd' => .inr ⟨d', hd', rfl⟩
  tokens := Nat.le_refl _
  cancelled := fun _ ht => .inl ht

/-- What is not listed in `Keeps` does not matter. -/
theorem Futures.Keeps.congr {τ τ' : Futures} (h : σ.Keeps inline τ) (hf : τ'.futures = τ.futures)
    (ha : τ'.active = τ.active) (hd : τ'.drained = τ.drained) (ht : τ'.tokens = τ.tokens)
    (hc : τ'.cancelled = τ.cancelled) : σ.Keeps inline τ' where
  length := by rw [hf]; exact h.length
  futures := by rw [hf]; exact h.futures
  active := by rw [ha]; exact h.active
  drained := by rw [hd]; exact h.drained
  tokens := by rw [ht]; exact h.tokens
  cancelled := by rw [hc]; exact h.cancelled

theorem Futures.Keeps.attempt (fault : Bool) (s : Store) : σ.Keeps inline (σ.attempt fault s) := by
  cases fault with
  | true => exact .refl σ
  | false => exact (Keeps.refl σ).congr rfl rfl rfl rfl rfl

theorem Futures.Keeps.leave_attempt (hf : σ.futures[i]? = some f) (fault : Bool) (s : Store) :
    σ.Keeps inline ((σ.attempt fault s).leave i f) := by
  cases fault with
  | true => exact .leave hf
  | false => exact (Keeps.leave hf).congr rfl rfl rfl rfl rfl

/-- A step of a future keeps what all its branches keep. -/
theorem Futures.step_keeps {next : Future → Futures}
    (h : ∀ f, σ.futures[i]? = some f → σ.Keeps inline (next f)) : σ.Keeps inline (σ.step i next) := by
  rw [step]
  split
  · exact .refl σ
  · rename_i f hf
    exact h f hf

variable {c : SpawnConfig} {sha256 : List UInt8 → String}

private theorem execReturns_keeps (hf : σ.futures[i]? = some f) (outcome : Outcome) (metrics : IoBudget)
    (random : Nat) :
    σ.Keeps inline (FutureStep.execReturns c σ i outcome metrics random f) := by
  unfold FutureStep.execReturns
  split
  · rename_i memo hstage
    split
    · exact .enter hf hstage rfl nofun
    · exact (Futures.Keeps.leave hf).congr rfl rfl rfl rfl rfl
  · rename_i error hstage
    split
    · exact .leave hf
    · split
      · exact .enter hf hstage rfl nofun
      · exact .enter hf hstage rfl nofun
      · exact .enter hf hstage rfl nofun
  · rename_i hstage
    exact .enter hf hstage rfl nofun
  · exact .refl σ

private theorem execFailure_keeps (hf : σ.futures[i]? = some f) (fault : Bool) (random : Nat) (now : Int) :
    σ.Keeps inline (FutureStep.execFailure c sha256 σ i fault random now f) := by
  unfold FutureStep.execFailure
  split
  · rename_i error metrics hstage
    split
    · split
      · exact .enter hf hstage rfl nofun
      · exact .leave_attempt hf fault _
    · split
      · exact .leave_attempt hf fault _
      · have hsent : σ.Keeps inline (σ.enter i f .sent) := .enter hf hstage rfl nofun
        exact hsent.congr rfl rfl rfl rfl rfl
  · exact .refl σ

private theorem execRetry_keeps (hf : σ.futures[i]? = some f) (fault : Bool) :
    σ.Keeps (FutureStep.Inline σ (.retryInline i fault)) (FutureStep.execRetry σ i fault f) := by
  unfold FutureStep.execRetry
  split
  · rename_i error hstage
    have hkeeps : σ.Keeps False (σ.attempt fault (σ.store.incrementRetry f.task.id error.message)) := .attempt ..
    refine ⟨List.length_set, follows_set hf
      ⟨rfl, rfl, rfl, fun _ => .inl ⟨f, error, hf, hstage⟩, fun hover => ?_, id, id⟩,
      hkeeps.active, hkeeps.drained, Nat.le_succ _, hkeeps.cancelled⟩
    rw [Future.over_of_stage hstage] at hover
    cases hover
  · exact .refl σ

/-- Every step but a spawn keeps the futures and the entries. -/
theorem FutureStep.keeps_exec (c : SpawnConfig) (sha256 : List UInt8 → String) (σ : Futures) (st : FutureStep)
    (hst : st.isSpawn = false) : σ.Keeps (st.Inline σ) (st.exec c sha256 σ) := by
  cases st with
  | spawn task phase => cases hst
  | store a => exact (Futures.Keeps.refl σ).congr rfl rfl rfl rfl rfl
  | setHandle i =>
    refine Futures.step_keeps fun f hf => ?_
    split
    · exact .refl σ
    · refine ⟨List.length_set, follows_set hf ⟨rfl, rfl, rfl, fun h => .inr ⟨h, rfl⟩, id, fun _ => rfl, id⟩,
        fun e' he' => ?_, fun d' hd' => .inr ⟨d', hd', rfl⟩, Nat.le_refl _, fun _ ht => .inl ht⟩
      obtain ⟨e, he, rfl⟩ := List.mem_map.1 he'
      refine ⟨e, he, ?_⟩
      split
      · exact ⟨rfl, rfl, rfl, rfl⟩
      · exact .refl e
  | progress i =>
    refine Futures.step_keeps fun f _ => ?_
    split
    · exact (Futures.Keeps.refl σ).congr rfl rfl rfl rfl rfl
    · exact .refl σ
  | returns i outcome metrics random =>
    exact Futures.step_keeps fun f hf => execReturns_keeps hf outcome metrics random
  | countChildren i fault =>
    refine Futures.step_keeps fun f hf => ?_
    split
    · rename_i memo metrics hstage
      split
      · exact .enter hf hstage rfl nofun
      · exact (Futures.Keeps.leave hf).congr rfl rfl rfl rfl rfl
    · exact .refl σ
  | setWaiting i fault =>
    refine Futures.step_keeps fun f hf => ?_
    split
    · exact .leave_attempt hf fault _
    · exact .refl σ
  | retryInline i fault => exact Futures.step_keeps fun f hf => execRetry_keeps hf fault
  | handleFailure i fault random now => exact Futures.step_keeps fun f hf => execFailure_keeps hf fault random now
  | cleanUp i =>
    refine Futures.step_keeps fun f hf => ?_
    split
    · exact .leave hf
    · exact .refl σ
  | drainCompletions => exact (Futures.Keeps.refl σ).congr rfl rfl rfl rfl rfl
  | completeBatch k fault now =>
    show σ.Keeps _ (match σ.completing[k]? with | none => σ | some batch => _)
    split
    · exact .refl σ
    · exact (Futures.Keeps.attempt fault _).congr rfl rfl rfl rfl rfl
  | drainFailures => exact (Futures.Keeps.refl σ).congr rfl rfl rfl rfl rfl
  | failBatch k fault now =>
    show σ.Keeps _ (match σ.failing[k]? with | none => σ | some batch => _)
    split
    · exact .refl σ
    · exact (Futures.Keeps.attempt fault _).congr rfl rfl rfl rfl rfl
  | drain p purpose =>
    refine ⟨rfl, (Futures.Keeps.refl σ).futures, fun e' he' => ⟨e', List.mem_of_mem_filter he', .refl e'⟩,
      fun d' hd' => ?_, Nat.le_refl _, fun _ ht => .inl ht⟩
    rcases List.mem_append.1 hd' with hd' | hd'
    · exact .inr ⟨d', hd', rfl⟩
    · obtain ⟨e, he, rfl⟩ := List.mem_map.1 hd'
      exact .inl (List.mem_of_mem_filter he)
  | cancelToken i =>
    refine ⟨rfl, (Futures.Keeps.refl σ).futures, fun e he => ⟨e, he, .refl e⟩, fun d' hd' => ?_, Nat.le_refl _,
      fun t ht => ?_⟩
    · obtain ⟨d, hd, rfl⟩ := List.mem_map.1 hd'
      refine .inr ⟨d, hd, ?_⟩
      split
      · rfl
      · rfl
    · rcases List.mem_append.1 ht with ht | ht
      · obtain ⟨d, hd, rfl⟩ := List.mem_map.1 ht
        exact .inr ⟨d, List.mem_of_mem_filter hd, rfl⟩
      · exact .inl ht
  | settle i fault now =>
    rw [exec]
    split
    · exact .refl σ
    · rename_i d hfind
      have hkeeps : σ.Keeps False (σ.carryOut sha256 d fault now) := by
        rw [Futures.carryOut]
        split
        · exact .refl σ
        · exact .attempt fault _
      exact ⟨hkeeps.length, fun n f' hf' => hkeeps.futures n f' hf', hkeeps.active,
        fun d' hd' => .inr ⟨d', List.mem_of_mem_eraseP hd', rfl⟩, hkeeps.tokens, hkeeps.cancelled⟩

end Keeps

/-- `eraseP` takes out what `find?` finds. -/
theorem mem_eraseP_or {α : Type} {p : α → Bool} {l : List α} {a b : α} (ha : a ∈ l) (hb : l.find? p = some b) :
    a ∈ l.eraseP p ∨ a = b := by
  induction l with
  | nil => cases ha
  | cons x l ih =>
    by_cases hx : p x = true
    · rw [List.find?_cons_of_pos hx] at hb
      cases hb
      rw [List.eraseP_cons_of_pos hx]
      exact (List.mem_cons.1 ha).symm
    · rw [List.find?_cons_of_neg hx] at hb
      rw [List.eraseP_cons_of_neg hx]
      rcases List.mem_cons.1 ha with rfl | ha
      · exact .inl List.mem_cons_self
      · exact (ih ha hb).imp_left (List.mem_cons_of_mem x)

/-! ### Futures and their entries -/

/-- The entry has been made for one of the futures. -/
def Futures.EntryOf (σ : Futures) (e : ActiveTask) : Prop :=
  ∃ f, σ.futures[e.future]? = some f ∧ f.task.id = e.record.id ∧ f.token = e.token ∧ e.io = e.token

structure Futures.Linked (σ : Futures) : Prop where
  tokens : ∀ (n : Nat) (f : Future), σ.futures[n]? = some f → f.token < σ.tokens
  distinct : ∀ (m n : Nat) (f g : Future), σ.futures[m]? = some f → σ.futures[n]? = some g → f.token = g.token → m = n
  active : ∀ e ∈ σ.active, σ.EntryOf e
  drained : ∀ d ∈ σ.drained, σ.EntryOf d.entry
  cancelled : ∀ t ∈ σ.cancelled, t < σ.tokens

section Linked

variable {σ σ' : Futures} {inline : Prop}

theorem Futures.Fresh.linked (h : σ.Fresh) : σ.Linked := by
  have hnone (n : Nat) : σ.futures[n]? = none := by rw [h.futures]; rfl
  refine ⟨fun n f hf => ?_, fun m n f g hf _ _ => ?_, fun e he => ?_, fun d hd => ?_, fun t ht => ?_⟩
  · rw [hnone] at hf
    cases hf
  · rw [hnone] at hf
    cases hf
  · rw [h.active] at he
    cases he
  · rw [h.drained] at hd
    cases hd
  · rw [h.cancelled] at ht
    cases ht

/-- What has become of a future. -/
theorem Futures.Keeps.future (h : σ.Keeps inline σ') {n : Nat} {f : Future} (hf : σ.futures[n]? = some f) :
    ∃ f', σ'.futures[n]? = some f' ∧ f.Follows inline f' := by
  have hn : n < σ'.futures.length := by
    rw [h.length]
    exact (List.getElem?_eq_some_iff.1 hf).1
  have hf' := List.getElem?_eq_getElem hn
  obtain ⟨g, hg, hfollows⟩ := h.futures n _ hf'
  rw [hf] at hg
  cases hg
  exact ⟨_, hf', hfollows⟩

theorem Futures.Keeps.entryOf (h : σ.Keeps inline σ') {e e' : ActiveTask} (he : σ.EntryOf e) (hsame : e.Same e') :
    σ'.EntryOf e' := by
  obtain ⟨f, hf, hid, htoken, hio⟩ := he
  obtain ⟨f', hf', hfollows⟩ := h.future hf
  refine ⟨f', hsame.future ▸ hf', ?_, ?_, ?_⟩
  · rw [hfollows.id, hid, hsame.record]
  · rw [hfollows.token, htoken, hsame.token]
  · rw [hsame.io, hio, hsame.token]

theorem Futures.Keeps.linked (h : σ.Keeps inline σ') (hσ : σ.Linked) : σ'.Linked := by
  refine ⟨fun n f' hf' => ?_, fun m n f' g' hf' hg' htoken => ?_, fun e' he' => ?_, fun d' hd' => ?_, fun t ht => ?_⟩
  · obtain ⟨f, hf, hfollows⟩ := h.futures n f' hf'
    rw [hfollows.token]
    exact Nat.lt_of_lt_of_le (hσ.tokens n f hf) h.tokens
  · obtain ⟨f, hf, hff⟩ := h.futures m f' hf'
    obtain ⟨g, hg, hgg⟩ := h.futures n g' hg'
    rw [hff.token, hgg.token] at htoken
    exact hσ.distinct m n f g hf hg htoken
  · obtain ⟨e, he, hsame⟩ := h.active e' he'
    exact h.entryOf (hσ.active e he) hsame
  · rcases h.drained d' hd' with he | ⟨d, hd, heq⟩
    · exact h.entryOf (hσ.active _ he) (.refl _)
    · rw [heq]
      exact h.entryOf (hσ.drained d hd) (.refl _)
  · refine Nat.lt_of_lt_of_le ?_ h.tokens
    rcases h.cancelled t ht with ht | ⟨d, hd, rfl⟩
    · exact hσ.cancelled t ht
    · obtain ⟨f, hf, _, htoken, _⟩ := hσ.drained d hd
      rw [← htoken]
      exact hσ.tokens _ f hf

/-- The futures after a spawn. -/
theorem Futures.spawn_futures {task : TaskRecord} {phase : ExecutionPhase} {n : Nat} {f : Future}
    (h : (σ.spawn task phase).futures[n]? = some f) :
    σ.futures[n]? = some f ∨
      (n = σ.futures.length ∧ f = { task := task, phase := phase, prepared := ⟨σ.tokens, σ.tokens⟩, token := σ.tokens,
                                    decremented := false, handled := false, stage := .executing }) := by
  rw [Futures.spawn, List.getElem?_append] at h
  split at h
  · exact .inl h
  · rename_i hn
    right
    rw [List.getElem?_singleton] at h
    split at h
    · cases h
      exact ⟨by omega, rfl⟩
    · cases h

theorem Futures.spawn_future_old {task : TaskRecord} {phase : ExecutionPhase} {n : Nat} {f : Future}
    (h : σ.futures[n]? = some f) : (σ.spawn task phase).futures[n]? = some f := by
  rw [Futures.spawn, List.getElem?_append_left (List.getElem?_eq_some_iff.1 h).1]
  exact h

theorem Futures.Linked.spawn (h : σ.Linked) (task : TaskRecord) (phase : ExecutionPhase) :
    (σ.spawn task phase).Linked := by
  have hold {e : ActiveTask} (he : σ.EntryOf e) : (σ.spawn task phase).EntryOf e := by
    obtain ⟨f, hf, hrest⟩ := he
    exact ⟨f, spawn_future_old hf, hrest⟩
  refine ⟨fun n f hf => ?_, fun m n f g hf hg htoken => ?_, fun e he => ?_, fun d hd => hold (h.drained d hd),
    fun t ht => ?_⟩
  · rcases spawn_futures hf with hf | ⟨_, rfl⟩
    · exact Nat.lt_succ_of_lt (h.tokens n f hf)
    · exact Nat.lt_succ_self _
  · -- the token of the new future is new
    rcases spawn_futures hf with hf | ⟨rfl, rfl⟩
    · rcases spawn_futures hg with hg | ⟨rfl, rfl⟩
      · exact h.distinct m n f g hf hg htoken
      · exact absurd htoken (Nat.ne_of_lt (h.tokens m f hf))
    · rcases spawn_futures hg with hg | ⟨rfl, rfl⟩
      · exact absurd htoken.symm (Nat.ne_of_lt (h.tokens n g hg))
      · rfl
  · rcases List.mem_append.1 he with he | he
    · exact hold (h.active e (List.mem_of_mem_filter he))
    · rw [List.mem_singleton.1 he]
      exact ⟨_, List.getElem?_concat_length, rfl, rfl, rfl⟩
  · exact Nat.lt_succ_of_lt (h.cancelled t ht)

theorem FutureStep.linked_exec (c : SpawnConfig) (sha256 : List UInt8 → String) (h : σ.Linked) (st : FutureStep) :
    (st.exec c sha256 σ).Linked := by
  cases hst : st.isSpawn with
  | false => exact (st.keeps_exec c sha256 σ hst).linked h
  | true =>
    cases st with
    | spawn task phase => exact h.spawn task phase
    | _ => cases hst

end Linked

/-! ### Runs -/

/-- Three retries without a delay for every task. -/
def threeRetries : SpawnConfig := ⟨fun _ => none, 3⟩

/-- A scheduler with one module on a new database. -/
def futuresStart : Futures where
  store := openMemory
  active := []
  moduleRunning := StringMap.ofList [("media", 0)]
  futures := []
  tokens := 0
  cancelled := []
  completions := []
  completing := []
  failures := []
  failing := []
  drained := []
  owner := fun _ => none
  log := []

def futuresState (steps : List FutureStep) : Futures :=
  steps.foldl (fun σ st => st.exec threeRetries sampleSha256 σ) futuresStart

theorem futuresStart_fresh : futuresStart.Fresh := by
  refine ⟨openMemory_fresh, rfl, fun module n h => ?_, rfl, rfl, rfl, rfl, rfl, rfl, rfl, fun _ => rfl, rfl⟩
  by_cases hm : module = "media"
  · subst hm
    cases h
    rfl
  · have hnone : futuresStart.moduleRunning.lookup module = none := by
      show (AList.insert "media" 0 ∅ : StringMap Int).lookup module = none
      rw [AList.lookup_insert_ne hm]
      rfl
    rw [hnone] at h
    cases h

/-- The record of the first task that is submitted and popped. -/
def firstTask (sub : TaskSubmission) : TaskRecord :=
  rowToTaskRecord
    { sub.newRow (sub.effectiveKey sampleSha256) 0 with id := 1, status := .running, startedAt := some 0 }

/-- The task is submitted, popped and spawned. -/
def startFirst (sub : TaskSubmission) : List FutureStep :=
  [.store (.submitDirect sub 0), .store (.popNextBatch 1 none 0), .spawn (firstTask sub) .execute]

end Taskmill
