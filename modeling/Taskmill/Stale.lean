import Taskmill.Coalescing
import Taskmill.Completion

/-!
# Results of stale executions

An execution is started from a row and reports its result by the id it saw then.  Meanwhile the row may have been
cancelled, superseded or removed in another way, and its id may belong to another task.  `ExecState` is the store
together with the records that were peeked and the executions that were started; an execution is stale when its life
is over.

None of the outcome calls looks at the status or at the identity of the row.  `outcome_unchanged_iff` says exactly
when such a call leaves the tables alone: a completion or a terminal failure only if its transaction fails, a retry
only if no row has the id.
-/

namespace Taskmill

open Transact

/-- A started execution: the record it was given and the life of the row it was claimed from. -/
structure Execution where
  task : TaskRecord
  life : Nat
deriving DecidableEq, Repr

structure ExecState where
  store : Store
  candidates : List TaskRecord
  execs : List Execution

/-- The readings of the clock, for `started_at` and for `expires_at`, with which the dispatch patches its record after
`claim_task` has returned.  They need not be the reading that the row got. -/
structure Readings where
  started : Int
  expires : Int
deriving DecidableEq, Repr

/-- Transactions of the store and the dispatch steps of the scheduler. -/
inductive ExecStep where
  /-- any transaction or statement, the outcome calls of executions included -/
  | store (a : Action)
  /-- `pop_next_batch`, `populate_tags` and the start of the executions -/
  | popBatch (limit : Nat) (aging : Option AgingParams) (now : Int)
  /-- `pop_by_id` and the start of the execution -/
  | popById (id now : Int)
  /-- `peek_next` and `populate_tags` -/
  | peek (aging : Option AgingParams) (now : Int)
  /-- `claim_task` for a peeked candidate and the start of the execution with the patched record -/
  | claim (candidate : TaskRecord) (now : Int) (readings : Readings)

/-- The record as `try_dispatch` patches it after the claim, with two readings of the clock of its own. -/
def TaskRecord.patched (task : TaskRecord) (readings : Readings) : TaskRecord :=
  { task with
    status := .running
    startedAt := some readings.started
    expiresAt :=
      if task.ttlFrom = .firstAttempt ∧ task.expiresAt = none then
        task.ttlSeconds.map fun ttl => readings.expires + ttl * 1000
      else task.expiresAt }

def Execution.ofRecord (task : TaskRecord) : Execution := ⟨task, task.inst⟩

def ExecStep.exec (sha256 : List UInt8 → String) (σ : ExecState) : ExecStep → ExecState
  | .store a => { σ with store := a.exec sha256 σ.store }
  | .popBatch limit aging now =>
    match popNextBatch limit aging now σ.store with
    | (.ok records, s) => { σ with store := s, execs := σ.execs ++ records.map fun r => .ofRecord (s.populateTags r) }
    | (.error _, s) => { σ with store := s }
  | .popById id now =>
    match Taskmill.popById id now σ.store with
    | (.ok record, s) => { σ with store := s, execs := σ.execs ++ record.toList.map .ofRecord }
    | (.error _, s) => { σ with store := s }
  | .peek aging now =>
    { σ with candidates := σ.candidates ++ ((σ.store.peekNext aging now).map σ.store.populateTags).toList }
  | .claim candidate now readings =>
    match claimTask candidate.id now σ.store with
    | (.ok true, s) =>
      { σ with
        store := s
        execs := σ.execs ++ (σ.store.taskById candidate.id).toList.map fun row =>
          ⟨candidate.patched readings, row.inst⟩ }
    | (_, s) => { σ with store := s }

/-- Only peeked candidates are claimed. -/
def ExecStep.Allowed (σ : ExecState) : ExecStep → Prop
  | .claim candidate _ _ => candidate ∈ σ.candidates
  | _ => True

def ExecState.Fresh (σ : ExecState) : Prop := σ.store.Fresh ∧ σ.candidates = [] ∧ σ.execs = []

/-- The states reached by any interleaving. -/
def ExecReachable (sha256 : List UInt8 → String) (σ : ExecState) : Prop :=
  Runs ExecState.Fresh (fun σ (a : ExecStep) => a.exec sha256 σ) (fun σ a => a.Allowed σ) σ

/-- The row the execution was started from is gone, or its life is over. -/
def Execution.Stale (e : Execution) (s : Store) : Prop := ∀ r ∈ s.tasks, r.inst ≠ e.life

/-- The calls with which an execution reports its result; a batch may hold the results of others. -/
inductive OutcomeCall where
  | completeWithRecord (metrics : IoBudget) (now : Int)
  | completeBatch (before : List (TaskRecord × IoBudget)) (metrics : IoBudget) (after : List (TaskRecord × IoBudget))
      (now : Int)
  | failWithRecord (error : String) (retryable : Bool) (maxRetries : Int) (metrics : IoBudget) (backoff : FailBackoff)
      (now : Int)
  | failBatch (before : List FailureItem) (error : String) (retryable : Bool) (metrics : IoBudget)
      (after : List FailureItem) (now : Int)
  | requeueForRetry (error : String) (delay : Duration) (now : Int)
  | incrementRetry (error : String)

/-- The transaction of the call, made for the record `task`. -/
def OutcomeCall.action (task : TaskRecord) : OutcomeCall → Action
  | .completeWithRecord metrics now => .completeWithRecord task metrics now
  | .completeBatch before metrics after now => .completeBatch (before ++ (task, metrics) :: after) now
  | .failWithRecord error retryable maxRetries metrics backoff now =>
    .failWithRecord task error retryable maxRetries metrics backoff now
  | .failBatch before error retryable metrics after now =>
    .failBatch (before ++ ⟨task, error, retryable, metrics⟩ :: after) now
  | .requeueForRetry error delay now => .update (.requeueForRetry task.id error delay now)
  | .incrementRetry error => .update (.incrementRetry task.id error)

/-- What the call leaves if the result of the execution is taken out of it. -/
def OutcomeCall.without (s : Store) : OutcomeCall → Store
  | .completeBatch before _ after now => (completeBatchTx (before ++ after) now s).2
  | .failBatch before _ _ _ after now => (failBatchTx (before ++ after) now s).2
  | _ => s

/-! ### When a transaction fails -/

/-- The transaction of `complete_batch_with_resolve` fails: item by item if one is recurring (or the only one), else
at one of the history rows. -/
def Store.CompletionBatchFails (s : Store) (items : List (TaskRecord × IoBudget)) (now : Int) : Prop :=
  if items.length ≤ 1 ∨ (items.any fun item => item.1.recurringIntervalSecs.isSome) = true then
    ¬ Along (fun s' item => (completeAndResolve (!s.hasTags) now item s').2)
      (fun s' item => ¬ s'.CompletionFails (!s.hasTags) item.1) s items
  else
    ¬ Along (fun s' item => (insertCompleted (!s.hasTags) now item s').2)
      (fun s' item => ¬ s'.LogFails (!s.hasTags) item.1.id) s items

/-- The transaction of `fail_batch` fails at one of the history rows; a single item always copies its tags. -/
def Store.FailureBatchFails (s : Store) (items : List FailureItem) (now : Int) : Prop :=
  if items.length ≤ 1 then ∃ item ∈ items, s.LogFails false item.task.id
  else
    ¬ Along (fun s' item => (insertFailed (!s.hasTags) now item s').2)
      (fun s' item => ¬ s'.LogFails (!s.hasTags) item.task.id) s items

/-- The calls that do nothing: retries of an id that no row has, and transactions that fail with and without the
result. -/
def OutcomeCall.Harmless (task : TaskRecord) (s : Store) : OutcomeCall → Prop
  | .completeWithRecord _ _ => s.CompletionFails (!s.hasTags) task
  | .completeBatch before metrics after now =>
    s.CompletionBatchFails (before ++ (task, metrics) :: after) now ∧
      (before ++ after = [] ∨ s.CompletionBatchFails (before ++ after) now)
  | .failWithRecord _ retryable maxRetries _ _ _ =>
    if task.willRetry retryable maxRetries then task.id ∉ s.ids else s.LogFails false task.id
  | .failBatch before error retryable metrics after now =>
    s.FailureBatchFails (before ++ ⟨task, error, retryable, metrics⟩ :: after) now ∧
      (before ++ after = [] ∨ s.FailureBatchFails (before ++ after) now)
  | .requeueForRetry .. | .incrementRetry _ => task.id ∉ s.ids

/-! ### The calls -/

section Calls

variable {now : Int} {s : Store}

private theorem Store.SameTables.history_length {s s' : Store} (h : s.SameTables s') :
    s.taskHistory.length = s'.taskHistory.length := by
  have := congrArg List.length h.taskHistory
  simpa using this

/-- The tables are restored if `fails`, and else there are `n` more history rows. -/
private def Writes (s : Store) (n : Nat) (fails : Prop) (s' : Store) : Prop :=
  (fails ∧ ∃ s₁, s' = s.rollback s₁) ∨ (¬ fails ∧ s'.taskHistory.length = s.taskHistory.length + n)

private theorem writes_transaction {α : Type} {x : Sql α} {n : Nat} {fails : Prop}
    (hf : (∃ e s', x s = (.error e, s')) ↔ fails)
    (hlen : ∀ a s', x s = (.ok a, s') → s'.taskHistory.length = s.taskHistory.length + n) :
    Writes s n fails (transaction x s).2 := by
  rcases hx : transaction x s with ⟨e | a, s'⟩
  · obtain ⟨s₁, herr, rfl⟩ := transaction_error hx
    exact .inl ⟨hf.1 ⟨e, s₁, herr⟩, s₁, rfl⟩
  · have hok := transaction_ok hx
    refine .inr ⟨fun h => ?_, hlen a s' hok⟩
    obtain ⟨e, s₁, herr⟩ := hf.2 h
    rw [herr] at hok
    cases hok

private theorem Writes.unchanged_iff {n : Nat} {fails : Prop} {s' : Store} (h : Writes s (n + 1) fails s') :
    s'.SameTables s ↔ fails := by
  rcases h with ⟨hf, s₁, rfl⟩ | ⟨hf, hlen⟩
  · exact ⟨fun _ => hf, fun _ => ⟨rfl, rfl, rfl, rfl, rfl, rfl⟩⟩
  · constructor
    · intro hsame
      have := hsame.history_length
      omega
    · exact fun hf' => absurd hf' hf

/-- A batch with one more item leaves the same tables only if both fail, or nothing else is in it. -/
private theorem Writes.same_iff {n : Nat} {fails fails' : Prop} {s₁ s₂ : Store} (h₁ : Writes s (n + 1) fails s₁)
    (h₂ : Writes s n fails' s₂) (hnil : n = 0 → s₂ = s) : s₁.SameTables s₂ ↔ fails ∧ (n = 0 ∨ fails') := by
  by_cases hn : n = 0
  · rw [hnil hn, h₁.unchanged_iff]
    simp [hn]
  · rcases h₁ with ⟨hf, t₁, rfl⟩ | ⟨hf, hlen⟩
    · rcases h₂ with ⟨hf', t₂, rfl⟩ | ⟨hf', hlen'⟩
      · exact ⟨fun _ => ⟨hf, .inr hf'⟩, fun _ => ⟨rfl, rfl, rfl, rfl, rfl, rfl⟩⟩
      · constructor
        · intro hsame
          have h := hsame.history_length
          rw [Store.rollback_taskHistory] at h
          omega
        · rintro ⟨_, h | h⟩
          · exact absurd h hn
          · exact absurd h hf'
    · constructor
      · intro hsame
        have h := hsame.history_length
        rcases h₂ with ⟨_, t₂, rfl⟩ | ⟨_, hlen'⟩
        · rw [Store.rollback_taskHistory] at h
          omega
        · omega
      · exact fun h => absurd h.1 hf

/-- Loops whose rounds each write one history row. -/
private theorem history_mapList {α β : Type} {f : α → Sql β}
    (hf : ∀ x s b s', f x s = (.ok b, s') → s'.taskHistory.length = s.taskHistory.length + 1)
    {xs : List α} {s s' : Store} {bs : List β} (h : Txn.mapList f xs s = (.ok bs, s')) :
    s'.taskHistory.length = s.taskHistory.length + xs.length := by
  induction xs generalizing s bs with
  | nil =>
    cases h
    rfl
  | cons x xs ih =>
    obtain ⟨b, s₁, h₁, h⟩ := Txn.bind_ok h
    obtain ⟨rest, s₂, h₂, h⟩ := Txn.bind_ok h
    cases h
    have hfirst := hf x s b s₁ h₁
    have hrest := ih h₂
    rw [List.length_cons]
    omega

private theorem history_insertHistory {task : TaskRecord} {status : HistoryStatus} {metrics : IoBudget}
    {durationMs : Option Int} {lastError : Option String} {skipTags : Bool} {s s' : Store} {u : Unit}
    (h : insertHistory task status metrics durationMs lastError skipTags now s = (.ok u, s')) :
    s'.taskHistory.length = s.taskHistory.length + 1 := by
  obtain ⟨tags, rfl⟩ := insertHistory_leaves h
  simp

private theorem history_completeInner {task : TaskRecord} {metrics : IoBudget} {skipTags : Bool} {s s' : Store}
    {result : Option (Int × Int)} (h : completeInner task metrics skipTags now s = (.ok result, s')) :
    s'.taskHistory.length = s.taskHistory.length + 1 := by
  rw [completeInner_history h]
  simp [Store.logCompleted]

private theorem history_completeAndResolve {skipTags : Bool} {item : TaskRecord × IoBudget} {s s' : Store}
    {result : Int × Option (Int × Int) × List Int} (h : completeAndResolve skipTags now item s = (.ok result, s')) :
    s'.taskHistory.length = s.taskHistory.length + 1 := by
  obtain ⟨recurring, s₁, h₁, h⟩ := Txn.bind_ok h
  obtain ⟨unblocked, s₂, h₂, hh⟩ := resolveDependentsInner_ok item.1.id now s₁
  rw [Txn.bind_of_ok h₂] at h
  cases h
  rw [hh]
  exact history_completeInner h₁

private theorem insertHistory_fails_iff {task : TaskRecord} {status : HistoryStatus} {metrics : IoBudget}
    {durationMs : Option Int} {lastError : Option String} {skipTags : Bool} {s : Store} :
    (∃ e s', insertHistory task status metrics durationMs lastError skipTags now s = (.error e, s')) ↔
      s.LogFails skipTags task.id := by
  constructor
  · rintro ⟨e, s', h⟩
    by_contra hf
    rw [insertHistory_logs hf] at h
    cases h
  · intro hf
    obtain ⟨s', h⟩ := insertHistory_fails hf status metrics durationMs lastError now
    exact ⟨_, s', h⟩

private theorem writes_completeWithRecordTx (task : TaskRecord) (metrics : IoBudget) :
    Writes s 1 (s.CompletionFails (!s.hasTags) task) (completeWithRecordTx task metrics now s).2 :=
  writes_transaction (x := fun s => completeInner task metrics (!s.hasTags) now s) completeInner_fails_iff
    fun _ _ h => history_completeInner h

private theorem history_unblock_tail {dependents : List Int} {s s' : Store} {unblocked : List Int}
    (h : (if dependents.isEmpty then pure [] else do
        let unblocked ← unblock dependents
        Txn.modify fun s => s.pauseUnblocked unblocked now
        pure unblocked : Sql (List Int)) s = (.ok unblocked, s')) : s'.taskHistory = s.taskHistory := by
  split at h
  · cases h
    rfl
  · obtain ⟨ids, s₁, h₁, h⟩ := Txn.bind_ok h
    obtain ⟨_, s₂, h₂, h⟩ := Txn.bind_ok h
    cases h
    cases h₁
    cases h₂
    rfl

/-- After the history rows the batched path cannot fail, and it writes no more of them. -/
private theorem completeBatchFast_tail (now : Int) (skipTags : Bool)
    (items : List (TaskRecord × IoBudget)) (s : Store) :
    ((∃ e s', completeBatchFast skipTags now items s = (.error e, s')) ↔
      ∃ e s', Txn.mapList (insertCompleted skipTags now) items s = (.error e, s')) ∧
    ∀ a s', completeBatchFast skipTags now items s = (.ok a, s') →
      ∃ us s₁, Txn.mapList (insertCompleted skipTags now) items s = (.ok us, s₁) ∧
        s'.taskHistory = s₁.taskHistory := by
  constructor
  · constructor
    · rintro ⟨e, s', h⟩
      rcases Txn.bind_error h with h | ⟨us, s₁, _, h⟩
      · exact ⟨e, s', h⟩
      · rcases Txn.bind_error h with h | ⟨deleted, s₂, _, h⟩
        · cases h
        · rcases Txn.bind_error h with h | ⟨_, s₃, _, h⟩
          · cases h
          · rcases Txn.bind_error h with h | ⟨_, s₄, _, h⟩
            · cases h
            · rcases Txn.bind_error h with h | ⟨dependents, s₅, _, h⟩
              · cases h
              · split at h
                · cases h
                · rcases Txn.bind_error h with h | ⟨_, s₆, _, h⟩
                  · cases h
                  · rcases Txn.bind_error h with h | ⟨_, s₇, _, h⟩
                    · cases h
                    · cases h
    · rintro ⟨e, s', h⟩
      exact ⟨e, s', Txn.bind_of_error h⟩
  · intro a s' h
    obtain ⟨us, s₁, h₁, h⟩ := Txn.bind_ok h
    obtain ⟨deleted, s₂, h₂, h⟩ := Txn.bind_ok h
    obtain ⟨_, s₃, h₃, h⟩ := Txn.bind_ok h
    obtain ⟨_, s₄, h₄, h⟩ := Txn.bind_ok h
    obtain ⟨dependents, s₅, h₅, h⟩ := Txn.bind_ok h
    refine ⟨us, s₁, h₁, (history_unblock_tail h).trans ?_⟩
    cases h₅
    show s₄.taskHistory = s₁.taskHistory
    have hreset : s₃.taskHistory = s₁.taskHistory := by
      cases h₂
      cases h₃
      exact taskHistory_foldl_resetRequeued _ _
    have htags : s₄.taskHistory = s₃.taskHistory := by
      cases h₄
      dsimp only
      split
      · rfl
      · rfl
    exact htags.trans hreset

private theorem writes_completeBatchTx (s : Store) (now : Int) (items : List (TaskRecord × IoBudget)) :
    Writes s items.length (s.CompletionBatchFails items now) (completeBatchTx items now s).2 := by
  rcases items with _ | ⟨first, _ | ⟨second, rest⟩⟩
  · refine .inr ⟨?_, rfl⟩
    simp [Store.CompletionBatchFails, Along]
  · have hfails : s.CompletionBatchFails [first] now ↔ s.CompletionFails (!s.hasTags) first.1 := by
      simp [Store.CompletionBatchFails, Along]
    rw [completeBatchTx, Txn.bind_pure_state, hfails]
    exact writes_transaction (x := fun s => completeAndResolve (!s.hasTags) now first s)
      completeAndResolve_fails_iff fun _ _ h => history_completeAndResolve h
  · have hstart : completeBatchTx (first :: second :: rest) now =
        if (first :: second :: rest).any fun item => item.1.recurringIntervalSecs.isSome then
          transaction fun s => Txn.mapList (completeAndResolve (!s.hasTags) now) (first :: second :: rest) s
        else (do
          let unblocked ← transaction fun s => completeBatchFast (!s.hasTags) now (first :: second :: rest) s
          pure (batchResults unblocked (first :: second :: rest))) := rfl
    have hlen : ¬ (first :: second :: rest).length ≤ 1 := by simp
    rw [hstart]
    generalize first :: second :: rest = items at hlen
    split
    · rename_i hrec
      have hfails : s.CompletionBatchFails items now ↔
          ¬ Along (fun s' item => (completeAndResolve (!s.hasTags) now item s').2)
            (fun s' item => ¬ s'.CompletionFails (!s.hasTags) item.1) s items := by
        rw [Store.CompletionBatchFails, if_pos (.inr hrec)]
      rw [hfails]
      refine writes_transaction (x := fun s => Txn.mapList (completeAndResolve (!s.hasTags) now) items s) ?_ ?_
      · exact Txn.mapList_fails_iff (fun _ _ => completeAndResolve_fails_iff) items s
      · exact fun a s' h => history_mapList (fun _ _ _ _ h => history_completeAndResolve h) h
    · rename_i hrec
      have hfails : s.CompletionBatchFails items now ↔
          ¬ Along (fun s' item => (insertCompleted (!s.hasTags) now item s').2)
            (fun s' item => ¬ s'.LogFails (!s.hasTags) item.1.id) s items := by
        rw [Store.CompletionBatchFails, if_neg]
        rintro (h | h)
        · exact hlen h
        · exact hrec h
      rw [Txn.bind_pure_state, hfails]
      obtain ⟨herr, hok⟩ := completeBatchFast_tail now (!s.hasTags) items s
      refine writes_transaction (x := fun s => completeBatchFast (!s.hasTags) now items s) ?_ ?_
      · refine herr.trans ?_
        exact Txn.mapList_fails_iff (fun _ _ => insertHistory_fails_iff) items s
      · intro a s' h
        obtain ⟨us, s₁, h₁, hh⟩ := hok a s' h
        rw [hh]
        exact history_mapList (fun _ _ _ _ h => history_insertHistory h) h₁

/-- A terminal failure writes one history row; it fails only with that row. -/
private theorem writes_failInner {task : TaskRecord} {error : String} {retryable : Bool} {maxRetries : Int}
    {metrics : IoBudget} {backoff : FailBackoff} (hretry : task.willRetry retryable maxRetries = false) :
    Writes s 1 (s.LogFails false task.id)
    (failWithRecordTx task error retryable maxRetries metrics backoff now s).2 := by
  refine writes_transaction ?_ ?_
  · have hlog : (∃ e s', insertHistory task (terminalStatus retryable) metrics
      (computeDurationMs now task) (some error)
        false now s = (.error e, s')) ↔ s.LogFails false task.id := insertHistory_fails_iff
    rw [failInner, if_neg (by simp [hretry]), ← hlog]
    constructor
    · rintro ⟨e, s', h⟩
      rcases Txn.bind_error h with h | ⟨_, s₁, _, h⟩
      · exact ⟨e, s', h⟩
      · cases h
    · rintro ⟨e, s', h⟩
      exact ⟨e, s', Txn.bind_of_error h⟩
  · intro a s' h
    rw [failInner, if_neg (by simp [hretry])] at h
    obtain ⟨_, s₁, h₁, h⟩ := Txn.bind_ok h
    have hlog := history_insertHistory h₁
    cases h
    exact hlog

private theorem writes_failBatchTx (s : Store) (now : Int) (items : List FailureItem) :
    Writes s items.length (s.FailureBatchFails items now) (failBatchTx items now s).2 := by
  rcases items with _ | ⟨first, _ | ⟨second, rest⟩⟩
  · refine .inr ⟨?_, rfl⟩
    simp [Store.FailureBatchFails]
  · have hfails : s.FailureBatchFails [first] now ↔ s.LogFails false first.task.id := by
      simp [Store.FailureBatchFails]
    rw [hfails]
    exact writes_failInner (willRetry_zero first.task first.retryable)
  · have hstart : failBatchTx (first :: second :: rest) now = transaction fun s => (do
        let _ ← Txn.mapList (insertFailed (!s.hasTags) now) (first :: second :: rest)
        Txn.modify fun s => s.deleteTasks fun r => ((first :: second :: rest).map (·.task.id)).contains r.id
        Txn.modify fun s' => if !s.hasTags then s' else
          { s' with taskTags := s'.taskTags.filter fun t =>
            !((first :: second :: rest).map (·.task.id)).contains t.1 } :
        Sql Unit) s := rfl
    have hlen : ¬ (first :: second :: rest).length ≤ 1 := by simp
    rw [hstart]
    generalize first :: second :: rest = items at hlen
    have hfails : s.FailureBatchFails items now ↔
        ¬ Along (fun s' item => (insertFailed (!s.hasTags) now item s').2)
          (fun s' item => ¬ s'.LogFails (!s.hasTags) item.task.id) s items := by
      rw [Store.FailureBatchFails, if_neg hlen]
    rw [hfails]
    refine writes_transaction ?_ ?_
    · refine Iff.trans ?_ (Txn.mapList_fails_iff (f := insertFailed (!s.hasTags) now)
        (fun _ _ => insertHistory_fails_iff) items s)
      constructor
      · rintro ⟨e, s', h⟩
        rcases Txn.bind_error h with h | ⟨_, s₁, _, h⟩
        · exact ⟨e, s', h⟩
        · rcases Txn.bind_error h with h | ⟨_, s₂, _, h⟩
          · cases h
          · cases h
      · rintro ⟨e, s', h⟩
        exact ⟨e, s', Txn.bind_of_error h⟩
    · intro a s' h
      obtain ⟨_, s₁, h₁, h⟩ := Txn.bind_ok h
      obtain ⟨_, s₂, h₂, h⟩ := Txn.bind_ok h
      rw [← history_mapList (fun _ _ _ _ h => history_insertHistory h) h₁]
      cases h₂
      cases h
      dsimp only
      split
      · rfl
      · rfl

/-- A retry changes every row with the id. -/
private theorem retry_unchanged_iff {id : Int} {f : TaskRow → TaskRow}
    (hf : ∀ r, (f r).retryCount = r.retryCount + 1) :
    (s.updateTasks (·.id == id) f).SameTables s ↔ id ∉ s.ids := by
  constructor
  · intro hsame hid
    obtain ⟨r, hr, hrid⟩ := List.mem_map.1 hid
    have htasks := hsame.tasks
    rw [Store.updateTasks_tasks, List.map_map, List.map_inj_left] at htasks
    have hrow := htasks r hr
    simp only [Function.comp_apply, hrid, beq_self_eq_true, if_true] at hrow
    have hcount := congrArg TaskRow.retryCount hrow
    simp only [TaskRow.columns, hf] at hcount
    omega
  · intro hid
    have heq : s.updateTasks (·.id == id) f = s := by
      have htasks : s.tasks.map (fun r => if r.id == id then f r else r) = s.tasks := by
        conv_rhs => rw [← List.map_id s.tasks]
        refine List.map_congr_left fun r hr => ?_
        have hne : r.id ≠ id := fun h => hid (List.mem_map.2 ⟨r, hr, h⟩)
        simp [hne]
      rw [Store.updateTasks, htasks]
    rw [heq]
    exact ⟨rfl, rfl, rfl, rfl, rfl, rfl⟩

/-- The outcome calls on any store, for any record. -/
private theorem outcome_same_iff (sha256 : List UInt8 → String) (task : TaskRecord) (call : OutcomeCall) :
    ((call.action task).exec sha256 s).SameTables (call.without s) ↔ call.Harmless task s := by
  cases call with
  | completeWithRecord metrics now => exact (writes_completeWithRecordTx task metrics).unchanged_iff
  | completeBatch before metrics after now =>
    have hlen : (before ++ (task, metrics) :: after).length = (before ++ after).length + 1 := by
      simp only [List.length_append, List.length_cons]
      omega
    have hwith := writes_completeBatchTx s now (before ++ (task, metrics) :: after)
    rw [hlen] at hwith
    have hiff := hwith.same_iff (writes_completeBatchTx s now (before ++ after)) (by
      intro h
      rw [List.length_eq_zero_iff.1 h]
      rfl)
    rw [List.length_eq_zero_iff] at hiff
    exact hiff
  | failWithRecord error retryable maxRetries metrics backoff now =>
    rw [OutcomeCall.Harmless]
    by_cases hretry : task.willRetry retryable maxRetries = true
    · rw [if_pos hretry]
      have hexec : ((OutcomeCall.failWithRecord error retryable maxRetries metrics backoff now).action task).exec
        sha256 s =
          s.requeueForRetry task.id error (backoff.delay task.retryCount) now := by
        show (transaction (failInner task error retryable maxRetries metrics backoff now) s).2 = _
        rw [failInner, if_pos hretry]
        rfl
      rw [hexec]
      exact retry_unchanged_iff fun _ => rfl
    · rw [if_neg hretry]
      exact (writes_failInner (by simpa using hretry)).unchanged_iff
  | failBatch before error retryable metrics after now =>
    have hlen : (before ++ ⟨task, error, retryable, metrics⟩ :: after).length = (before ++ after).length + 1 := by
      simp only [List.length_append, List.length_cons]
      omega
    have hwith := writes_failBatchTx s now (before ++ ⟨task, error, retryable, metrics⟩ :: after)
    rw [hlen] at hwith
    have hiff := hwith.same_iff (writes_failBatchTx s now (before ++ after)) (by
      intro h
      rw [List.length_eq_zero_iff.1 h]
      rfl)
    rw [List.length_eq_zero_iff] at hiff
    exact hiff
  | requeueForRetry error delay now => exact retry_unchanged_iff fun _ => rfl
  | incrementRetry error => exact retry_unchanged_iff fun _ => rfl

end Calls

/-- An outcome call of a stale execution leaves the tables as they are without it exactly if it is a retry of an id
that no row has, or its transaction fails (and, in a batch with others, fails without it too). -/
theorem stale_outcome_unchanged_iff (sha256 : List UInt8 → String) (σ : ExecState) (_ : ExecReachable sha256 σ)
    (e : Execution) (_ : e ∈ σ.execs) (_ : e.Stale σ.store) (call : OutcomeCall) :
    ((call.action e.task).exec sha256 σ.store).SameTables (call.without σ.store) ↔ call.Harmless e.task σ.store :=
  outcome_same_iff sha256 e.task call

/-- A task is dispatched and cancelled, and a new task gets its id. -/
def staleRun : List ExecStep :=
  [.store (.submitDirect (.new "a") 0), .popBatch 1 none 0, .store (.cancelToHistory 1 0),
    .store (.failDependents 1 0), .store (.submitDirect (.new "b") 0)]

def staleState (steps : List ExecStep) : ExecState :=
  steps.foldl (fun σ a => a.exec sampleSha256 σ) ⟨openMemory, [], []⟩

/-- The execution of the first task. -/
def executionA : Execution := .ofRecord dispatchedA

private theorem staleState_reachable (steps : List ExecStep)
    (h : Along (fun σ (a : ExecStep) => a.exec sampleSha256 σ) (fun σ a => a.Allowed σ) ⟨openMemory, [], []⟩ steps) :
    ExecReachable sampleSha256 (staleState steps) :=
  Runs.list (.start ⟨openMemory_fresh, rfl, rfl⟩) steps h

/-- Before the id is given out again, a retry of the cancelled task does nothing. -/
theorem cancelled_retry_unchanged :
    executionA ∈ (staleState (staleRun.take 3)).execs ∧ executionA.Stale (staleState (staleRun.take 3)).store ∧
      (((OutcomeCall.incrementRetry "late").action executionA.task).exec sampleSha256
        (staleState (staleRun.take 3)).store).SameTables (staleState (staleRun.take 3)).store := by
  have hmem : executionA ∈ (staleState (staleRun.take 3)).execs := by decide
  have hstale : executionA.Stale (staleState (staleRun.take 3)).store := by
    have : ∀ r ∈ (staleState (staleRun.take 3)).store.tasks, r.inst ≠ executionA.life := by decide
    exact this
  refine ⟨hmem, hstale, ?_⟩
  refine (stale_outcome_unchanged_iff sampleSha256 _
    (staleState_reachable (staleRun.take 3) ⟨trivial, trivial, trivial, trivial⟩)
    executionA hmem hstale (.incrementRetry "late")).2 ?_
  have : executionA.task.id ∉ (staleState (staleRun.take 3)).store.ids := by decide
  exact this

/-- The late completion of the cancelled task deletes the new one. -/
theorem stale_completion_deletes_new_task :
    ¬ ∀ σ, ExecReachable sampleSha256 σ → ∀ e ∈ σ.execs, e.Stale σ.store → ∀ call : OutcomeCall,
      ((call.action e.task).exec sampleSha256 σ.store).SameTables (call.without σ.store) := by
  intro h
  have hreach := staleState_reachable staleRun ⟨trivial, trivial, trivial, trivial, trivial, trivial⟩
  have hmem : executionA ∈ (staleState staleRun).execs := by decide
  have hstale : ∀ r ∈ (staleState staleRun).store.tasks, r.inst ≠ executionA.life := by decide
  have hsame := h _ hreach executionA hmem hstale (.completeBatch [] {} [] 0)
  have hrows : (((OutcomeCall.completeBatch [] {} [] 0).action executionA.task).exec sampleSha256
      (staleState staleRun).store).tasks = [] ∧ (staleState staleRun).store.tasks.length = 1 := by decide
  have hlen := congrArg List.length hsame.tasks
  rw [hrows.1, List.length_map, List.length_map] at hlen
  have hwithout : ((OutcomeCall.completeBatch [] {} [] 0).without (staleState staleRun).store).tasks.length =
    1 := by decide
  rw [hwithout] at hlen
  simp at hlen

end Taskmill
