import Taskmill.Scheduler.Retries

/-!
# Retry accounting

A failed execution is retried inside its future if the delay is zero, and by way of the queue otherwise.  The
decision is made on the record in memory, in the future and again in `handle_failure` and `fail_inner`; the count is
kept in the record and in the row.  One life of a task is followed through a run of the scheduler, and what happens
to it is noted down beside the state: the failures, what has become of each, and the history rows (`Tally`).

The accounts are exact (`Tally.Exact`) as long as nobody disturbs the task, `delay_for` does not panic, the
statements of its retries and of its failure do not fail, and the record that is spawned is that of the row.
-/

namespace Taskmill

open Transact

/-! ### What is observed -/

/-- What has become of the executions of one life of a task. -/
structure Tally where
  /-- the errors of the executions that have failed -/
  failures : List TaskError
  /-- for each failure that has been dealt with, whether the task is retried -/
  retried : List Bool
  /-- the history rows that have been written, each with the failures before it -/
  recorded : List (TaskHistoryRow × List TaskError)

def Tally.empty : Tally := ⟨[], [], []⟩

def Future.executing (f : Future) : Bool :=
  match f.stage with
  | .executing => true
  | _ => false

/-- The failure that the future has to deal with. -/
def Future.failure (f : Future) : Option TaskError :=
  match f.stage with
  | .retrying error | .failing error _ => some error
  | _ => none

/-- The error with which an execution of the life fails in this step. -/
def FutureStep.fails (life : Nat) (σ : Futures) : FutureStep → Option TaskError
  | .returns i (.err error) _ _ =>
    if σ.futures[i]?.any fun f => f.task.inst == life && f.executing then some error else none
  | _ => none

/-- The future that deals with a failure of the life in this step. -/
def FutureStep.deals (life : Nat) (σ : Futures) : FutureStep → Option Nat
  | .retryInline i _ =>
    if σ.futures[i]?.any fun f => f.task.inst == life && (f.stage matches .retrying _) then some i else none
  | .handleFailure i .. =>
    if σ.futures[i]?.any fun f => f.task.inst == life && (f.stage matches .failing ..) then some i else none
  | _ => none

/-- The task is pending again, or its future executes it again. -/
def Futures.again (σ : Futures) (life i : Nat) : Bool :=
  (σ.store.tasks.any fun r => r.inst == life && r.status == .pending) || σ.futures[i]?.any Future.executing

/-- The history rows of the life that are new. -/
def Store.newHistory (life : Nat) (s s' : Store) : List TaskHistoryRow :=
  s'.taskHistory.filter fun h => h.inst == life && !s.taskHistory.contains h

def Tally.observe (life : Nat) (σ : Futures) (st : FutureStep) (σ' : Futures) (t : Tally) : Tally where
  failures := t.failures ++ (st.fails life σ).toList
  retried := t.retried ++ ((st.deals life σ).map (σ'.again life)).toList
  recorded := t.recorded ++ (σ.store.newHistory life σ'.store).map fun h => (h, t.failures)

/-- A step, with the tally of the life. -/
def FutureStep.execTallied (c : SpawnConfig) (sha256 : List UInt8 → String) (life : Nat) (x : Futures × Tally)
    (st : FutureStep) : Futures × Tally :=
  (st.exec c sha256 x.1, x.2.observe life x.1 st (st.exec c sha256 x.1))

/-- The retry accounts of the life are exact; `limit` is the effective maximum of its retries. -/
structure Tally.Exact (c : SpawnConfig) (life : Nat) (limit : Int) (σ : Futures) (t : Tally) : Prop where
  /-- the maximum is that of the row and of the records -/
  row : ∀ r ∈ σ.store.tasks, r.inst = life → c.effectiveMax (rowToTaskRecord r) = limit
  record : ∀ f ∈ σ.futures, f.task.inst = life → c.effectiveMax f.task = limit
  /-- when the executor runs, the stored count and the one in memory are the number of failures -/
  agree : ∀ f ∈ σ.futures, f.task.inst = life → f.executing = true →
    f.task.retryCount = t.failures.length ∧ ∃ r ∈ σ.store.tasks, r.inst = life ∧ r.retryCount = f.task.retryCount
  /-- a failure is retried if and only if it is retryable and there have been fewer retries than the maximum -/
  retried : ∀ k b, t.retried[k]? = some b → ∃ e, t.failures[k]? = some e ∧
    (b = true ↔ e.retryable = true ∧ ((t.retried.take k).count true : Int) < limit)
  /-- at most the last failure has not been dealt with, and a future will do so -/
  due : t.retried.length < t.failures.length → t.failures.length = t.retried.length + 1 ∧
    ∃ f ∈ σ.futures, f.task.inst = life ∧ f.failure = t.failures.getLast?
  /-- a failure that is not retried is the last one, and the executor is not called again -/
  last : ∀ k, t.retried[k]? = some false → t.failures.length = k + 1 ∧
    ∀ f ∈ σ.futures, f.task.inst = life → f.executing = false
  /-- retryable failures are given up after exactly one execution more than the maximum -/
  exhausted : (∀ e ∈ t.failures, e.retryable = true) → t.failures.length ≤ limit.toNat + 1 ∧
    (t.retried.getLast? = some false → t.failures.length = limit.toNat + 1)
  /-- a failure that is given up is in the channel, or has been recorded as what it is -/
  ended : ∀ e, t.retried.getLast? = some false → t.failures.getLast? = some e →
    (∃ m ∈ σ.failing.flatten ++ σ.failures, m.2.task.inst = life) ∨
      ∃ w ∈ t.recorded, w.1.status = terminalStatus e.retryable ∧ w.2 = t.failures
  /-- the count in the history is the number of failures -/
  history : ∀ w ∈ t.recorded, w.1.status.withdrawn = false → w.1.retryCount = w.2.length
  deadLetter : ∀ w ∈ t.recorded, w.1.status = .deadLetter →
    (∀ e ∈ w.2, e.retryable = true) ∧ w.2.length = limit.toNat + 1
  failed : ∀ w ∈ t.recorded, w.1.status = .failed → ∃ e, w.2.getLast? = some e ∧ e.retryable = false

/-! ### Which runs -/

/-- The step belongs to others: it leaves the task running if it runs, and deals with outcomes of other tasks. -/
structure Action.Ignores (sha256 : List UInt8 → String) (life : Nat) (s : Store) (a : Action) : Prop where
  running : ∀ r ∈ s.tasks, r.inst = life → r.status = .running →
    ∃ r' ∈ (a.exec sha256 s).tasks, r'.inst = life ∧ r'.status = .running
  ids : ∀ r ∈ s.tasks, r.inst = life → r.id ∉ a.outcomeIds
  records : ∀ task ∈ a.outcomeRecords, task.inst ≠ life

/-- The record is the one of the row. -/
structure TaskRecord.Copies (task : TaskRecord) (r : TaskRow) : Prop where
  inst : task.inst = r.inst
  quota : task.toTaskRow.quota = r.quota

/-- Nobody disturbs the task: it is not superseded, cancelled, paused, recovered, completed or failed by others
while it runs, it has no children, and it is spawned once for every claim. -/
def FutureStep.Undisturbed (sha256 : List UInt8 → String) (life : Nat) (σ : Futures) : FutureStep → Prop
  | .store a => a.Ignores sha256 life σ.store
  | .settle _ _ now =>
    ∀ d ∈ σ.drained, ∀ a, d.purpose.action d.entry.record now = some a → a.Ignores sha256 life σ.store
  | .returns i _ _ _ => ∀ f, σ.futures[i]? = some f → f.task.inst = life → f.token ∉ σ.cancelled
  | .countChildren i _ => ∀ f, σ.futures[i]? = some f → f.task.inst = life → σ.store.activeChildrenCount f.task.id = 0
  | .spawn task phase => task.inst = life → phase = .execute ∧ σ.owner task.id = none ∧
    ∃ r ∈ σ.store.tasks, r.inst = life ∧ r.status = .running
  | _ => True

/-- An outcome of another task is not recorded under the id of this one. -/
def Store.Owns (life : Nat) (s : Store) (task : TaskRecord) : Prop :=
  ∀ r ∈ s.tasks, r.inst = life → task.id = r.id → task.inst = life

/-- `delay_for` does not panic, what is written for the retries and the failure of the task does not fail, and its
records are those of its row. -/
def FutureStep.Accounted (c : SpawnConfig) (life : Nat) (σ : Futures) : FutureStep → Prop
  | .spawn task _ => σ.store.Owns life task ∧
    (task.inst = life → ∀ r ∈ σ.store.tasks, r.inst = life → task.Copies r)
  | .returns i (.err error) _ random => ∀ f, σ.futures[i]? = some f → f.task.inst = life → f.stage = .executing →
    c.retriesInline f error random ≠ none
  | .setWaiting i _ => ∀ f, σ.futures[i]? = some f → σ.store.Owns life f.task
  | .retryInline i fault =>
    ∀ f, σ.futures[i]? = some f → σ.store.Owns life f.task ∧ (f.task.inst = life → fault = false)
  | .handleFailure i fault random _ => ∀ f error metrics, σ.futures[i]? = some f → f.stage = .failing error metrics →
    σ.store.Owns life f.task ∧ (f.task.inst = life → fault = false ∧
      if c.willRetry f.task error then c.retryDelay f.task error random ≠ none
      else f.task.parentId.isSome = true → σ.store.historyTagClash f.task.id = false)
  | .completeBatch k _ _ => ∀ batch, σ.completing[k]? = some batch → ∀ m ∈ batch, σ.store.Owns life m.2.1
  | .failBatch k fault now => ∀ batch, σ.failing[k]? = some batch → (∀ m ∈ batch, σ.store.Owns life m.2.task) ∧
    ((∃ m ∈ batch, m.2.task.inst = life) → fault = false ∧
      ∃ s, failBatchTx (batch.map (·.2)) now σ.store = (.ok (), s))
  | _ => True

/-! ### Where the task is -/

/-- `k` failures that were all worth a retry. -/
structure Counted (limit : Int) (k : Nat) (failures : List TaskError) : Prop where
  length : failures.length = k
  retryable : ∀ e ∈ failures, e.retryable = true
  below : 0 < k → (k : Int) ≤ limit

/-- All failures have been retried. -/
structure Tally.Even (limit : Int) (k : Nat) (t : Tally) : Prop where
  counted : Counted limit k t.failures
  retried : t.retried = List.replicate k true

/-- The last failure has not been dealt with. -/
structure Tally.Due (limit : Int) (k : Nat) (e : TaskError) (t : Tally) : Prop where
  failures : ∃ before, Counted limit k before ∧ t.failures = before ++ [e]
  retried : t.retried = List.replicate k true

/-- The last failure has been given up. -/
structure Tally.Final (limit : Int) (k : Nat) (e : TaskError) (t : Tally) : Prop where
  failures : ∃ before, Counted limit k before ∧ t.failures = before ++ [e]
  retried : t.retried = List.replicate k true ++ [false]
  refused : ¬ (e.retryable = true ∧ (k : Int) < limit)

/-- What a history row says about the failures before it. -/
structure Written (limit : Int) (w : TaskHistoryRow × List TaskError) : Prop where
  count : w.1.status.withdrawn = false → w.1.retryCount = w.2.length
  deadLetter : w.1.status = .deadLetter → (∀ e ∈ w.2, e.retryable = true) ∧ w.2.length = limit.toNat + 1
  failed : w.1.status = .failed → ∃ e, w.2.getLast? = some e ∧ e.retryable = false

/-- The future has nothing more to do with the outcome. -/
def Future.idle (f : Future) : Bool :=
  match f.stage with
  | .sent | .ended | .panicked => true
  | .executing | .counting .. | .waiting _ | .retrying _ | .failing .. => false

/-- No future of the life, but for one, has anything to do. -/
def Futures.Clear (life : Nat) (except : Option Nat) (σ : Futures) : Prop :=
  ∀ n f, σ.futures[n]? = some f → f.task.inst = life → some n ≠ except → f.idle = true

/-- The failures of the life that are to be recorded. -/
def Futures.failuresOf (life : Nat) (σ : Futures) : List (Nat × FailureItem) :=
  (σ.failing.flatten ++ σ.failures).filter (·.2.task.inst == life)

/-- The completions of the life that are to be recorded. -/
def Futures.completionsOf (life : Nat) (σ : Futures) : List (Nat × TaskRecord × IoBudget) :=
  (σ.completing.flatten ++ σ.completions).filter (·.2.1.inst == life)

/-- The task runs, and its execution has been spawned. -/
structure Futures.Busy (life : Nat) (id : Int) (σ : Futures) : Prop where
  running : ∃ r ∈ σ.store.tasks, r.inst = life ∧ r.status = .running
  spawned : σ.owner id ≠ none

/-- Where the future stands, against the tally. -/
def Future.Stands (limit : Int) (k : Nat) (t : Tally) (f : Future) : Prop :=
  match f.stage with
  | .executing | .counting .. => t.Even limit k
  | .retrying e => t.Due limit k e ∧ e.retryable = true ∧ (k : Int) < limit
  | .failing e _ => t.Due limit k e
  | .waiting _ | .sent | .ended | .panicked => False

/-- Future `n` executes the task. -/
structure Futures.Held (life : Nat) (limit : Int) (id : Int) (k : Nat) (t : Tally) (n : Nat) (f : Future)
    (σ : Futures) :
    Prop where
  future : σ.futures[n]? = some f
  inst : f.task.inst = life
  clear : σ.Clear life (some n)
  failures : σ.failuresOf life = []
  completions : σ.completionsOf life = []
  busy : σ.Busy life id
  count : f.task.retryCount = k
  stands : f.Stands limit k t

/-- Where the execution of the task is. -/
inductive Futures.Place (life : Nat) (limit : Int) (id : Int) (k : Nat) (t : Tally) (σ : Futures) : Prop
  /-- nowhere -/
  | idle (clear : σ.Clear life none) (failures : σ.failuresOf life = []) (completions : σ.completionsOf life = [])
      (even : t.Even limit k)
  /-- in a future -/
  | held (n : Nat) (f : Future) (h : σ.Held life limit id k t n f)
  /-- on its way to `task_history`, as a failure -/
  | failed (n : Nat) (item : FailureItem) (e : TaskError) (clear : σ.Clear life none)
      (failures : σ.failuresOf life = [(n, item)]) (completions : σ.completionsOf life = []) (busy : σ.Busy life id)
      (task : item.task.id = id ∧ item.task.retryCount = k) (retryable : item.retryable = e.retryable)
      (final : t.Final limit k e)
  /-- on its way to `task_history`, as a success -/
  | completed (n : Nat) (task : TaskRecord) (metrics : IoBudget) (clear : σ.Clear life none)
      (failures : σ.failuresOf life = []) (completions : σ.completionsOf life = [(n, task, metrics)])
      (busy : σ.Busy life id) (count : task.retryCount = k) (even : t.Even limit k)
  /-- recorded as a failure -/
  | ended (e : TaskError) (clear : σ.Clear life none) (failures : σ.failuresOf life = [])
      (completions : σ.completionsOf life = []) (gone : ∀ r ∈ σ.store.tasks, r.inst ≠ life)
      (born : life < σ.store.nextInst) (final : t.Final limit k e)
      (recorded : ∃ w ∈ t.recorded, w.1.status = terminalStatus e.retryable ∧ w.2 = t.failures)

/-- The life is followed, with this quota. -/
structure Futures.Tracked (c : SpawnConfig) (life : Nat) (q : Quota) (σ : Futures) (t : Tally) : Prop where
  schema : σ.store.Schema
  rows : σ.store.Rows (TaskRow.QuotaIn life (· = q))
  futures : ∀ f ∈ σ.futures, f.task.inst = life → life < σ.store.nextInst ∧
    f.task.id = q.id ∧ f.task.maxRetries = q.maxRetries ∧ f.task.taskType = q.taskType
  written : ∀ w ∈ t.recorded, Written (c.limit q) w
  unborn : σ.store.nextInst ≤ life → q.retryCount = 0 ∧ ∀ w ∈ t.recorded, w.1.status.withdrawn = true
  place : σ.Place life (c.limit q) q.id q.retryCount t

/-! ### Tallies -/

section Tallies

variable {limit : Int} {k : Nat} {e : TaskError} {t : Tally} {before : List TaskError}

/-- What an entry of `retried` says, for the failures that have been retried. -/
private theorem retried_before (tail : List TaskError) (rest : List Bool) (hc : Counted limit k before)
    (hf : t.failures = before ++ tail) (hr : t.retried = List.replicate k true ++ rest) {j : Nat}
    {b : Bool} (hj : j < k) (hb : t.retried[j]? = some b) : ∃ e, t.failures[j]? = some e ∧
      (b = true ↔ e.retryable = true ∧ ((t.retried.take j).count true : Int) < limit) := by
  have hlen : j < before.length := by rw [hc.length]; exact hj
  refine ⟨before[j], ?_, ?_⟩
  · rw [hf, List.getElem?_append_left hlen, List.getElem?_eq_getElem hlen]
  · have hcount : (t.retried.take j).count true = j := by
      rw [hr, List.take_append_of_le_length (by simp; omega), List.take_replicate, List.count_replicate_self]
      omega
    have htrue : b = true := by
      rw [hr, List.getElem?_append_left (by simpa using hj), List.getElem?_replicate, if_pos hj] at hb
      exact (Option.some.inj hb).symm
    have hbelow := hc.below (by omega)
    rw [hcount]
    exact iff_of_true htrue ⟨hc.retryable _ (List.getElem_mem hlen), by omega⟩

private theorem retried_even (h : t.Even limit k) {j : Nat} {b : Bool} (hb : t.retried[j]? = some b) :
    ∃ e, t.failures[j]? = some e ∧
      (b = true ↔ e.retryable = true ∧ ((t.retried.take j).count true : Int) < limit) := by
  have hj : j < k := by simpa [h.retried] using (List.getElem?_eq_some_iff.1 hb).1
  exact retried_before [] [] h.counted (by simp) (by simp [h.retried]) hj hb

private theorem retried_due (h : t.Due limit k e) {j : Nat} {b : Bool} (hb : t.retried[j]? = some b) :
    ∃ e, t.failures[j]? = some e ∧
      (b = true ↔ e.retryable = true ∧ ((t.retried.take j).count true : Int) < limit) := by
  obtain ⟨before, hc, hf⟩ := h.failures
  have hj : j < k := by simpa [h.retried] using (List.getElem?_eq_some_iff.1 hb).1
  exact retried_before _ [] hc hf (by simp [h.retried]) hj hb

private theorem retried_final (h : t.Final limit k e) {j : Nat} {b : Bool} (hb : t.retried[j]? = some b) :
    ∃ e, t.failures[j]? = some e ∧
      (b = true ↔ e.retryable = true ∧ ((t.retried.take j).count true : Int) < limit) := by
  obtain ⟨before, hc, hf⟩ := h.failures
  by_cases hj : j < k
  · exact retried_before _ _ hc hf h.retried hj hb
  · -- the entry of the failure that has been given up
    have hlen : j < k + 1 := by simpa [h.retried] using (List.getElem?_eq_some_iff.1 hb).1
    obtain rfl : j = k := by omega
    have hfalse : b = false := by
      rw [h.retried, List.getElem?_append_right (by simp)] at hb
      simpa using hb.symm
    have hcount : (t.retried.take j).count true = j := by
      rw [h.retried, List.take_left' (by simp), List.count_replicate_self]
    refine ⟨e, ?_, ?_⟩
    · rw [hf, List.getElem?_append_right (by rw [hc.length]), hc.length]
      simp
    · rw [hcount, hfalse]
      exact iff_of_false nofun h.refused

/-- The failures of a task that is given up although all of them were retryable. -/
theorem Tally.Final.exhausted (h : t.Final limit k e) (he : e.retryable = true) :
    (∀ e ∈ t.failures, e.retryable = true) ∧ t.failures.length = limit.toNat + 1 := by
  obtain ⟨before, hc, hf⟩ := h.failures
  have hle : limit ≤ k := by
    by_contra hlt
    exact h.refused ⟨he, by omega⟩
  rw [hf]
  constructor
  · intro e' he'
    rcases List.mem_append.1 he' with he' | he'
    · exact hc.retryable e' he'
    · rw [List.mem_singleton.1 he']
      exact he
  · have hbelow := hc.below
    rw [List.length_append, hc.length, List.length_singleton]
    omega

private theorem getLast?_replicate_true {k : Nat} : (List.replicate k true).getLast? ≠ some false := by
  intro h
  have := List.eq_of_mem_replicate (List.mem_of_getLast? h)
  cases this

end Tallies

/-! ### The accounts of a life that is followed -/

section Exact

variable {c : SpawnConfig} {life : Nat} {q : Quota} {limit : Int} {id : Int} {k : Nat} {σ : Futures} {t : Tally}

/-- A future of the life that has something to do is the one that executes the task. -/
theorem Futures.Place.held_of (h : σ.Place life limit id k t) {n : Nat} {f : Future} (hf : σ.futures[n]? = some f)
    (hinst : f.task.inst = life) (hidle : f.idle = false) : σ.Held life limit id k t n f := by
  have hclear : σ.Clear life none → σ.Held life limit id k t n f := by
    intro hclear
    rw [hclear n f hf hinst nofun] at hidle
    cases hidle
  cases h with
  | idle clear => exact hclear clear
  | failed m item e clear => exact hclear clear
  | completed m task metrics clear => exact hclear clear
  | ended e clear => exact hclear clear
  | held m g h =>
    by_cases hm : n = m
    · subst hm
      rw [h.future] at hf
      cases hf
      exact h
    · rw [h.clear n f hf hinst (by simpa using hm)] at hidle
      cases hidle

theorem Futures.Tracked.row_quota (h : σ.Tracked c life q t) {r : TaskRow} (hr : r ∈ σ.store.tasks)
    (hinst : r.inst = life) :
    r.quota = q := h.rows r hr hinst

private theorem stage_of_executing {f : Future} (h : f.executing = true) : f.stage = .executing := by
  unfold Future.executing at h
  split at h
  · assumption
  · cases h

private theorem executing_not_idle {f : Future} (h : f.executing = true) : f.idle = false := by
  rw [Future.idle, stage_of_executing h]

/-- Nobody executes the task while all its futures are idle. -/
private theorem clear_not_executing (h : σ.Clear life none) :
    ∀ f ∈ σ.futures, f.task.inst = life → f.executing = false := by
  intro f hf hinst
  obtain ⟨n, hn⟩ := List.mem_iff_getElem?.1 hf
  have hidle := h n f hn hinst nofun
  cases hex : f.executing with
  | false => rfl
  | true =>
    rw [executing_not_idle hex] at hidle
    cases hidle

/-- The tally is one of three. -/
private theorem place_tally (h : σ.Place life limit id k t) :
    t.Even limit k ∨
      (∃ e, ∃ n : Nat, ∃ f : Future, t.Due limit k e ∧ σ.futures[n]? = some f ∧ f.task.inst = life ∧
        f.failure = some e) ∨
      ∃ e, t.Final limit k e ∧ σ.Clear life none ∧ ((∃ m ∈ σ.failing.flatten ++ σ.failures, m.2.task.inst = life) ∨
        ∃ w ∈ t.recorded, w.1.status = terminalStatus e.retryable ∧ w.2 = t.failures) := by
  cases h with
  | idle clear failures completions even => exact .inl even
  | completed n task metrics clear failures completions busy count even => exact .inl even
  | ended e clear failures completions gone born final recorded => exact .inr (.inr ⟨e, final, clear, .inr recorded⟩)
  | failed n item e clear failures completions busy task retryable final =>
    have hmem : (n, item) ∈ σ.failuresOf life := by rw [failures]; exact List.mem_singleton_self _
    rw [Futures.failuresOf, List.mem_filter, beq_iff_eq] at hmem
    exact .inr (.inr ⟨e, final, clear, .inl ⟨_, hmem⟩⟩)
  | held n f h =>
    have hstands := h.stands
    unfold Future.Stands at hstands
    cases hstage : f.stage with
    | executing =>
      rw [hstage] at hstands
      exact .inl hstands
    | counting memo metrics =>
      rw [hstage] at hstands
      exact .inl hstands
    | retrying e =>
      rw [hstage] at hstands
      exact .inr (.inl ⟨e, n, f, hstands.1, h.future, h.inst, by rw [Future.failure, hstage]⟩)
    | failing e metrics =>
      rw [hstage] at hstands
      exact .inr (.inl ⟨e, n, f, hstands, h.future, h.inst, by rw [Future.failure, hstage]⟩)
    | _ =>
      rw [hstage] at hstands
      exact hstands.elim

theorem Futures.Tracked.exact (h : σ.Tracked c life q t) : t.Exact c life (c.limit q) σ := by
  refine
    { row := ?_, record := ?_, agree := ?_, retried := ?_, due := ?_, last := ?_, exhausted := ?_, ended := ?_,
      history := fun w hw => (h.written w hw).count, deadLetter := fun w hw => (h.written w hw).deadLetter,
      failed := fun w hw => (h.written w hw).failed }
  · intro r hr hinst
    rw [← h.row_quota hr hinst]
    rfl
  · intro f hf hinst
    obtain ⟨_, _, hmax, htype⟩ := h.futures f hf hinst
    rw [SpawnConfig.effectiveMax_eq, SpawnConfig.limit, SpawnConfig.limit]
    simp only [TaskRow.quota]
    rw [hmax, htype]
  · intro f hf hinst hex
    obtain ⟨n, hn⟩ := List.mem_iff_getElem?.1 hf
    have hheld := h.place.held_of hn hinst (executing_not_idle hex)
    have heven : t.Even (c.limit q) q.retryCount := by
      have hstands := hheld.stands
      unfold Future.Stands at hstands
      rwa [stage_of_executing hex] at hstands
    obtain ⟨r, hr, hrinst, _⟩ := hheld.busy.running
    refine ⟨hheld.count.trans heven.counted.length.symm, r, hr, hrinst, ?_⟩
    rw [hheld.count, ← h.row_quota hr hrinst]
    rfl
  · intro j b hb
    rcases place_tally h.place with heven | ⟨e, _, _, hdue, _⟩ | ⟨e, hfinal, _⟩
    · exact retried_even heven hb
    · exact retried_due hdue hb
    · exact retried_final hfinal hb
  · intro hlt
    rcases place_tally h.place with heven | ⟨e, n, f, hdue, hf, hinst, hfail⟩ | ⟨e, hfinal, _⟩
    · rw [heven.retried, heven.counted.length, List.length_replicate] at hlt
      omega
    · obtain ⟨before, hc, hfs⟩ := hdue.failures
      refine ⟨by simp [hfs, hdue.retried, hc.length], f, List.mem_of_getElem? hf, hinst, ?_⟩
      rw [hfail, hfs, List.getLast?_concat]
    · obtain ⟨before, hc, hfs⟩ := hfinal.failures
      rw [hfs, hfinal.retried] at hlt
      simp [hc.length] at hlt
  · intro j hj
    rcases place_tally h.place with heven | ⟨e, _, _, hdue, _⟩ | ⟨e, hfinal, hclear, _⟩
    · rw [heven.retried, List.getElem?_replicate] at hj
      split at hj
      · cases hj
      · cases hj
    · rw [hdue.retried, List.getElem?_replicate] at hj
      split at hj
      · cases hj
      · cases hj
    · obtain ⟨before, hc, hfs⟩ := hfinal.failures
      refine ⟨?_, clear_not_executing hclear⟩
      rw [hfinal.retried] at hj
      by_cases hjk : j < q.retryCount
      · rw [List.getElem?_append_left (by simpa using hjk), List.getElem?_replicate, if_pos hjk] at hj
        cases hj
      · have hlen : j < q.retryCount + 1 := by simpa using (List.getElem?_eq_some_iff.1 hj).1
        simp [hfs, hc.length]
        omega
  · intro hall
    rcases place_tally h.place with heven | ⟨e, _, _, hdue, _⟩ | ⟨e, hfinal, _⟩
    · have hbelow := heven.counted.below
      refine ⟨by rw [heven.counted.length]; omega, fun hlast => ?_⟩
      rw [heven.retried] at hlast
      exact absurd hlast getLast?_replicate_true
    · obtain ⟨before, hc, hfs⟩ := hdue.failures
      have hbelow := hc.below
      refine ⟨by simp [hfs, hc.length]; omega, fun hlast => ?_⟩
      rw [hdue.retried] at hlast
      exact absurd hlast getLast?_replicate_true
    · obtain ⟨before, hc, hfs⟩ := hfinal.failures
      have he : e.retryable = true := hall e (by simp [hfs])
      have hlen := (hfinal.exhausted he).2
      exact ⟨Nat.le_of_eq hlen, fun _ => hlen⟩
  · intro e hlast he
    rcases place_tally h.place with heven | ⟨e', _, _, hdue, _⟩ | ⟨e', hfinal, _, hrest⟩
    · rw [heven.retried] at hlast
      exact absurd hlast getLast?_replicate_true
    · rw [hdue.retried] at hlast
      exact absurd hlast getLast?_replicate_true
    · obtain ⟨before, hc, hfs⟩ := hfinal.failures
      obtain rfl : e' = e := by simpa [hfs] using he
      exact hrest

end Exact

end Taskmill
