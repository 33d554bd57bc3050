import Taskmill.Expiry
import Taskmill.RecurringPause
import Taskmill.Tags

/-!
# How lives end

A task ends when its row is deleted, and a life of it ends as well when the row is reset by a requeue or superseded
in place.  Each of these operations writes a history row for the record it was given.  `Lives` is the store with the
lives whose history rows have been deleted since; in the runs whose steps end the lives they record and no others
(`Action.Accounts`), every life that has ended was recorded exactly once (`lives_recorded_once`).

The steps that do not: a record that is out of date, a list of children that is, a parent and a child that expire
together, the `delete` of a sibling that runs, and a `supersede` in a batch whose history row cannot be written.
-/

namespace Taskmill

open Transact

/-- The lives in the queue. -/
def Store.lives (s : Store) : List Nat := s.tasks.map (·.inst)

/-- The store, and the lives whose history rows were deleted. -/
structure Lives where
  store : Store
  pruned : List Nat

def Lives.step (sha256 : List UInt8 → String) (σ : Lives) (a : Action) : Lives where
  store := a.exec sha256 σ.store
  pruned := σ.pruned ++
    (σ.store.taskHistory.filter fun h => !(a.exec sha256 σ.store).taskHistory.contains h).map (·.inst)

def Lives.Start (σ : Lives) : Prop := σ.store.Fresh ∧ σ.pruned = []

/-- The lives that have been written to the history, as often as they were. -/
def Lives.recorded (σ : Lives) : List Nat := σ.pruned ++ σ.store.taskHistory.map (·.inst)

/-- Every life that was given out and is not in the queue is recorded once, and no life in the queue is. -/
structure Lives.Balanced (σ : Lives) : Prop where
  ended : ∀ life < σ.store.nextInst, life ∉ σ.store.lives → σ.recorded.count life = 1
  alive : ∀ life ∈ σ.store.lives, σ.recorded.count life = 0

/-- The step writes a history row for a life if and only if it ends it. -/
def Lives.Exact (sha256 : List UInt8 → String) (σ : Lives) (a : Action) : Prop :=
  ∀ life, (∃ h ∈ (a.exec sha256 σ.store).taskHistory, h ∉ σ.store.taskHistory ∧ h.inst = life) ↔
    (life ∈ σ.store.lives ∨ σ.store.nextInst ≤ life ∧ life < (a.exec sha256 σ.store).nextInst) ∧
      life ∉ (a.exec sha256 σ.store).lives

/-- The record is that of a task in the queue, in the same life. -/
def Store.HasLife (s : Store) (task : TaskRecord) : Prop := ∃ r ∈ s.tasks, r.id = task.id ∧ r.inst = task.inst

/-- The step ends the lives that it records, and no others. -/
def Action.Accounts (sha256 : List UInt8 → String) (s : Store) : Action → Prop
  -- a supersede whose history row fails is not undone in a batch
  | .processSubmitBatch skipRequeue batch =>
    Along (fun σ m => (submitOne sha256 m.1 skipRequeue m.2 σ).2)
      (fun σ m => m.1.onDuplicate = .supersede → ∀ r ∈ σ.tasks, r.key = m.1.effectiveKey sha256 →
        ¬ σ.LogFails false r.id)
      s batch
  | .completeWithRecord task .. | .cancelToHistoryWithRecord task _ => s.HasLife task
  | .completeBatch items _ => (items.map (·.1.id)).Nodup ∧ ∀ item ∈ items, s.HasLife item.1
  | .failWithRecord task _ retryable maxRetries .. => task.willRetry retryable maxRetries = false → s.HasLife task
  | .failBatch items _ => (items.map (·.task.id)).Nodup ∧ ∀ item ∈ items, s.HasLife item.task
  -- the children that were read are the ones that are deleted
  | .cancelChildren parent read _ =>
    read ≠ [] → (read.map (·.inst)).Perm ((s.cancellableChildren parent).map (·.inst))
  | .expireTasks now => s.ChildrenFirst now
  | .delete id => ∀ r ∈ s.tasks, r.id ≠ id
  | _ => True

/-! ### The lives that end -/

/-- The lives that end between `s` and `s'`, each once. -/
structure Store.Settles (ended : List Nat) (s s' : Store) : Prop where
  nodup : ended.Nodup
  mem : ∀ life, life ∈ ended ↔
    (life ∈ s.lives ∨ s.nextInst ≤ life ∧ life < s'.nextInst) ∧ life ∉ s'.lives
  old : ∀ life ∈ s'.lives, life ∈ s.lives ∨ s.nextInst ≤ life
  next : s.nextInst ≤ s'.nextInst

section Settles

variable {s s' s'' : Store} {ended ended' : List Nat}

theorem Store.Schema.lives_lt (h : s.Schema) {life : Nat} (hlife : life ∈ s.lives) : life < s.nextInst := by
  obtain ⟨r, hr, rfl⟩ := List.mem_map.1 hlife
  exact h.inst_lt r hr

theorem Store.Settles.trans (hs : s.Schema) (hs' : s'.Schema) (h : s.Settles ended s') (h' : s'.Settles ended' s'') :
    s.Settles (ended ++ ended') s'' := by
  have hle := h.next
  have hle' := h'.next
  constructor
  · refine List.nodup_append.2 ⟨h.nodup, h'.nodup, ?_⟩
    rintro life hlife _ hlife' rfl
    obtain ⟨hold, hgone⟩ := (h.mem life).1 hlife
    have hlt : life < s'.nextInst := by
      rcases hold with hold | hold
      · have := hs.lives_lt hold
        omega
      · exact hold.2
    rcases ((h'.mem life).1 hlife').1 with hthere | hnew
    · exact hgone hthere
    · omega
  · intro life
    rw [List.mem_append, h.mem, h'.mem]
    constructor
    · rintro (⟨hold, hgone⟩ | ⟨hold, hgone⟩)
      · have hlt : life < s'.nextInst := by
          rcases hold with hold | hold
          · have := hs.lives_lt hold
            omega
          · exact hold.2
        refine ⟨hold.imp_right fun hnew => ⟨hnew.1, by omega⟩, fun hback => ?_⟩
        rcases h'.old life hback with hthere | hnew
        · exact hgone hthere
        · omega
      · refine ⟨?_, hgone⟩
        rcases hold with hthere | hnew
        · have hlt := hs'.lives_lt hthere
          exact (h.old life hthere).imp_right fun hle => ⟨hle, by omega⟩
        · exact .inr ⟨by omega, hnew.2⟩
    · rintro ⟨hold, hgone⟩
      by_cases hthere : life ∈ s'.lives
      · exact .inr ⟨.inl hthere, hgone⟩
      · rcases hold with hold | hnew
        · exact .inl ⟨.inl hold, hthere⟩
        · by_cases hlt : life < s'.nextInst
          · exact .inl ⟨.inr ⟨hnew.1, hlt⟩, hthere⟩
          · exact .inr ⟨.inr ⟨by omega, hnew.2⟩, hgone⟩
  · intro life hlife
    rcases h'.old life hlife with hthere | hnew
    · exact h.old life hthere
    · exact .inr (by omega)
  · omega

theorem Store.Settles.perm (h : s.Settles ended s') (hp : ended.Perm ended') : s.Settles ended' s' :=
  ⟨hp.nodup_iff.1 h.nodup, fun life => hp.mem_iff.symm.trans (h.mem life), h.old, h.next⟩

/-- Only the lives matter, and which ones were given out. -/
theorem Store.Settles.congr {t t' : Store} (h : s.Settles ended s') (hlives : t.lives = s.lives)
    (hnext : t.nextInst = s.nextInst) (hlives' : t'.lives = s'.lives) (hnext' : t'.nextInst = s'.nextInst) :
    t.Settles ended t' := by
  refine ⟨h.nodup, ?_, ?_, ?_⟩
  · rw [hlives, hnext, hlives', hnext']
    exact h.mem
  · rw [hlives, hnext, hlives']
    exact h.old
  · rw [hnext, hnext']
    exact h.next

/-- No life ends, and none begins. -/
theorem Store.Settles.same (hlives : s'.lives = s.lives) (hnext : s'.nextInst = s.nextInst) : s.Settles [] s' := by
  refine ⟨List.nodup_nil, fun life => ?_, fun life hlife => ?_, Nat.le_of_eq hnext.symm⟩
  · rw [hlives, hnext]
    constructor
    · nofun
    · rintro ⟨hold | hnew, hgone⟩
      · exact absurd hold hgone
      · omega
  · rw [hlives] at hlife
    exact .inl hlife

theorem Store.Settles.refl (s : Store) : s.Settles [] s := .same rfl rfl

/-- A new row. -/
theorem Store.Settles.add (row : TaskRow) : s.Settles [] (s.addTask row) := by
  have hlives : (s.addTask row).lives = s.lives ++ [s.nextInst] := by
    unfold Store.lives
    rw [Store.addTask_tasks, List.map_append]
    rfl
  refine ⟨List.nodup_nil, fun life => ?_, fun life hlife => ?_, Nat.le_succ _⟩
  · rw [hlives, List.mem_append, List.mem_singleton, not_or, Store.addTask_nextInst]
    constructor
    · nofun
    · rintro ⟨hold | hnew, hgone, hne⟩
      · exact absurd hold hgone
      · omega
  · rw [hlives, List.mem_append, List.mem_singleton] at hlife
    exact hlife.imp_right fun heq => Nat.le_of_eq heq.symm

/-- Rows are deleted. -/
theorem Store.Settles.delete (hs : s.Schema) {p : TaskRow → Bool} (htasks : s'.tasks = s.tasks.filter fun r => !p r)
    (hnext : s'.nextInst = s.nextInst) : s.Settles ((s.tasks.filter p).map (·.inst)) s' := by
  have hmem : ∀ life, life ∈ s'.lives ↔ ∃ r ∈ s.tasks, p r = false ∧ r.inst = life := by
    intro life
    unfold Store.lives
    rw [htasks, List.mem_map]
    simp [and_assoc]
  refine ⟨hs.insts.sublist (List.filter_sublist.map _), fun life => ?_, fun life hlife => ?_, Nat.le_of_eq hnext.symm⟩
  · rw [List.mem_map, hmem]
    constructor
    · rintro ⟨r, hr, rfl⟩
      obtain ⟨hr, hp⟩ := List.mem_filter.1 hr
      refine ⟨.inl (List.mem_map_of_mem hr), ?_⟩
      rintro ⟨r', hr', hp', heq⟩
      rw [List.inj_on_of_nodup_map hs.insts hr' hr heq, hp] at hp'
      cases hp'
    · rintro ⟨hold | hnew, hgone⟩
      · obtain ⟨r, hr, rfl⟩ := List.mem_map.1 hold
        cases hp : p r with
        | true => exact ⟨r, List.mem_filter.2 ⟨hr, hp⟩, rfl⟩
        | false => exact absurd ⟨r, hr, hp, rfl⟩ hgone
      · omega
  · obtain ⟨r, hr, _, rfl⟩ := (hmem life).1 hlife
    exact .inl (List.mem_map_of_mem hr)

/-- A row gets a new life. -/
theorem Store.Settles.renew (hs : s.Schema) {r : TaskRow} (hr : r ∈ s.tasks) {f : TaskRow → TaskRow}
    (hf : (f r).inst = s.nextInst) (htasks : s'.tasks = s.tasks.map fun x => if x.id == r.id then f x else x)
    (hnext : s'.nextInst = s.nextInst + 1) : s.Settles [r.inst] s' := by
  have hmem : ∀ life, life ∈ s'.lives ↔ life = s.nextInst ∨ (life ∈ s.lives ∧ life ≠ r.inst) := by
    intro life
    unfold Store.lives
    rw [htasks, List.map_map, List.mem_map]
    constructor
    · rintro ⟨x, hx, rfl⟩
      by_cases hid : x.id = r.id
      · rw [hs.eq_of_id hx hr hid]
        left
        simp [hf]
      · right
        have hinst : x.inst ≠ r.inst := by
          intro heq
          exact hid (congrArg (·.id) (List.inj_on_of_nodup_map hs.insts hx hr heq))
        simpa [hid] using ⟨⟨x, hx, rfl⟩, hinst⟩
    · rintro (rfl | ⟨hold, hne⟩)
      · exact ⟨r, hr, by simp [hf]⟩
      · obtain ⟨x, hx, rfl⟩ := List.mem_map.1 hold
        have hid : x.id ≠ r.id := by
          intro heq
          exact hne (congrArg (·.inst) (hs.eq_of_id hx hr heq))
        exact ⟨x, hx, by simp [hid]⟩
  have hlt := hs.inst_lt r hr
  refine ⟨List.nodup_singleton _, fun life => ?_, fun life hlife => ?_, by omega⟩
  · rw [List.mem_singleton, hmem, hnext]
    constructor
    · rintro rfl
      refine ⟨.inl (List.mem_map_of_mem hr), ?_⟩
      rintro (heq | ⟨_, hne⟩)
      · omega
      · exact hne rfl
    · rintro ⟨hold | hnew, hgone⟩
      · by_contra hne
        exact hgone (.inr ⟨hold, hne⟩)
      · exact absurd (.inl (by omega)) hgone
  · rcases (hmem life).1 hlife with rfl | ⟨hold, _⟩
    · exact .inr (Nat.le_refl _)
    · exact .inl hold

theorem Store.lives_updateTasks (p : TaskRow → Bool) {f : TaskRow → TaskRow} (hf : ∀ r, (f r).inst = r.inst) :
    (s.updateTasks p f).lives = s.lives := by
  unfold Store.lives
  rw [Store.updateTasks_tasks, List.map_map]
  refine List.map_congr_left fun r _ => ?_
  by_cases hp : p r = true
  · simp [hp, hf]
  · simp [hp]

/-- An `UPDATE` that leaves the lives alone. -/
theorem Store.Settles.update (p : TaskRow → Bool) {f : TaskRow → TaskRow} (hf : ∀ r, (f r).inst = r.inst) :
    s.Settles [] (s.updateTasks p f) := .same (s.lives_updateTasks p hf) rfl

end Settles

/-! ### The history rows -/

/-- The history rows that are written are those of the lives that end. -/
def Store.Balances (s s' : Store) : Prop :=
  ∃ rows : List TaskHistoryRow, s'.taskHistory = s.taskHistory ++ rows ∧ s.Settles (rows.map (·.inst)) s'

/-- The settings of `maybe_prune`, and its counter. -/
def Store.retention (s : Store) : Option RetentionPolicy × Nat × Nat :=
  (s.retentionPolicy, s.pruneInterval, s.completionCount)

/-- No life ends or begins, and nothing is written to the history or removed from it. -/
structure Store.SameLives (s s' : Store) : Prop where
  lives : s'.lives = s.lives
  nextInst : s'.nextInst = s.nextInst
  history : s'.taskHistory = s.taskHistory
  retention : s'.retention = s.retention

section Balances

variable {s s' s'' : Store} {r : TaskRow}

theorem Store.SameLives.refl (s : Store) : s.SameLives s := ⟨rfl, rfl, rfl, rfl⟩

theorem Store.SameLives.trans (h : s.SameLives s') (h' : s'.SameLives s'') : s.SameLives s'' :=
  ⟨h'.lives.trans h.lives, h'.nextInst.trans h.nextInst, h'.history.trans h.history, h'.retention.trans h.retention⟩

theorem Store.SameLives.update (s : Store) (p : TaskRow → Bool) {f : TaskRow → TaskRow}
    (hf : ∀ r, (f r).inst = r.inst) :
    s.SameLives (s.updateTasks p f) := ⟨s.lives_updateTasks p hf, rfl, rfl, rfl⟩

theorem Store.SameLives.balances (h : s.SameLives s') : s.Balances s' := by
  refine ⟨[], ?_, .same h.lives h.nextInst⟩
  rw [h.history, List.append_nil]

theorem Store.Balances.trans (hs : s.Schema) (hs' : s'.Schema) (h : s.Balances s') (h' : s'.Balances s'') :
    s.Balances s'' := by
  obtain ⟨rows, hhist, hsettles⟩ := h
  obtain ⟨rows', hhist', hsettles'⟩ := h'
  refine ⟨rows ++ rows', ?_, ?_⟩
  · rw [hhist', hhist, List.append_assoc]
  · rw [List.map_append]
    exact hsettles.trans hs hs' hsettles'

theorem Store.Balances.then_sameLives (hs : s.Schema) (hs' : s'.Schema) (h : s.Balances s')
    (h' : s'.SameLives s'') : s.Balances s'' :=
  h.trans hs hs' h'.balances

/-- A transaction that fails ends no life. -/
theorem balances_transaction {α : Type} {x : Sql α} (hx : ∀ a s', x s = (.ok a, s') → s.Balances s') :
    s.Balances (transaction x s).2 := by
  rcases h : transaction x s with ⟨e | a, s'⟩
  · obtain ⟨s₁, _, rfl⟩ := transaction_error h
    exact Store.SameLives.balances ⟨rfl, rfl, rfl, rfl⟩
  · exact hx a s' (transaction_ok h)

theorem sameLives_transaction {α : Type} {x : Sql α} (hx : ∀ a s', x s = (.ok a, s') → s.SameLives s') :
    s.SameLives (transaction x s).2 := by
  rcases h : transaction x s with ⟨e | a, s'⟩
  · obtain ⟨s₁, _, rfl⟩ := transaction_error h
    exact ⟨rfl, rfl, rfl, rfl⟩
  · exact hx a s' (transaction_ok h)

theorem Store.Schema.filter_id (hs : s.Schema) (hr : r ∈ s.tasks) : (s.tasks.filter fun x => x.id == r.id) = [r] := by
  have hnodup : (s.tasks.filter fun x => x.id == r.id).Nodup := (List.Nodup.of_map _ hs.ids).filter _
  refine List.perm_singleton.1 ((List.perm_ext_iff_of_nodup hnodup (List.nodup_singleton r)).2 fun x => ?_)
  rw [List.mem_filter, List.mem_singleton, beq_iff_eq]
  constructor
  · exact fun h => hs.eq_of_id h.1 hr h.2
  · rintro rfl
    exact ⟨hr, rfl⟩

/-- One row is deleted. -/
theorem Store.Settles.remove (hs : s.Schema) (hr : r ∈ s.tasks)
    (htasks : s'.tasks = s.tasks.filter fun x => !(x.id == r.id)) (hnext : s'.nextInst = s.nextInst) :
    s.Settles [r.inst] s' := by
  have h : s.Settles ((s.tasks.filter fun x => x.id == r.id).map (·.inst)) s' := .delete hs htasks hnext
  rw [hs.filter_id hr] at h
  exact h

theorem Store.Schema.insertHistory {task : TaskRecord} {status : HistoryStatus} {metrics : IoBudget}
    {durationMs : Option Int} {lastError : Option String} {skipTags : Bool} {now : Int}
    {result : Except StoreError Unit} (hs : s.Schema)
    (h : Taskmill.insertHistory task status metrics durationMs lastError skipTags now s = (result, s')) :
    s'.Schema := by
  obtain ⟨tags, rfl⟩ := insertHistory_leaves h
  exact hs.stmt (b := false) (.history s _ tags)

/-- A row is recorded, and its life ends. -/
theorem Store.Balances.record {task : TaskRecord} {status : HistoryStatus} {metrics : IoBudget}
    {durationMs : Option Int} {lastError : Option String} {skipTags : Bool} {now : Int}
    {result : Except StoreError Unit}
    (h : insertHistory task status metrics durationMs lastError skipTags now s = (result, s'))
    (hhist : s''.taskHistory = s'.taskHistory) (hsettles : s.Settles [task.inst] s'') : s.Balances s'' := by
  obtain ⟨tags, rfl⟩ := insertHistory_leaves h
  exact ⟨[_], hhist, hsettles⟩

/-- It is recorded and deleted. -/
theorem Store.Balances.remove {task : TaskRecord} {status : HistoryStatus} {metrics : IoBudget}
    {durationMs : Option Int} {lastError : Option String} {skipTags : Bool} {now : Int}
    {result : Except StoreError Unit} (hs : s.Schema) (hlife : s.HasLife task)
    (h : insertHistory task status metrics durationMs lastError skipTags now s = (result, s'))
    (htasks : s''.tasks = s'.tasks.filter fun x => !(x.id == task.id)) (hnext : s''.nextInst = s'.nextInst)
    (hhist : s''.taskHistory = s'.taskHistory) : s.Balances s'' := by
  refine .record h hhist ?_
  obtain ⟨r, hr, hid, hinst⟩ := hlife
  obtain ⟨tags, rfl⟩ := insertHistory_leaves h
  rw [← hinst]
  rw [← hid] at htasks
  exact .remove hs hr htasks hnext

theorem hasLife_row (hr : r ∈ s.tasks) {task : TaskRecord} (h : task.toTaskRow = r) : s.HasLife task := by
  subst h
  exact ⟨task.toTaskRow, hr, rfl, rfl⟩

theorem hasLife_taskById {id : Int} (h : s.taskById id = some r) : s.HasLife (rowToTaskRecord r) :=
  hasLife_row (List.mem_of_find?_eq_some h) rfl

end Balances

/-! ### Cancellation, failure and expiry -/

section Removal

variable {s s' : Store} {now : Int} {task : TaskRecord}

private theorem cancelInner_balances {u : Unit} (hs : s.Schema) (hlife : s.HasLife task)
    (h : cancelInner task now s = (.ok u, s')) :
    s.Balances s' := by
  obtain ⟨_, s₁, h₁, h⟩ := Txn.bind_ok h
  cases h
  exact .remove hs hlife h₁ rfl rfl rfl

private theorem failInner_balances {error : String} {retryable : Bool} {maxRetries : Int} {metrics : IoBudget}
    {backoff : FailBackoff} {u : Unit} (hs : s.Schema)
    (hlife : task.willRetry retryable maxRetries = false → s.HasLife task)
    (h : failInner task error retryable maxRetries metrics backoff now s = (.ok u, s')) : s.Balances s' := by
  rw [failInner] at h
  by_cases hretry : task.willRetry retryable maxRetries = true
  · rw [if_pos hretry] at h
    cases h
    have hsame : s.SameLives (s.requeueForRetry task.id error (backoff.delay task.retryCount) now) :=
      .update s _ fun _ => rfl
    exact hsame.balances
  · rw [if_neg hretry] at h
    obtain ⟨_, s₁, h₁, h⟩ := Txn.bind_ok h
    cases h
    exact .remove hs (hlife (by simpa using hretry)) h₁ rfl rfl rfl

private theorem expireRow_balances {row : TaskRow} (hs : s.Schema) (hrow : row ∈ s.tasks)
    (h : expireRow row now s = (.ok task, s')) : s.Balances s' := by
  obtain ⟨s₀, _, h₀, h⟩ := Txn.bind_ok h
  cases h₀
  obtain ⟨_, s₂, h₁, h⟩ := Txn.bind_ok h
  obtain ⟨_, s₃, h₂, h⟩ := Txn.bind_ok h
  cases h
  cases h₂
  have hlife : s.HasLife { row with tags := s.tagsOf row.id } := hasLife_row hrow rfl
  exact .remove hs hlife h₁ rfl rfl rfl

/-- The sweep, if no selected row comes after its parent. -/
private theorem expireTasksTx_balances {expired : List TaskRecord} (hs : s.Schema) (hfirst : s.ChildrenFirst now)
    (h : expireTasksTx now s = (.ok expired, s')) (hnext : s'.nextInst = s.nextInst) : s.Balances s' := by
  obtain ⟨hrows, logged, hlogged, hexpires⟩ := expireTasksTx_ok h
  have hreported : (expired.map (·.toTaskRow)).Perm (s.tasks.filter (s.swept now)) := by
    rw [hrows]
    exact ChildrenFirst.reported hs hfirst
  rw [← hrows] at hlogged
  have hswept : s.SweptOnce now expired s' := SweptOnce.of_reported hs hreported hlogged hexpires
  obtain ⟨entries, hhist, hperm⟩ := hswept.logged
  refine ⟨entries, hhist, ?_⟩
  have hinsts : (entries.map (·.inst)).Perm ((s.tasks.filter (s.swept now)).map (·.inst)) := by
    have hmap := hperm.map (·.inst)
    rw [List.map_map, List.map_map] at hmap
    exact hmap
  exact (Store.Settles.delete hs hswept.tasks hnext).perm hinsts.symm

private theorem dependencyFail_balances {failedTaskId : Int} {row : TaskRow} {u : Unit} (hs : s.Schema)
    (hrow : row ∈ s.tasks) (h : dependencyFail failedTaskId row now s = (.ok u, s')) : s'.Schema ∧ s.Balances s' := by
  obtain ⟨_, s₁, h₁, h⟩ := Txn.bind_ok h
  cases h
  refine ⟨?_, .remove hs (hasLife_row hrow rfl) h₁ rfl rfl rfl⟩
  have hedges := (hs.insertHistory h₁).stmt (b := false) (.deleteEdges _ fun e => !(e.1 == row.id))
  exact (hedges.stmt (b := false) (.tags _ _)).stmt (b := false) (.delete _ _)

/-- What a transaction that started in `s₀` has come to. -/
private structure Store.Accounted (s₀ s : Store) : Prop where
  schema : s.Schema
  balances : s₀.Balances s

private theorem Store.Accounted.sameLives {s₀ : Store} (hs₀ : s₀.Schema) (h : s₀.Accounted s)
    (hsame : s.SameLives s') (hs' : s'.Schema) :
    s₀.Accounted s' := ⟨hs', h.balances.then_sameLives hs₀ h.schema hsame⟩

theorem deleteEdgesTo_sameLives {id : Int} {ids : List Int} (h : deleteEdgesTo id s = (.ok ids, s')) :
    s.SameLives s' ∧ Steps false s s' := by
  cases h
  exact ⟨⟨rfl, rfl, rfl, rfl⟩, (Stmt.deleteEdges s fun e => !(e.2 == id)).steps⟩

private theorem pauseUnblocked_sameLives (s : Store) (ids : List Int) (now : Int) :
    s.SameLives (s.pauseUnblocked ids now) :=
  .update s _ fun _ => rfl

theorem releaseDependent_sameLives {id : Int} {ids : List Int} (h : releaseDependent id now s = (.ok ids, s')) :
    s.SameLives s' := by
  rw [releaseDependent] at h
  split at h
  · cases h
    exact .refl s
  · split at h
    · cases h
      have hfree : s.SameLives (s.updateTasks (fun r => r.id == id && r.status == .blocked) fun r =>
          { r with status := .pending }) :=
        .update s _ fun _ => rfl
      exact hfree.trans (pauseUnblocked_sameLives _ _ now)
    · cases h
      exact .refl s

/-- The cascade to the dependents reads every row before it records and deletes it. -/
private theorem failDependentsInner_accounted {s₀ : Store} (hs₀ : s₀.Schema) (fuel : Nat) (id : Int) :
    Txn.Ensures s₀.Accounted (failDependentsInner now fuel id) fun _ => s₀.Accounted := by
  induction fuel generalizing id with
  | zero => exact .pure fun s hs => hs
  | succ fuel ih =>
    have hone (depId : Int) : Txn.Ensures s₀.Accounted (failDependent (failDependentsInner now fuel) id depId now)
        fun _ => s₀.Accounted := by
      intro s hs result s' h
      cases hrow : s.taskById depId with
      | none =>
        rw [failDependent_gone hrow] at h
        cases h
        exact hs
      | some row =>
        by_cases hpolicy : row.onDepFailure = .ignore
        · rw [failDependent_releases hrow hpolicy] at h
          obtain ⟨unblocked, s₁, h₁, h⟩ := Txn.bind_ok h
          cases h
          have hsteps : Steps false s (releaseDependent depId now s).2 := steps_releaseDependent s
          rw [h₁] at hsteps
          exact hs.sameLives hs₀ (releaseDependent_sameLives h₁) (hs.schema.steps hsteps)
        · rw [failDependent_removes hrow hpolicy] at h
          obtain ⟨u, s₁, h₁, h⟩ := Txn.bind_ok h
          obtain ⟨sub, s₂, h₂, h⟩ := Txn.bind_ok h
          cases h
          obtain ⟨hschema, hbalances⟩ := dependencyFail_balances hs.schema (List.mem_of_find?_eq_some hrow) h₁
          have hremoved : s₀.Accounted s₁ := ⟨hschema, hs.balances.trans hs₀ hs.schema hbalances⟩
          exact ih depId _ hremoved _ _ h₂
    refine Txn.Ensures.bind (Q := fun _ => s₀.Accounted) (fun s hs ids s' h => ?_) fun dependents => ?_
    · obtain ⟨hsame, hsteps⟩ := deleteEdgesTo_sameLives h
      exact hs.sameLives hs₀ hsame (hs.schema.steps hsteps)
    · exact (Txn.Ensures.mapList fun depId _ => hone depId).bind fun _ => .pure fun s hs => hs

end Removal

/-! ### Completion -/

section Completion

variable {s s' : Store} {r : TaskRow} {now : Int} {skipTags : Bool}

private theorem resetRequeued_settles (hs : s.Schema) (hr : r ∈ s.tasks) :
    s.Settles [r.inst] (s.resetRequeued r.id) := by
  have hmem : s.ids.contains r.id = true := List.contains_iff_mem.2 (List.mem_map_of_mem hr)
  refine .renew hs hr (f := TaskRow.resetRequeued s.nextInst) rfl rfl ?_
  show (if s.ids.contains r.id then s.nextInst + 1 else s.nextInst) = s.nextInst + 1
  rw [if_pos hmem]

/-- The completed row is deleted, or reset if it is to be requeued. -/
private theorem finishRow_settles (hs : s.Schema) (hr : r ∈ s.tasks) :
    s.Settles [r.inst] (s.finishRow skipTags r.id) := by
  rw [Store.finishRow]
  cases hreq : r.requeue with
  | true =>
    rw [if_neg (by rw [not_deletable hs hr hreq]; rintro ⟨⟩)]
    exact resetRequeued_settles hs hr
  | false =>
    have hdel : s.deletable r.id = true := List.any_eq_true.2 ⟨r, hr, by simp [hreq]⟩
    have hone : (s.tasks.filter fun x => x.id == r.id && !x.requeue) = [r] := by
      have hsame : (s.tasks.filter fun x => x.id == r.id && !x.requeue) =
          (s.tasks.filter fun x => x.id == r.id).filter fun x => !x.requeue := by
        rw [List.filter_filter]
        exact List.filter_congr fun x _ => Bool.and_comm _ _
      rw [hsame, hs.filter_id hr]
      simp [hreq]
    have hdelete : ∀ t : Store, t.tasks = (s.deleteTasks fun x => x.id == r.id && !x.requeue).tasks →
      t.nextInst = s.nextInst →
        s.Settles [r.inst] t := by
      intro t htasks hnext
      have h : s.Settles ((s.tasks.filter fun x => x.id == r.id && !x.requeue).map (·.inst)) t :=
        .delete hs htasks hnext
      rw [hone] at h
      exact h
    rw [if_pos hdel]
    split
    · exact hdelete _ rfl rfl
    · exact hdelete _ rfl rfl

private theorem finishRow_schema (hs : s.Schema) (id : Int) : (s.finishRow skipTags id).Schema := by
  rw [Store.finishRow]
  split
  · have hdelete : (s.deleteTasks fun r => r.id == id && !r.requeue).Schema := hs.stmt (b := false) (.delete s _)
    split
    · exact hdelete
    · exact hdelete.stmt (b := false) (.tags _ _)
  · exact hs.steps (b := false) (steps_resetRequeued s id)

theorem pauseInstance_sameLives (s : Store) (id : Int) (group : Option String) (now : Int) :
    s.SameLives (s.pauseInstance id group now) := by
  rw [Store.pauseInstance]
  split
  · exact .update s _ fun _ => rfl
  · exact .refl s

/-- The completion of a task in the queue. -/
private theorem completeInner_balances {task : TaskRecord} {metrics : IoBudget} {result : Option (Int × Int)}
    (hs : s.Schema) (hlife : s.HasLife task) (h : completeInner task metrics skipTags now s = (.ok result, s')) :
    s.Balances s' := by
  refine ⟨[_], completeInner_history h, ?_⟩
  show s.Settles [task.inst] s'
  obtain ⟨r, hr, hid, hinst⟩ := hlife
  have hlog : (s.logCompleted skipTags now (task, metrics)).Schema := hs.stmt (b := false) (.history s _ _)
  have hrow : (s.logCompleted skipTags now (task, metrics)).Settles [r.inst]
      (s.completeRow skipTags now (task, metrics)) := by
    rw [Store.completeRow]
    show (s.logCompleted skipTags now (task, metrics)).Settles _ (Store.finishRow _ skipTags task.id)
    rw [← hid]
    exact finishRow_settles hlog hr
  -- the history row makes no difference to the lives
  have hsame : s.Settles [task.inst] (s.completeRow skipTags now (task, metrics)) := by
    rw [← hinst]
    exact hrow.congr rfl rfl rfl rfl
  rcases completeInner_cases h with rfl | ⟨interval, _, hkey, rfl⟩
  · exact hsame
  · have hfinish : (s.completeRow skipTags now (task, metrics)).Schema := finishRow_schema hlog task.id
    generalize s.completeRow skipTags now (task, metrics) = s₁ at hsame hkey hfinish
    have hadd : (s₁.addTask (task.nextInstance interval now)).Schema := hfinish.stmt (b := false) (.add s₁ _ hkey rfl)
    have htags : (s₁.addInstance task (s.tagsOf task.id) interval now).Schema := hadd.stmt (b := false) (.tags _ _)
    have hnew : s₁.Settles [] (s₁.addInstance task (s.tagsOf task.id) interval now) :=
      (Store.Settles.add (s := s₁) (task.nextInstance interval now)).congr rfl rfl rfl rfl
    have hpause := pauseInstance_sameLives (s₁.addInstance task (s.tagsOf task.id) interval now) s₁.nextTaskId
      task.groupKey now
    exact (hsame.trans hs hfinish hnew).trans hs htags (.same hpause.lives hpause.nextInst)

theorem release_sameLives (s : Store) (ids : List Int) (now : Int) : s.SameLives (s.release ids now) := by
  refine ⟨?_, rfl, rfl, rfl⟩
  unfold Store.lives
  rw [Store.release_tasks, List.map_map]
  refine List.map_congr_left fun r _ => ?_
  by_cases hf : s.frees ids r = true
  · simp [hf, Store.freeRow_inst]
  · simp [hf]

private theorem completeAndResolve_balances {item : TaskRecord × IoBudget}
    {result : Int × Option (Int × Int) × List Int} (hs : s.Schema) (hlife : s.HasLife item.1)
    (h : completeAndResolve skipTags now item s = (.ok result, s')) : s.Balances s' := by
  obtain ⟨recurring, s₁, h₁, h⟩ := Txn.bind_ok h
  have hsteps : Steps false s (completeInner item.1 item.2 skipTags now s).2 := steps_completeInner s
  rw [h₁] at hsteps
  have hs₁ : s₁.Schema := hs.steps hsteps
  obtain ⟨unblocked, s₂, h₂, h⟩ := Txn.bind_ok h
  rw [resolveDependentsInner_apply hs₁.ids] at h₂
  cases h₂
  cases h
  exact (completeInner_balances hs hlife h₁).then_sameLives hs hs₁ (release_sameLives s₁ _ now)

/-- A batch that goes task by task. -/
private theorem mapList_balances (items : List (TaskRecord × IoBudget)) {s : Store}
    {results : List (Int × Option (Int × Int) × List Int)} (hs : s.Schema) (hnodup : (items.map (·.1.id)).Nodup)
    (hlife : ∀ item ∈ items, s.HasLife item.1)
    (h : Txn.mapList (completeAndResolve skipTags now) items s = (.ok results, s')) : s.Balances s' := by
  induction items generalizing s results with
  | nil =>
    cases h
    exact (Store.SameLives.refl _).balances
  | cons item items ih =>
    obtain ⟨result, s₁, h₁, h⟩ := Txn.bind_ok h
    obtain ⟨results, s₂, h₂, h⟩ := Txn.bind_ok h
    cases h
    rw [List.map_cons, List.nodup_cons] at hnodup
    have hsteps : Steps false s (completeAndResolve skipTags now item s).2 := steps_completeAndResolve item s
    rw [h₁] at hsteps
    have hfirst : s.Balances s₁ := completeAndResolve_balances hs (hlife item List.mem_cons_self) h₁
    refine hfirst.trans hs (hs.steps hsteps) (ih (hs.steps hsteps) hnodup.2 (fun later hlater => ?_) h₂)
    -- the tasks to come are still in the queue
    obtain ⟨r, hr, hid, hinst⟩ := hlife later (List.mem_cons_of_mem _ hlater)
    have hne : r.id ≠ item.1.id := by
      rw [hid]
      intro heq
      exact hnodup.1 (List.mem_map.2 ⟨later, hlater, heq⟩)
    obtain ⟨r', hr', hid', _, _, hinst'⟩ := completeAndResolve_kept hs hr hne h₁
    exact ⟨r', hr', hid'.trans hid, hinst'.trans hinst⟩

/-- The rows of the records. -/
private theorem exists_rows (tasks : List TaskRecord) (hlife : ∀ task ∈ tasks, s.HasLife task) :
    ∃ rows : List TaskRow, rows.map (·.id) = tasks.map (·.id) ∧ rows.map (·.inst) = tasks.map (·.inst) ∧
      ∀ r ∈ rows, r ∈ s.tasks := by
  induction tasks with
  | nil => exact ⟨[], rfl, rfl, fun _ hr => absurd hr List.not_mem_nil⟩
  | cons task tasks ih =>
    obtain ⟨r, hr, hid, hinst⟩ := hlife task List.mem_cons_self
    obtain ⟨rows, hids, hinsts, hrows⟩ := ih fun later hlater => hlife later (List.mem_cons_of_mem _ hlater)
    refine ⟨r :: rows, ?_, ?_, ?_⟩
    · rw [List.map_cons, List.map_cons, hid, hids]
    · rw [List.map_cons, List.map_cons, hinst, hinsts]
    · rw [List.forall_mem_cons]
      exact ⟨hr, hrows⟩

/-- The rows with given ids. -/
private theorem filter_rows (hs : s.Schema) {rows : List TaskRow} (hnodup : (rows.map (·.id)).Nodup)
    (hrows : ∀ r ∈ rows, r ∈ s.tasks) (p : TaskRow → Bool) :
    (s.tasks.filter fun r => (rows.map (·.id)).contains r.id && p r).Perm (rows.filter p) := by
  refine (List.perm_ext_iff_of_nodup ((List.Nodup.of_map _ hs.ids).filter _)
    ((List.Nodup.of_map _ hnodup).filter _)).2 fun r => ?_
  rw [List.mem_filter, List.mem_filter, Bool.and_eq_true, List.contains_iff_mem]
  constructor
  · rintro ⟨hr, hid, hp⟩
    obtain ⟨r', hr', heq⟩ := List.mem_map.1 hid
    rw [hs.eq_of_id (hrows r' hr') hr heq] at hr'
    exact ⟨hr', hp⟩
  · rintro ⟨hr, hp⟩
    exact ⟨hrows r hr, List.mem_map_of_mem hr, hp⟩

/-- The ids of the rows that are not deleted. -/
private theorem filter_kept (hs : s.Schema) {rows : List TaskRow} (hrows : ∀ r ∈ rows, r ∈ s.tasks) :
    ((rows.map (·.id)).filter fun id =>
      !((s.tasks.filter fun r => (rows.map (·.id)).contains r.id && !r.requeue).map (·.id)).contains id) =
      (rows.filter fun r => r.requeue).map (·.id) := by
  rw [List.filter_map]
  refine congrArg _ (List.filter_congr fun r hr => ?_)
  rw [Function.comp_apply, Bool.eq_iff_iff, Bool.not_eq_true', ← Bool.not_eq_true,
    List.contains_iff_mem, List.mem_map]
  constructor
  · intro hnot
    by_contra hreq
    refine hnot ⟨r, List.mem_filter.2 ⟨hrows r hr, ?_⟩, rfl⟩
    rw [List.contains_iff_mem.2 (List.mem_map_of_mem hr)]
    simpa using hreq
  · rintro hreq ⟨r', hr', heq⟩
    obtain ⟨hr', hsel⟩ := List.mem_filter.1 hr'
    rw [hs.eq_of_id hr' (hrows r hr) heq, hreq] at hsel
    simp at hsel

/-- Rows that are reset one after the other. -/
private theorem resets_settle (rows : List TaskRow) {s : Store} (hs : s.Schema) (hnodup : (rows.map (·.id)).Nodup)
    (hrows : ∀ r ∈ rows, r ∈ s.tasks) :
    s.Settles (rows.map (·.inst)) ((rows.map (·.id)).foldl Store.resetRequeued s) := by
  induction rows generalizing s with
  | nil => exact .refl s
  | cons r rows ih =>
    rw [List.map_cons, List.nodup_cons] at hnodup
    have hreset : (s.resetRequeued r.id).Schema := hs.steps (b := false) (steps_resetRequeued s r.id)
    have hrest : ∀ x ∈ rows, x ∈ (s.resetRequeued r.id).tasks := by
      intro x hx
      refine mem_resetRequeued_of_ne (hrows x (List.mem_cons_of_mem _ hx)) fun heq => hnodup.1 ?_
      rw [← heq]
      exact List.mem_map_of_mem hx
    have hfirst : s.Settles [r.inst] (s.resetRequeued r.id) := resetRequeued_settles hs (hrows r List.mem_cons_self)
    exact hfirst.trans hs hreset (ih hreset hnodup.2 hrest)

/-- The history rows of several records. -/
private theorem map_inst_of_forall₂ {α : Type} {task : α → TaskRecord} {xs : List α} {rows : List TaskHistoryRow}
    (h : List.Forall₂ (fun x row => row.inst = (task x).inst) xs rows) : rows.map (·.inst) = xs.map fun x =>
      (task x).inst := by
  induction h with
  | nil => rfl
  | cons hrow _ ih => rw [List.map_cons, List.map_cons, hrow, ih]

/-- The batched path. -/
private theorem completeBatchFast_balances {items : List (TaskRecord × IoBudget)} {unblocked : List Int}
    (hs : s.Schema) (hnodup : (items.map (·.1.id)).Nodup) (hlife : ∀ item ∈ items, s.HasLife item.1)
    (h : completeBatchFast skipTags now items s = (.ok unblocked, s')) : s.Balances s' := by
  obtain ⟨rows, hids, hinsts, hrows⟩ := exists_rows (items.map (·.1)) (s := s) (by simpa using hlife)
  rw [List.map_map] at hids hinsts
  have hids : items.map (·.1.id) = rows.map (·.id) := hids.symm
  have hinsts : items.map (·.1.inst) = rows.map (·.inst) := hinsts.symm
  rw [hids] at hnodup
  obtain ⟨_, s₁, h₁, h⟩ := Txn.bind_ok h
  obtain ⟨logged, htags, rfl, hlogged⟩ := mapList_log
    (R := fun (item : TaskRecord × IoBudget) row => row.inst = item.1.inst) (fun item t u t' ht => by
      obtain ⟨tags, he⟩ := insertHistory_leaves ht
      exact ⟨_, tags, he, rfl⟩) h₁
  have hlog : (s.logAll logged htags).Schema := hs.stmt (b := false) (.history s _ _)
  have hlogRows : ∀ r ∈ rows, r ∈ (s.logAll logged htags).tasks := hrows
  have hhist : (s.logAll logged htags).taskHistory = s.taskHistory ++ logged := rfl
  have hlives : (s.logAll logged htags).lives = s.lives := rfl
  have hnext : (s.logAll logged htags).nextInst = s.nextInst := rfl
  generalize s.logAll logged htags = s₁ at hlog hlogRows hhist hlives hnext h
  -- the rows that are not to be requeued are deleted
  obtain ⟨deleted, s₂, h₂, h⟩ := Txn.bind_ok h
  obtain ⟨hdeleted, rfl⟩ := Prod.mk.inj h₂
  obtain rfl := Except.ok.inj hdeleted
  rw [hids] at h
  have hperm := filter_rows hlog hnodup hlogRows fun r => !r.requeue
  have hdelete : s₁.Settles ((s₁.tasks.filter fun r => (rows.map (·.id)).contains r.id && !r.requeue).map (·.inst))
      (s₁.deleteTasks fun r => (rows.map (·.id)).contains r.id && !r.requeue) := .delete hlog rfl rfl
  have hs₂ : (s₁.deleteTasks fun r => (rows.map (·.id)).contains r.id && !r.requeue).Schema :=
    hlog.stmt (b := false) (.delete s₁ _)
  -- and the others are reset
  obtain ⟨_, s₃, h₃, h⟩ := Txn.bind_ok h
  have hkept : ∀ r ∈ rows.filter fun r => r.requeue,
      r ∈ (s₁.deleteTasks fun r => (rows.map (·.id)).contains r.id && !r.requeue).tasks := by
    intro r hr
    obtain ⟨hr, hreq⟩ := List.mem_filter.1 hr
    exact List.mem_filter.2 ⟨hlogRows r hr, by simp [hreq]⟩
  have heq : s₃ = ((rows.filter fun r => r.requeue).map (·.id)).foldl Store.resetRequeued
      (s₁.deleteTasks fun r => (rows.map (·.id)).contains r.id && !r.requeue) := by
    rw [← filter_kept hlog hlogRows]
    exact (Prod.mk.inj h₃).2.symm
  have hresets := resets_settle (rows.filter fun r => r.requeue) hs₂
    (hnodup.sublist (List.filter_sublist.map _)) hkept
  rw [← heq] at hresets
  have hs₃ : s₃.Schema := by
    rw [heq]
    exact hs₂.steps (steps_foldl_resetRequeued (b := false) _ _)
  have hboth := hdelete.trans hlog hs₂ hresets
  have hhist₃ : s₃.taskHistory = s₁.taskHistory := by
    rw [heq]
    exact taskHistory_foldl_resetRequeued _ _
  obtain ⟨_, s₄, h₄, h⟩ := Txn.bind_ok h
  have hsame : s₃.SameLives s₄ ∧ s₄.Schema := by
    obtain rfl := (Prod.mk.inj h₄).2
    split
    · exact ⟨.refl _, hs₃⟩
    · exact ⟨⟨rfl, rfl, rfl, rfl⟩, hs₃.stmt (b := false) (.tags _ _)⟩
  obtain ⟨dependents, s₅, h₅, h⟩ := Txn.bind_ok h
  obtain ⟨hd, rfl⟩ := Prod.mk.inj h₅
  obtain rfl := Except.ok.inj hd
  have htail := (releaseTail_apply hsame.2.ids (rows.map (·.id)) now).symm.trans h
  cases htail
  have hend := hsame.1.trans (release_sameLives s₄ (rows.map (·.id)) now)
  refine ⟨logged, ?_, ?_⟩
  · rw [hend.history, hhist₃, hhist]
  · have hsame : logged.map (·.inst) = rows.map (·.inst) := (map_inst_of_forall₂ hlogged).trans hinsts
    rw [hsame]
    have hall := (hboth.congr hlives.symm hnext.symm hend.lives hend.nextInst).perm
      ((hperm.map (·.inst)).append (List.Perm.refl _))
    refine hall.perm ?_
    rw [← List.map_append]
    refine List.Perm.map _ ?_
    refine List.perm_append_comm.trans ?_
    exact List.filter_append_perm (fun r : TaskRow => r.requeue) rows

private theorem completeBatchTx_balances {items : List (TaskRecord × IoBudget)} (hs : s.Schema)
    (hnodup : (items.map (·.1.id)).Nodup) (hlife : ∀ item ∈ items, s.HasLife item.1) :
    s.Balances (completeBatchTx items now s).2 := by
  match items with
  | [] => exact (Store.SameLives.refl s).balances
  | [(task, metrics)] =>
    show s.Balances ((completeAndResolveTx task metrics now >>= fun result => pure [result]) s).2
    rw [Txn.bind_pure_state]
    exact balances_transaction fun result s' h => completeAndResolve_balances hs (hlife _ List.mem_cons_self) h
  | first :: second :: rest =>
    rw [completeBatchTx_several (by simp)]
    generalize first :: second :: rest = items at hnodup hlife
    split
    · exact balances_transaction fun results s' h => mapList_balances items hs hnodup hlife h
    · rw [Txn.bind_pure_state]
      exact balances_transaction fun unblocked s' h => completeBatchFast_balances hs hnodup hlife h

private theorem failBatchTx_balances {items : List FailureItem} (hs : s.Schema)
    (hnodup : (items.map (·.task.id)).Nodup) (hlife : ∀ item ∈ items, s.HasLife item.task) :
    s.Balances (failBatchTx items now s).2 := by
  match items with
  | [] => exact (Store.SameLives.refl s).balances
  | [item] =>
    exact balances_transaction fun u s' h => failInner_balances hs (fun _ => hlife item List.mem_cons_self) h
  | first :: second :: rest =>
    rw [failBatchTx_several (by simp)]
    generalize first :: second :: rest = items at hnodup hlife
    refine balances_transaction fun u s' h => ?_
    obtain ⟨rows, hids, hinsts, hrows⟩ := exists_rows (items.map (·.task)) (s := s) (by simpa using hlife)
    rw [List.map_map] at hids hinsts
    have hids : items.map (·.task.id) = rows.map (·.id) := hids.symm
    have hinsts : items.map (·.task.inst) = rows.map (·.inst) := hinsts.symm
    obtain ⟨_, s₁, h₁, h⟩ := Txn.bind_ok h
    obtain ⟨logged, htags, rfl, hlogged⟩ :=
      mapList_log (R := fun (item : FailureItem) row => row.inst = item.task.inst) (fun item t u t' ht => by
        obtain ⟨tags, he⟩ := insertHistory_leaves ht
        exact ⟨_, tags, he, rfl⟩) h₁
    obtain ⟨_, s₂, h₂, h⟩ := Txn.bind_ok h
    cases h₂
    have htasks : s'.tasks = s.tasks.filter (fun r => !(rows.map (·.id)).contains r.id) ∧ s'.nextInst = s.nextInst ∧
        s'.taskHistory = s.taskHistory ++ logged := by
      obtain rfl := (Prod.mk.inj h).2
      rw [← hids]
      split
      · exact ⟨rfl, rfl, rfl⟩
      · exact ⟨rfl, rfl, rfl⟩
    obtain ⟨htasks, hnext, hhist⟩ := htasks
    rw [hids] at hnodup
    have hperm : (s.tasks.filter fun r => (rows.map (·.id)).contains r.id).Perm rows := by
      have hall := filter_rows hs hnodup hrows fun _ => true
      simpa using hall
    refine ⟨logged, hhist, ?_⟩
    rw [map_inst_of_forall₂ hlogged, hinsts]
    exact (Store.Settles.delete hs htasks hnext).perm (hperm.map _)

end Completion

section Children

variable {s : Store} {now : Int}

private theorem cancelChildrenTx_balances {parent : Int} {read : List TaskRow} (hs : s.Schema)
    (hread : read ≠ [] → (read.map (·.inst)).Perm ((s.cancellableChildren parent).map (·.inst))) :
    s.Balances (cancelChildrenTx parent read now s).2 := by
  rw [cancelChildrenTx]
  split
  · exact (Store.SameLives.refl s).balances
  · rename_i hne
    refine balances_transaction fun u s' h => ?_
    obtain ⟨_, s₁, h₁, h⟩ := Txn.bind_ok h
    cases h
    obtain ⟨logged, htags, rfl, hlogged⟩ :=
      mapList_log (R := fun (row : TaskRow) h => h.inst = (rowToTaskRecord row).inst) (fun row t u t' ht => by
        obtain ⟨tags, he⟩ := insertHistory_leaves ht
        exact ⟨_, tags, he, rfl⟩) h₁
    refine ⟨logged, rfl, ?_⟩
    have hperm := hread (by simpa using hne)
    have hsame : logged.map (·.inst) = read.map (·.inst) := map_inst_of_forall₂ hlogged
    rw [hsame]
    have hdelete : s.Settles ((s.cancellableChildren parent).map (·.inst))
        ((s.logAll logged htags).deleteTasks fun r => r.parentId == some parent && r.pendingOrPaused) :=
          .delete hs rfl rfl
    exact hdelete.perm hperm.symm

end Children

/-! ### Submission -/

section Submission

variable {sha256 : List UInt8 → String} {sub : TaskSubmission} {now : Int} {s s' : Store} {r : TaskRow}

private theorem attachDependencies_sameLives (taskId : Int) (deps : List Int)
    (policy : DependencyFailurePolicy) (s : Store) :
    s.SameLives (attachDependencies taskId deps policy s).2 := by
  rw [attachDependencies_apply]
  split
  · exact .refl s
  · rename_i active _
    split
    · exact .refl s
    · split
      · have hadd : s.SameLives (s.addEdges (edgesFrom taskId active)) := ⟨rfl, rfl, rfl, rfl⟩
        split
        · exact hadd
        · exact hadd.trans (.update _ _ fun _ => rfl)
      · exact .refl s

theorem finishInsert_sameLives (taskId : Int) (s : Store) : s.SameLives (finishInsert sub taskId now s).2 := by
  obtain ⟨tags, hierarchy, hasTags, ⟨_, h⟩ | ⟨_, ⟨e, s₂, hatt, h⟩ | ⟨s₂, hatt, h⟩⟩⟩ :=
    finishInsert_cases sub taskId now s
  · rw [h]
    exact ⟨rfl, rfl, rfl, rfl⟩
  · have hsame := attachDependencies_sameLives taskId sub.dependencies sub.onDependencyFailure
      (s.tagged tags hierarchy hasTags)
    rw [hatt] at hsame
    rw [h]
    exact ⟨hsame.lives, hsame.nextInst, hsame.history, hsame.retention⟩
  · have hsame := attachDependencies_sameLives taskId sub.dependencies sub.onDependencyFailure
      (s.tagged tags hierarchy hasTags)
    rw [hatt] at hsame
    rw [h]
    have hs₂ : s.SameLives s₂ := ⟨hsame.lives, hsame.nextInst, hsame.history, hsame.retention⟩
    show s.SameLives (s₂.pauseNew taskId sub.groupKey now)
    rw [Store.pauseNew]
    split
    · exact hs₂.trans (.update _ _ fun _ => rfl)
    · exact hs₂

theorem skipExisting_sameLives (key : String) (priority : Priority) (skipRequeue : Bool) (s : Store) :
    s.SameLives (skipExisting key priority skipRequeue s).2 := by
  refine skipExisting_state (I := fun t => s.SameLives t) (.refl s) (.update s _ ?_) (.update s _ ?_)
  · exact fun _ => rfl
  · exact fun _ => rfl

/-- The life that is superseded in place ends, whatever becomes of the new tags. -/
private theorem supersedeInPlace_settles (hs : s.Schema) (hr : r ∈ s.tasks) :
    s.Settles [r.inst] (supersedeInPlace sub r.id now s).2 ∧
      (supersedeInPlace sub r.id now s).2.taskHistory = s.taskHistory := by
  obtain ⟨tags, h⟩ := supersedeInPlace_state sub r.id now s
  rw [h]
  exact ⟨.renew hs hr (f := sub.supersedeRow s.nextInst now) rfl rfl rfl, rfl⟩

/-- So does the one that is replaced. -/
private theorem supersedeReplace_settles (hs : s.Schema) {key : String} (hrow : s.taskByKey key = some r) :
    s.Settles [r.inst] (supersedeReplace sub key r.id now s).2 ∧
      (supersedeReplace sub key r.id now s).2.taskHistory = s.taskHistory := by
  have hdelete : s.Settles [r.inst] (s.delete r.id) := .remove hs (List.mem_of_find?_eq_some hrow) rfl rfl
  have hschema : (s.delete r.id).Schema := (hs.stmt (b := false) (.tags s _)).stmt (b := false) (.delete _ _)
  obtain ⟨tags, h⟩ := supersedeReplace_state sub now hs hrow
  rw [h]
  have hadd := hdelete.trans hs hschema (.add (sub.baseRow key now))
  exact ⟨hadd.congr rfl rfl rfl rfl, rfl⟩

/-- `supersede_existing` if the history row can be written. -/
private theorem supersedeExisting_balances {key : String} (hs : s.Schema) (hk : s.taskByKey key = some r)
    (hlog : ¬ s.LogFails false r.id) : s.Balances (supersedeExisting sub key now s).2 := by
  have hr : r ∈ s.tasks := List.mem_of_find?_eq_some hk
  have hrow : ((fun s : Store => s.taskByKey key) <$> Txn.get : Sql (Option TaskRow)) s = (.ok (some r), s) := by
    rw [← hk]
    rfl
  have hrecord : ¬ s.LogFails false (rowToTaskRecord r).id := hlog
  have hinsert := insertHistory_logs hrecord .superseded {} (r.startedAt.map (now - ·)) none now
  have hschema := hs.insertHistory hinsert
  rw [supersedeExisting, Txn.bind_of_ok hrow]
  show s.Balances ((insertHistory (rowToTaskRecord r) .superseded {} (r.startedAt.map (now - ·)) none false now >>=
    _) s).2
  rw [Txn.bind_of_ok hinsert]
  generalize hs₁ : s.logTask false _ _ = s₁ at hinsert hschema
  have hk₁ : s₁.taskByKey key = some r := by
    rw [← hs₁]
    exact hk
  have hback : ∀ t : Store, s₁.Settles [r.inst] t ∧ t.taskHistory = s₁.taskHistory → s.Balances t := by
    rintro t ⟨hsettles, hhist⟩
    refine .record hinsert hhist ?_
    rw [← hs₁] at hsettles
    exact hsettles.congr rfl rfl rfl rfl
  cases r.status with
  | pending | paused | blocked => exact hback _ (supersedeInPlace_settles hschema (List.mem_of_find?_eq_some hk₁))
  | running | waiting => exact hback _ (supersedeReplace_settles hschema hk₁)

/-- If it cannot, the operation fails. -/
private theorem supersedeExisting_fails {key : String} (hk : s.taskByKey key = some r)
    (hlog : s.LogFails false r.id) :
    (supersedeExisting sub key now s).1.toBool = false := by
  have hrow : ((fun s : Store => s.taskByKey key) <$> Txn.get : Sql (Option TaskRow)) s = (.ok (some r), s) := by
    rw [← hk]
    rfl
  have hrecord : s.LogFails false (rowToTaskRecord r).id := hlog
  obtain ⟨s₁, hinsert⟩ := insertHistory_fails hrecord .superseded {} (r.startedAt.map (now - ·)) none now
  rw [supersedeExisting, Txn.bind_of_ok hrow]
  show ((insertHistory (rowToTaskRecord r) .superseded {} (r.startedAt.map (now - ·)) none false now >>= _)
    s).1.toBool = false
  rw [Txn.bind_of_error hinsert]
  rfl

/-- A submission ends the life that it supersedes, unless its history row cannot be written. -/
private theorem submitOne_balances (hs : s.Schema) (skipRequeue : Bool)
    (h : (submitOne sha256 sub skipRequeue now s).1.toBool = true ∨
      (sub.onDuplicate = .supersede → ∀ r ∈ s.tasks, r.key = sub.effectiveKey sha256 → ¬ s.LogFails false r.id)) :
    s.Balances (submitOne sha256 sub skipRequeue now s).2 := by
  cases hv : sub.validate with
  | error e =>
    rw [submitOne_invalid hv]
    exact (Store.SameLives.refl s).balances
  | ok u =>
    cases hk : s.taskByKey (sub.effectiveKey sha256) with
    | none =>
      rw [submitOne_fresh hv hk]
      have hadd : s.Balances (s.addTask (sub.newRow (sub.effectiveKey sha256) now)) :=
        ⟨[], (List.append_nil _).symm, .add _⟩
      have hschema : (s.addTask (sub.newRow (sub.effectiveKey sha256) now)).Schema :=
        hs.stmt (b := true) (.add s _ hk rfl)
      exact hadd.then_sameLives hs hschema (finishInsert_sameLives _ _)
    | some row =>
      have hrow : row ∈ s.tasks := List.mem_of_find?_eq_some hk
      have hkey : row.key = sub.effectiveKey sha256 := by simpa using List.find?_some hk
      rw [submitOne_duplicate hv hk] at h ⊢
      cases hdup : sub.onDuplicate with
      | reject => exact (Store.SameLives.refl s).balances
      | skip => exact (skipExisting_sameLives _ _ skipRequeue s).balances
      | supersede =>
        simp only [hdup] at h ⊢
        by_cases hlog : s.LogFails false row.id
        · rcases h with h | h
          · rw [supersedeExisting_fails hk hlog] at h
            cases h
          · exact absurd hlog (h trivial row hrow hkey)
        · exact supersedeExisting_balances hs hk hlog

private theorem submitEach_balances {skipRequeue : Bool} (batch : List (TaskSubmission × Int)) {s : Store}
    (hs : s.Schema) (ha : Along (fun σ m => (submitOne sha256 m.1 skipRequeue m.2 σ).2)
      (fun σ m => m.1.onDuplicate = .supersede → ∀ r ∈ σ.tasks, r.key = m.1.effectiveKey sha256 →
        ¬ σ.LogFails false r.id) s batch) :
    s.Balances (submitEach sha256 skipRequeue batch s).2 := by
  induction batch generalizing s with
  | nil => exact (Store.SameLives.refl s).balances
  | cons m batch ih =>
    have hs₁ : (submitOne sha256 m.1 skipRequeue m.2 s).2.Schema := hs.steps (steps_submitOne s)
    exact (submitOne_balances hs skipRequeue (.inr ha.1)).trans hs hs₁ (ih hs₁ ha.2)

private theorem submitItem_balances {skipRequeue : Bool} {last : Nat → String → Bool} {item : Nat × TaskSubmission}
    {result : SubmitOutcome} (hs : s.Schema) (h : submitItem sha256 skipRequeue last now item s = (.ok result, s')) :
    s.Balances s' := by
  rw [submitItem] at h
  split at h
  · have hone : s.Balances (submitOne sha256 item.2 skipRequeue now s).2 := by
      refine submitOne_balances hs skipRequeue (.inl ?_)
      rw [h]
      rfl
    rwa [h] at hone
  · cases h
    exact (Store.SameLives.refl s).balances

/-- In a chunk that is committed nothing has failed. -/
private theorem submitChunk_balances {skipRequeue : Bool} {last : Nat → String → Bool}
    (chunk : List (Nat × TaskSubmission)) {s : Store} {results : List SubmitOutcome} (hs : s.Schema)
    (h : Txn.mapList (submitItem sha256 skipRequeue last now) chunk s = (.ok results, s')) : s.Balances s' := by
  induction chunk generalizing s results with
  | nil =>
    cases h
    exact (Store.SameLives.refl _).balances
  | cons item chunk ih =>
    obtain ⟨result, s₁, h₁, h⟩ := Txn.bind_ok h
    obtain ⟨rest, s₂, h₂, h⟩ := Txn.bind_ok h
    cases h
    have hsteps : Steps true s (submitItem sha256 skipRequeue last now item s).2 := steps_submitItem item s
    rw [h₁] at hsteps
    exact (submitItem_balances hs h₁).trans hs (hs.steps hsteps) (ih (hs.steps hsteps) h₂)

end Submission

/-! ### The steps -/

/-- Only history rows are deleted. -/
structure Store.Prunes (s s' : Store) : Prop where
  lives : s'.lives = s.lives
  nextInst : s'.nextInst = s.nextInst
  history : ∃ keep : TaskHistoryRow → Bool, s'.taskHistory = s.taskHistory.filter keep

section Steps

variable {s : Store}

private theorem prunes_maybePrune (s : Store) (now : Int) : s.Prunes (s.maybePrune now) := by
  have hall : s.taskHistory = s.taskHistory.filter fun _ => true := by rw [List.filter_true]
  rw [Store.maybePrune]
  split
  · exact ⟨rfl, rfl, _, hall⟩
  · dsimp only
    split
    · exact ⟨rfl, rfl, _, hall⟩
    · split
      · exact ⟨rfl, rfl, _, rfl⟩
      · exact ⟨rfl, rfl, _, rfl⟩

private theorem insertHistory_nextInst {n : Nat} {task : TaskRecord} {status : HistoryStatus} {metrics : IoBudget}
    {durationMs : Option Int} {lastError : Option String} {skipTags : Bool} {now : Int} :
    Txn.Ensures (fun t : Store => t.nextInst = n)
    (insertHistory task status metrics durationMs lastError skipTags now)
      fun _ t => t.nextInst = n := by
  intro t ht u t' h
  obtain ⟨tags, rfl⟩ := insertHistory_leaves h
  exact ht

private theorem expireRow_nextInst {n : Nat} {now : Int} (row : TaskRow) :
    Txn.Ensures (fun t : Store => t.nextInst = n) (expireRow row now) fun _ t => t.nextInst = n := by
  refine Txn.Ensures.bind (Txn.Ensures.get (Q := fun _ t => t.nextInst = n) fun t ht => ht) fun t => ?_
  refine insertHistory_nextInst.bind fun _ => ?_
  exact Txn.Ensures.bind (Txn.Ensures.modify (Q := fun _ t => t.nextInst = n) fun t ht => ht) fun _ =>
    .pure fun t ht => ht

/-- An expiry gives out no new life. -/
private theorem expireTasksTx_nextInst {now : Int} {expired : List TaskRecord} {s' : Store}
    (h : expireTasksTx now s = (.ok expired, s')) : s'.nextInst = s.nextInst := by
  have hone (row : TaskRow) : Txn.Ensures (fun t : Store => t.nextInst = s.nextInst) (expireWithChildren now row)
      fun _ t => t.nextInst = s.nextInst := by
    refine Txn.Ensures.bind (Txn.Ensures.get (Q := fun _ t => t.nextInst = s.nextInst) fun t ht => ht) fun t => ?_
    refine insertHistory_nextInst.bind fun _ => ?_
    refine Txn.Ensures.bind (Txn.Ensures.map_get (Q := fun _ t => t.nextInst = s.nextInst) fun t ht => ht)
      fun children => ?_
    refine (Txn.Ensures.mapList fun row _ => expireRow_nextInst row).bind fun _ => ?_
    exact Txn.Ensures.bind (Txn.Ensures.modify (Q := fun _ t => t.nextInst = s.nextInst) fun t ht => ht) fun _ =>
      .pure fun t ht => ht
  obtain ⟨rows, s₁, h₁, h⟩ := Txn.bind_ok (transaction_ok h)
  cases h₁
  obtain ⟨expired, s₂, h₂, h⟩ := Txn.bind_ok h
  cases h
  exact Txn.Ensures.mapList (fun row _ => hone row) s rfl _ _ h₂

private theorem recoverRunning_sameLives (s : Store) (now : Int) : s.SameLives (s.recoverRunning now) := by
  have hreset : s.SameLives s.resetRunning := .update s _ fun _ => rfl
  have hsettled : s.SameLives (s.resetRunning.settlePauses now) := hreset.trans (.update _ _ fun _ => rfl)
  rw [Store.recoverRunning]
  split
  · exact ⟨hsettled.lives, hsettled.nextInst, hsettled.history, hsettled.retention⟩
  · have hcleaned : s.SameLives (s.resetRunning.settlePauses now).deleteDanglingEdges :=
      ⟨hsettled.lives, hsettled.nextInst, hsettled.history, hsettled.retention⟩
    exact hcleaned.trans (.update _ _ fun _ => rfl)

/-- The steps that only change rows or settings. -/
def Action.alters : Action → Bool
  | .update .. | .claimTask .. | .popById .. | .popNextBatch .. | .resolveDependents .. | .pauseGroupState
    .. | .resumeGroupState .. |
    .recoverRunning .. => true
  | _ => false

theorem Action.sameLives_exec (sha256 : List UInt8 → String) (hs : s.Schema) {a : Action} (ha : a.alters = true) :
    s.SameLives (a.exec sha256 s) := by
  cases a with
  | update u =>
    rw [Action.exec, u.exec_update]
    exact .update s _ fun r => by cases u <;> rfl
  | claimTask id now =>
    have hsame : s.SameLives (s.updateTasks (fun r => r.id == id && r.status == .pending) (TaskRow.claim now)) :=
      .update s _ fun _ => rfl
    exact ⟨hsame.lives, hsame.nextInst, hsame.history, hsame.retention⟩
  | popById id now => exact .update s _ fun _ => rfl
  | popNextBatch limit aging now =>
    have hsame : s.SameLives (s.updateTasks (fun r => (s.nextIds limit aging now).contains r.id)
        (TaskRow.claim now)) :=
      .update s _ fun _ => rfl
    rw [Action.exec, popNextBatch.eq_def]
    split
    · exact .refl s
    · exact ⟨hsame.lives, hsame.nextInst, hsame.history, hsame.retention⟩
    · exact ⟨hsame.lives, hsame.nextInst, hsame.history, hsame.retention⟩
  | resolveDependents id now =>
    refine sameLives_transaction fun unblocked s' h => ?_
    rw [resolveDependentsInner_apply hs.ids] at h
    cases h
    exact release_sameLives s [id] now
  | pauseGroupState group resumeAt now =>
    rw [Action.exec, Store.pauseGroupState]
    split
    · exact .refl s
    · exact ⟨rfl, rfl, rfl, rfl⟩
  | resumeGroupState group => exact ⟨rfl, rfl, rfl, rfl⟩
  | recoverRunning now => exact recoverRunning_sameLives s now
  | _ => cases ha

/-- A step either records the lives that it ends, or deletes history rows. -/
theorem Action.accounts_exec (sha256 : List UInt8 → String) (hs : s.Schema) (a : Action) (ha : a.Accounts sha256 s) :
    s.Balances (a.exec sha256 s) ∨ s.Prunes (a.exec sha256 s) := by
  cases a with
  | submitDirect sub now =>
    left
    refine balances_transaction fun outcome s' h => ?_
    have hone : s.Balances (submitOne sha256 sub (!s.hasRunning) now s).2 := by
      refine submitOne_balances hs _ (.inl ?_)
      rw [h]
      rfl
    rwa [h] at hone
  | processSubmitBatch skipRequeue batch => exact .inl (submitEach_balances batch hs ha)
  | submitChunk skipRequeue last now chunk =>
    exact .inl (balances_transaction fun results s' h => submitChunk_balances chunk hs h)
  | complete id metrics now =>
    left
    refine balances_transaction fun u s' h => ?_
    cases hrow : s.taskById id with
    | none =>
      simp only [hrow] at h
      cases h
      exact (Store.SameLives.refl _).balances
    | some row =>
      simp only [hrow] at h
      obtain ⟨result, s₁, h₁, h⟩ := Txn.bind_ok h
      cases h
      exact completeInner_balances hs (hasLife_taskById hrow) h₁
  | completeWithRecord task metrics now =>
    exact .inl (balances_transaction fun result s' h => completeInner_balances hs ha h)
  | completeBatch items now => exact .inl (completeBatchTx_balances hs ha.1 ha.2)
  | fail id error retryable maxRetries metrics backoff now =>
    left
    refine balances_transaction fun u s' h => ?_
    cases hrow : s.taskById id with
    | none =>
      simp only [hrow] at h
      cases h
      exact (Store.SameLives.refl _).balances
    | some row =>
      simp only [hrow] at h
      exact failInner_balances hs (fun _ => hasLife_taskById hrow) h
  | failWithRecord task error retryable maxRetries metrics backoff now =>
    exact .inl (balances_transaction fun u s' h => failInner_balances hs ha h)
  | failBatch items now => exact .inl (failBatchTx_balances hs ha.1 ha.2)
  | failDependents id now =>
    left
    refine balances_transaction fun result s' h => ?_
    exact (failDependentsInner_accounted hs _ id s ⟨hs, (Store.SameLives.refl s).balances⟩ _ _ h).balances
  | cancelToHistory id now =>
    left
    refine balances_transaction fun found s' h => ?_
    cases hrow : s.taskById id with
    | none =>
      simp only [hrow] at h
      cases h
      exact (Store.SameLives.refl _).balances
    | some row =>
      simp only [hrow] at h
      obtain ⟨_, s₁, h₁, h⟩ := Txn.bind_ok h
      cases h
      exact cancelInner_balances hs (hasLife_taskById hrow) h₁
  | cancelToHistoryWithRecord task now => exact .inl (balances_transaction fun u s' h => cancelInner_balances hs ha h)
  | cancelChildren parent read now => exact .inl (cancelChildrenTx_balances hs ha)
  | expireTasks now =>
    left
    rcases h : expireTasksTx now s with ⟨e | expired, s'⟩
    · obtain ⟨s₁, _, rfl⟩ := transaction_error h
      show s.Balances (expireTasksTx now s).2
      rw [h]
      exact Store.SameLives.balances ⟨rfl, rfl, rfl, rfl⟩
    · show s.Balances (expireTasksTx now s).2
      rw [h]
      exact expireTasksTx_balances hs ha h (expireTasksTx_nextInst h)
  | expireSingle id now =>
    left
    refine balances_transaction fun expired s' h => ?_
    split at h
    · cases h
      exact (Store.SameLives.refl _).balances
    · rename_i row hrow
      obtain ⟨task, s₁, h₁, h⟩ := Txn.bind_ok h
      cases h
      exact expireRow_balances hs (List.mem_of_find?_eq_some hrow) h₁
  | delete id =>
    left
    have htasks : (s.delete id).tasks = s.tasks := by
      refine List.filter_eq_self.2 fun r hr => ?_
      simpa using ha r hr
    refine Store.SameLives.balances ⟨?_, rfl, rfl, rfl⟩
    rw [Action.exec, Store.lives, htasks, Store.lives]
  | deleteHistory historyId => exact .inr ⟨rfl, rfl, _, rfl⟩
  | pruneHistoryByAge days now => exact .inr ⟨rfl, rfl, _, rfl⟩
  | pruneHistoryByCount keep => exact .inr ⟨rfl, rfl, _, rfl⟩
  | maybePrune now => exact .inr (prunes_maybePrune s now)
  | _ => exact .inl (Action.sameLives_exec sha256 hs rfl).balances

end Steps

/-! ### Whole runs -/

section Runs

variable {sha256 : List UInt8 → String} {σ : Lives} {a : Action}

/-- What holds along the runs: only lives that were given out are recorded. -/
private structure Lives.Sound (σ : Lives) : Prop where
  schema : σ.store.Schema
  balanced : σ.Balanced
  given : ∀ life ∈ σ.recorded, life < σ.store.nextInst

private theorem Lives.Start.sound (h : σ.Start) : σ.Sound := by
  obtain ⟨hfresh, hpruned⟩ := h
  have hrecorded : σ.recorded = [] := by rw [Lives.recorded, hpruned, hfresh.taskHistory, List.map_nil,
    List.append_nil]
  refine ⟨hfresh.schema, ⟨fun life hlt _ => ?_, fun life _ => ?_⟩, ?_⟩
  · rw [hfresh.nextInst] at hlt
    exact absurd hlt (Nat.not_lt_zero life)
  · rw [hrecorded, List.count_nil]
  · rw [hrecorded]
    exact fun life hlife => absurd hlife List.not_mem_nil

/-- A life that is in the queue or is still to be given out has no history row. -/
private theorem Lives.Sound.unrecorded (h : σ.Sound) {life : Nat}
    (hlife : life ∈ σ.store.lives ∨ σ.store.nextInst ≤ life) :
    σ.recorded.count life = 0 := by
  rcases hlife with hlife | hle
  · exact h.balanced.alive life hlife
  · refine List.count_eq_zero.2 fun hmem => ?_
    have := h.given life hmem
    omega

/-- The rows of a step that keeps the history come on top of the recorded lives. -/
private theorem recorded_append {rows : List TaskHistoryRow}
    (hhist : (a.exec sha256 σ.store).taskHistory = σ.store.taskHistory ++ rows) :
    (σ.step sha256 a).recorded = σ.recorded ++ rows.map (·.inst) := by
  have hnone : (σ.store.taskHistory.filter fun h => !(a.exec sha256 σ.store).taskHistory.contains h) = [] := by
    refine List.filter_eq_nil_iff.2 fun h hh => ?_
    simp [hhist, hh]
  unfold Lives.recorded Lives.step
  dsimp only
  rw [hnone, hhist, List.map_nil, List.append_nil, List.map_append, List.append_assoc]

/-- Rows that are deleted stay recorded. -/
private theorem recorded_perm {keep : TaskHistoryRow → Bool}
    (hhist : (a.exec sha256 σ.store).taskHistory = σ.store.taskHistory.filter keep) :
    (σ.step sha256 a).recorded.Perm σ.recorded := by
  have hgone : (σ.store.taskHistory.filter fun h => !(a.exec sha256 σ.store).taskHistory.contains h) =
      σ.store.taskHistory.filter fun h => !keep h := by
    refine List.filter_congr fun h hh => ?_
    rw [hhist, Bool.eq_iff_iff, Bool.not_eq_true', Bool.not_eq_true', ← Bool.not_eq_true, ← Bool.not_eq_true,
      List.contains_iff_mem, List.mem_filter, and_iff_right hh]
  unfold Lives.recorded Lives.step
  dsimp only
  rw [hgone, hhist, List.append_assoc, ← List.map_append]
  refine List.Perm.append_left _ (List.Perm.map _ ?_)
  exact List.perm_append_comm.trans (List.filter_append_perm keep _)

private theorem sound_of_balances (h : σ.Sound) (hb : σ.store.Balances (a.exec sha256 σ.store)) :
    (σ.step sha256 a).Sound := by
  obtain ⟨rows, hhist, hsettles⟩ := hb
  have hrecorded := recorded_append hhist
  have hcount : ∀ life, (σ.step sha256 a).recorded.count life =
      σ.recorded.count life + (rows.map (·.inst)).count life := by
    intro life
    rw [hrecorded, List.count_append]
  have hnext : σ.store.nextInst ≤ (a.exec sha256 σ.store).nextInst := hsettles.next
  refine ⟨h.schema.steps (a.steps sha256 σ.store), ⟨fun life hlt hgone => ?_, fun life hlife => ?_⟩,
    fun life hlife => ?_⟩
  · -- a life that has ended, in this step or before it
    rw [hcount]
    by_cases hold : life ∈ σ.store.lives ∨ σ.store.nextInst ≤ life
    · have hended : life ∈ rows.map (·.inst) := (hsettles.mem life).2 ⟨hold.imp_right fun hle => ⟨hle, hlt⟩, hgone⟩
      rw [h.unrecorded hold, List.count_eq_one_of_mem hsettles.nodup hended]
    · rw [not_or, not_le] at hold
      have hnot : life ∉ rows.map (·.inst) := by
        intro hmem
        rcases ((hsettles.mem life).1 hmem).1 with hthere | hnew
        · exact hold.1 hthere
        · omega
      rw [h.balanced.ended life hold.2 hold.1, List.count_eq_zero.2 hnot]
  · have hnot : life ∉ rows.map (·.inst) := fun hmem => ((hsettles.mem life).1 hmem).2 hlife
    rw [hcount, h.unrecorded (hsettles.old life hlife), List.count_eq_zero.2 hnot]
  · rw [hrecorded, List.mem_append] at hlife
    rcases hlife with hlife | hlife
    · exact Nat.lt_of_lt_of_le (h.given life hlife) hnext
    · rcases ((hsettles.mem life).1 hlife).1 with hold | hnew
      · exact Nat.lt_of_lt_of_le (h.schema.lives_lt hold) hnext
      · exact hnew.2

private theorem sound_of_prunes (h : σ.Sound) (hp : σ.store.Prunes (a.exec sha256 σ.store)) :
    (σ.step sha256 a).Sound := by
  obtain ⟨keep, hhist⟩ := hp.history
  have hperm := recorded_perm hhist
  refine ⟨h.schema.steps (a.steps sha256 σ.store), ⟨fun life hlt hgone => ?_, fun life hlife => ?_⟩,
    fun life hlife => ?_⟩
  · rw [hperm.count_eq]
    refine h.balanced.ended life (hp.nextInst ▸ hlt) fun hlife => hgone ?_
    exact hp.lives ▸ hlife
  · rw [hperm.count_eq]
    exact h.balanced.alive life (hp.lives ▸ hlife)
  · have hlt := h.given life (hperm.mem_iff.1 hlife)
    rw [← hp.nextInst] at hlt
    exact hlt

private theorem Lives.Sound.step (h : σ.Sound) (ha : a.Accounts sha256 σ.store) : (σ.step sha256 a).Sound := by
  rcases a.accounts_exec sha256 h.schema ha with hb | hp
  · exact sound_of_balances h hb
  · exact sound_of_prunes h hp

/-- The history rows of a step are those of the lives that it ends. -/
private theorem Lives.Sound.exact (h : σ.Sound) (ha : a.Accounts sha256 σ.store) : σ.Exact sha256 a := by
  intro life
  rcases a.accounts_exec sha256 h.schema ha with ⟨rows, hhist, hsettles⟩ | hp
  · rw [← hsettles.mem life, List.mem_map]
    constructor
    · rintro ⟨row, hrow, hnew, rfl⟩
      rw [hhist, List.mem_append] at hrow
      exact ⟨row, hrow.resolve_left hnew, rfl⟩
    · rintro ⟨row, hrow, rfl⟩
      refine ⟨row, ?_, fun hold => ?_, rfl⟩
      · rw [hhist]
        exact List.mem_append_right _ hrow
      · -- its life was not recorded before the step
        have hcount := h.unrecorded (((hsettles.mem row.inst).1 (List.mem_map_of_mem hrow)).1.imp_right And.left)
        refine List.count_eq_zero.1 hcount (List.mem_append_right _ ?_)
        exact List.mem_map_of_mem hold
  · obtain ⟨keep, hhist⟩ := hp.history
    constructor
    · rintro ⟨row, hrow, hnew, rfl⟩
      rw [hhist] at hrow
      exact absurd (List.mem_of_mem_filter hrow) hnew
    · rintro ⟨hold | hnew, hgone⟩
      · rw [hp.lives] at hgone
        exact absurd hold hgone
      · rw [hp.nextInst] at hnew
        omega

end Runs

/-- In every run whose steps end the lives that they record and no others, each life that has ended has been written
to the history once, the ones in the queue have not, and a step writes a row if and only if it ends the life. -/
theorem lives_recorded_once (sha256 : List UInt8 → String) (σ : Lives)
    (h : Runs Lives.Start (Lives.step sha256) (fun σ a => a.Accounts sha256 σ.store) σ) :
    σ.Balanced ∧ ∀ a : Action, a.Accounts sha256 σ.store → σ.Exact sha256 a := by
  have hsound : σ.Sound := h.invariant (fun σ hσ => hσ.sound) fun σ a hσ ha => hσ.step ha
  exact ⟨hsound.balanced, fun a ha => hsound.exact ha⟩

private def livesRun (actions : List Action) : Lives := actions.foldl (Lives.step sampleSha256) ⟨openMemory, []⟩

private theorem new_lives_start : Lives.Start ⟨openMemory, []⟩ := ⟨openMemory_fresh, rfl⟩

private def oneCompletion : Lives :=
  livesRun [.submitDirect (TaskSubmission.new "a") 0, .claimTask 1 0, .completeWithRecord dispatchedA {} 5]

/-- A task that is dispatched and completes. -/
theorem completed_life_recorded : 0 ∉ oneCompletion.store.lives ∧ oneCompletion.recorded.count 0 = 1 := by
  have hgone : 0 ∉ oneCompletion.store.lives := by decide +kernel
  have hlife : (execAll sampleSha256 openMemory [.submitDirect (TaskSubmission.new "a") 0, .claimTask 1 0]).HasLife
      dispatchedA := by
    unfold Store.HasLife
    decide +kernel
  have hrun : Runs Lives.Start (Lives.step sampleSha256) (fun σ a => a.Accounts sampleSha256 σ.store) oneCompletion :=
    Runs.list (.start new_lives_start) _ ⟨trivial, trivial, hlife, trivial⟩
  exact ⟨hgone, (lives_recorded_once sampleSha256 oneCompletion hrun).1.ended 0 (by decide +kernel) hgone⟩

private def offspring (taskType : String) : TaskSubmission := { TaskSubmission.new taskType with parentId := some 1 }

/-- Two children of a waiting task run and one of them fails.  The task fails fast: it has no children to cancel,
and the other child, which is in the active map, is deleted. -/
private def siblingDeleted : Lives :=
  livesRun [.submitDirect (TaskSubmission.new "a") 0, .claimTask 1 1, .submitDirect (offspring "b") 2,
    .submitDirect (offspring "c") 2, .update (.setWaiting 1 none), .claimTask 2 3, .claimTask 3 3,
    .fail 2 "e" false 3 {} {} 4, .cancelChildren 1 [] 4, .delete 3]

theorem sibling_unrecorded :
    ¬ ∀ σ : Lives, Runs Lives.Start (Lives.step sampleSha256) (fun _ _ => True) σ → σ.Balanced := by
  intro h
  have hbalanced := h siblingDeleted (Runs.list (.start new_lives_start) _ (Along.of_forall fun _ _ => trivial))
  have hcount : siblingDeleted.recorded.count 2 = 1 := hbalanced.ended 2 (by decide +kernel) (by decide +kernel)
  have hnone : siblingDeleted.recorded.count 2 = 0 := by decide +kernel
  omega

end Taskmill
