import Taskmill.Rows
import Taskmill.Stale
import Taskmill.Transact.Log
import Mathlib.Data.List.Count

/-!
# Concurrent dispatchers

Any number of dispatchers run `try_dispatch`, the loops of `dispatch_pending` and `dispatch_fair`, and `pop_by_id`
(`src/scheduler/run_loop.rs`) beside every other step of the store.  A dispatcher on the slow path peeks, expires or
asks the gate, claims and spawns, and others come in between any two of these; on the fast path it pops a batch and
spawns its tasks one by one.

The log of a run says what each caller was told, by the lives of the rows: `claim d life` is a result of a call of
`d` that reports the claim of a row, `spawn d life` the start of an execution with the record of a row, and `pending
life` a step after which a row is pending although it was not before.

`claim_task` looks for a pending row under the id of the candidate, and this may be another row by then.  The record
that is spawned is still that of the candidate, so a dispatcher can start a task that it has not claimed
(`replaced_candidate_spawned`).
-/

namespace Taskmill

open Transact

/-- The status of the row with this life. -/
def Store.status (s : Store) (life : Nat) : Option TaskStatus := (s.tasks.find? (·.inst == life)).map (·.status)

/-- The lives of the rows that a step from `s` to `s'` has made pending. -/
def Store.becamePending (s s' : Store) : List Nat :=
  (s'.tasks.map (·.inst)).filter fun life => s'.status life == some .pending && s.status life != some .pending

/-- The queries for the head of the queue. -/
inductive PeekQuery where
  | next
  | inGroup (group : String)
  | ungrouped
  | urgent (threshold : Priority)

/-- `peek_next`, `peek_next_in_group`, `peek_next_ungrouped` and `peek_next_urgent`. -/
def PeekQuery.run (s : Store) (aging : Option AgingParams) (now : Int) : PeekQuery → Option TaskRecord
  | .next => s.peekNext aging now
  | .inGroup group => (s.ordered aging fun r => r.due now && r.groupKey == some group).head?.map rowToTaskRecord
  | .ungrouped => (s.ordered aging fun r => r.due now && r.groupKey.isNone).head?.map rowToTaskRecord
  | .urgent threshold =>
    match aging with
    | none => none
    | some ap =>
      (s.ordered (some ap) fun r => r.due now && r.rank (some ap) ≤ threshold.toNat).head?.map rowToTaskRecord

/-- What the gate says to a candidate. -/
inductive Admission where
  | admitted
  | deny
  | rateLimited (runAfter : Int)
deriving DecidableEq

/-- Where a dispatcher stands; without claimed tasks it is idle. -/
inductive Dispatcher where
  | peeked (candidate : TaskRecord)
  | admitted (candidate : TaskRecord)
  | claimed (tasks : List TaskRecord)

def Dispatcher.idle : Dispatcher := .claimed []

/-- The lives of the claimed tasks that it has not spawned yet. -/
def Dispatcher.holds : Dispatcher → List Nat
  | .claimed tasks => tasks.map (·.inst)
  | _ => []

/-- The pending row under the id of an admitted candidate, if there is one, is the row that was peeked. -/
def Dispatcher.Current (s : Store) : Dispatcher → Prop
  | .admitted candidate => ∀ r ∈ s.tasks, r.id = candidate.id ∧ r.status = .pending → r.inst = candidate.inst
  | _ => True

instance (s : Store) : (dispatcher : Dispatcher) → Decidable (dispatcher.Current s)
  | .admitted _ => inferInstanceAs (Decidable (∀ r ∈ s.tasks, _))
  | .peeked _ => .isTrue trivial
  | .claimed _ => .isTrue trivial

inductive Event where
  | claim (d : Nat) (life : Nat)
  | spawn (d : Nat) (life : Nat)
  | pending (life : Nat)
deriving DecidableEq, Repr

structure Dispatch where
  store : Store
  dispatcher : Nat → Dispatcher
  log : List Event

/-- The claims, which are steps of dispatchers. -/
def Action.isClaim : Action → Bool
  | .claimTask .. | .popById .. | .popNextBatch .. => true
  | _ => false

inductive DispatchStep where
  /-- a step of another caller -/
  | store (a : Action) (h : a.isClaim = false)
  | peek (d : Nat) (query : PeekQuery) (aging : Option AgingParams) (now : Int)
  /-- `populate_tags` on what the dispatcher has read -/
  | populateTags (d : Nat)
  /-- the candidate has expired: `expire_single`, whatever it returns -/
  | expire (d : Nat) (now : Int)
  /-- the candidate has not expired: `gate.admit` -/
  | gate (d : Nat) (admission : Admission) (now : Int)
  | claim (d : Nat) (now : Int) (readings : Readings)
  /-- `pop_next` and `pop_next_batch` -/
  | pop (d limit : Nat) (aging : Option AgingParams) (now : Int)
  | popById (d : Nat) (id now : Int)
  /-- `spawn_dispatched_task` for the next claimed task -/
  | spawn (d : Nat) (registered : Bool) (now : Int)
  /-- a database error ends the call -/
  | abort (d : Nat)

/-- Dispatcher `d` goes on to `next`, the store to `s`. -/
def Dispatch.set (σ : Dispatch) (d : Nat) (next : Dispatcher) (s : Store) (events : List Event) : Dispatch where
  store := s
  dispatcher := Function.update σ.dispatcher d next
  log := events ++ (σ.store.becamePending s).map Event.pending ++ σ.log

/-- The failure of a claimed task without an executor; `maybe_prune` is a step of its own. -/
def failUnregistered (task : TaskRecord) (now : Int) : Sql Unit :=
  failWithRecordTx task s!"no executor registered for type '{task.taskType}'" false 0 {} {} now

def DispatchStep.exec (sha256 : List UInt8 → String) (σ : Dispatch) : DispatchStep → Dispatch
  | .store a _ => σ.set 0 (σ.dispatcher 0) (a.exec sha256 σ.store) []
  | .peek d query aging now =>
    match σ.dispatcher d, query.run σ.store aging now with
    | .claimed [], some candidate => σ.set d (.peeked candidate) σ.store []
    | _, _ => σ
  | .populateTags d =>
    match σ.dispatcher d with
    | .peeked candidate => σ.set d (.peeked (σ.store.populateTags candidate)) σ.store []
    | .claimed tasks => σ.set d (.claimed (tasks.map σ.store.populateTags)) σ.store []
    | .admitted _ => σ
  | .expire d now =>
    match σ.dispatcher d with
    | .peeked candidate =>
      if candidate.expiresAt.any (· ≤ now) then σ.set d .idle (expireSingle candidate.id now σ.store).2 [] else σ
    | _ => σ
  | .gate d admission now =>
    match σ.dispatcher d with
    | .peeked candidate =>
      if candidate.expiresAt.any (· ≤ now) then σ
      else
        match admission with
        | .admitted => σ.set d (.admitted candidate) σ.store []
        | .deny => σ.set d .idle σ.store []
        | .rateLimited runAfter => σ.set d .idle (σ.store.setRunAfter candidate.id runAfter) []
    | _ => σ
  | .claim d now readings =>
    match σ.dispatcher d with
    | .admitted candidate =>
      match claimTask candidate.id now σ.store with
      | (.ok true, s) =>
        σ.set d (.claimed [candidate.patched readings]) s
          ((σ.store.taskById candidate.id).toList.map fun row => .claim d row.inst)
      | (_, s) => σ.set d .idle s []
    | _ => σ
  | .pop d limit aging now =>
    match σ.dispatcher d with
    | .claimed [] =>
      match popNextBatch limit aging now σ.store with
      | (.ok tasks, s) => σ.set d (.claimed tasks) s (tasks.map fun task => .claim d task.inst)
      | (.error _, s) => σ.set d .idle s []
    | _ => σ
  | .popById d id now =>
    match Taskmill.popById id now σ.store with
    | (.ok task, s) => σ.set d (σ.dispatcher d) s (task.toList.map fun task => .claim d task.inst)
    | (.error _, s) => σ.set d (σ.dispatcher d) s []
  | .spawn d registered now =>
    match σ.dispatcher d with
    | .claimed (task :: tasks) =>
      if registered then σ.set d (.claimed tasks) σ.store [.spawn d task.inst]
      else
        match failUnregistered task now σ.store with
        | (.ok _, s) => σ.set d (.claimed tasks) s []
        | (.error _, s) => σ.set d .idle s []
    | _ => σ
  | .abort d => σ.set d .idle σ.store []

structure Dispatch.Fresh (σ : Dispatch) : Prop where
  store : σ.store.Fresh
  dispatcher : ∀ d, σ.dispatcher d = .idle
  log : σ.log = []

/-- The states reached by any interleaving. -/
def DispatchReachable (sha256 : List UInt8 → String) (σ : Dispatch) : Prop :=
  Runs Dispatch.Fresh (fun σ (a : DispatchStep) => a.exec sha256 σ) (fun _ _ => True) σ

/-- A claim finds the row that was peeked, or none. -/
def DispatchStep.ClaimsPeeked (σ : Dispatch) : DispatchStep → Prop
  | .claim d _ _ => (σ.dispatcher d).Current σ.store
  | _ => True

/-! ### What the steps of the store do to a status -/

section Status

variable {s s' : Store} {life : Nat}

theorem Store.status_some {st : TaskStatus} (h : s.status life = some st) :
    ∃ r ∈ s.tasks, r.inst = life ∧ r.status = st := by
  obtain ⟨r, hr, hst⟩ := Option.map_eq_some_iff.1 h
  exact ⟨r, List.mem_of_find?_eq_some hr, by simpa using List.find?_some hr, hst⟩

theorem Store.Schema.status_eq (h : s.Schema) {r : TaskRow} (hr : r ∈ s.tasks) : s.status r.inst = some r.status := by
  rw [Store.status, h.find_inst hr]
  rfl

theorem Store.becamePending_self : s.becamePending s = [] := by
  simp [Store.becamePending]

theorem Store.mem_becamePending (hafter : s'.status life = some .pending)
    (hbefore : s.status life ≠ some .pending) : life ∈ s.becamePending s' := by
  obtain ⟨r, hr, hlife, _⟩ := Store.status_some hafter
  refine List.mem_filter.2 ⟨List.mem_map.2 ⟨r, hr, hlife⟩, ?_⟩
  rw [hafter]
  simpa using hbefore

/-- The row was not pending before a step from `s` if it runs after it. -/
private def RanBefore (s : Store) (r : TaskRow) : Prop :=
  r.status = .running → ∃ r₀ ∈ s.tasks, r₀.inst = r.inst ∧ r₀.status ≠ .pending

private theorem ranBefore_of {s : Store} {r : TaskRow} (h : r.status ≠ .running) : RanBefore s r :=
  fun hrun => absurd hrun h

private theorem ranBefore_submission {sha256 : List UInt8 → String} {sub : TaskSubmission} {now : Int} {σ : Store}
    (hσ : σ.Rows (RanBefore s)) : sub.KeepsRows sha256 (RanBefore s) now σ where
  pending _ _ := ranBefore_of nofun
  paused _ _ := ranBefore_of nofun
  blocked := ranBefore_of nofun
  upgraded r hr _ _ _ := hσ r hr
  requeued r hr _ _ := hσ r hr
  superseded _ _ _ _ _ := ranBefore_of nofun
  replaced _ _ _ _ _ := ranBefore_of nofun

private theorem ranBefore_completion (tasks : List TaskRecord) (now : Int) (σ : Store) :
    CompletionKeepsRows (RanBefore s) tasks now σ where
  reset r _ _ _ inst _ := ranBefore_of nofun
  next task _ interval _ id inst _ := by
    split
    · exact ranBefore_of nofun
    · exact ranBefore_of nofun

private theorem ranBefore_freeing (now : Int) (σ : Store) : FreeingKeepsRows (RanBefore s) now σ := by
  intro r _ hb
  rw [Store.freeRow]
  split
  · exact ranBefore_of (by rintro ⟨⟩)
  · exact ranBefore_of (by rintro ⟨⟩)

private theorem ranBefore_update {u : RowUpdate} {r : TaskRow} (hr : r ∈ s.tasks) (hsel : u.selects r = true) :
    RanBefore s (u.change r) := by
  have hsame : r.status ≠ .pending → RanBefore s (u.change r) := by
    intro hst _
    refine ⟨r, hr, ?_, hst⟩
    cases u <;> rfl
  by_cases hst : r.status = .pending
  · cases u with
    | setRunningForFinalize id now =>
      simp only [RowUpdate.selects, Bool.and_eq_true, beq_iff_eq] at hsel
      rw [hst] at hsel
      cases hsel.2
    | incrementRetry id error => exact ranBefore_of (by simp [RowUpdate.change, hst])
    | setRecurringPaused id paused => exact ranBefore_of (by simp [RowUpdate.change, hst])
    | setRunAfter id runAfter => exact ranBefore_of (by simp [RowUpdate.change, hst])
    | clearBit sel reason => exact ranBefore_of (by simp [RowUpdate.change, hst])
    | addGroupBit group => exact ranBefore_of (by simp [RowUpdate.change, hst])
    | requeue id => exact ranBefore_of nofun
    | requeueForRetry id error delay now => exact ranBefore_of nofun
    | pause id reason now => exact ranBefore_of nofun
    | resume id now => exact ranBefore_of nofun
    | resumeSole sel reason now => exact ranBefore_of nofun
    | pausePendingInGroup group now => exact ranBefore_of nofun
    | pausePendingByTypePrefix like now => exact ranBefore_of nofun
    | setWaiting id memo => exact ranBefore_of nofun
  · exact hsame hst

/-- Only the claims turn a pending row into a running one. -/
theorem Action.not_claims (sha256 : List UInt8 → String) (hs : s.Schema) {a : Action} (ha : a.isClaim = false)
    (life : Nat) : ¬ (s.status life = some .pending ∧ (a.exec sha256 s).status life = some .running) := by
  rintro ⟨hbefore, hafter⟩
  have hrows : (a.exec sha256 s).Rows (RanBefore s) := by
    have hstart : s.Rows (RanBefore s) := by
      intro r hr hrun
      refine ⟨r, hr, rfl, ?_⟩
      rw [hrun]
      nofun
    refine a.rows_exec sha256 hs hstart ?_
    cases a with
    | claimTask id now => cases ha
    | popById id now => cases ha
    | popNextBatch limit aging now => cases ha
    | update u => exact fun r hr hsel => ranBefore_update hr hsel
    | submitDirect sub now => exact ranBefore_submission hstart
    | processSubmitBatch skipRequeue batch =>
      exact Along.of_forall fun σ m hσ => ⟨ranBefore_submission hσ.rows, fun _ => ranBefore_of nofun⟩
    | submitChunk skipRequeue last now chunk => exact Along.of_forall fun σ item hσ _ => ranBefore_submission hσ.rows
    | complete id metrics now => exact fun row _ => ranBefore_completion _ now s
    | completeWithRecord task metrics now => exact ranBefore_completion _ now s
    | completeBatch items now => exact ⟨ranBefore_completion _ now s, ranBefore_freeing now s⟩
    | resolveDependents id now => exact ranBefore_freeing now s
    | failDependents id now => exact ranBefore_freeing now s
    | fail id error retryable maxRetries metrics backoff now => exact fun r _ _ => ranBefore_of nofun
    | failWithRecord task error retryable maxRetries metrics backoff now => exact fun _ r _ _ => ranBefore_of nofun
    | recoverRunning now =>
      refine ⟨fun r _ _ => ranBefore_of nofun, fun r _ hst _ => ranBefore_of ?_, fun r _ _ _ _ => ranBefore_of nofun⟩
      show r.status ≠ .running
      rw [hst]
      nofun
    | failBatch items now => trivial
    | cancelToHistory id now => trivial
    | cancelToHistoryWithRecord task now => trivial
    | cancelChildren parent read now => trivial
    | expireTasks now => trivial
    | expireSingle id now => trivial
    | pauseGroupState group resumeAt now => trivial
    | resumeGroupState group => trivial
    | delete id => trivial
    | deleteHistory historyId => trivial
    | pruneHistoryByAge days now => trivial
    | pruneHistoryByCount keep => trivial
    | maybePrune now => trivial
  obtain ⟨r, hr, hlife, hrun⟩ := Store.status_some hafter
  obtain ⟨r₀, hr₀, hlife₀, hst⟩ := hrows r hr hrun
  rw [← hlife, ← hlife₀, hs.status_eq hr₀] at hbefore
  exact hst (Option.some.inj hbefore)

/-- The rows that an `UPDATE` of the claims selects are those that go from pending to running. -/
theorem Store.Schema.mem_claimed (h : s.Schema) (h' : s'.Schema) {p : TaskRow → Bool} {now : Int}
    (hp : ∀ r ∈ s.tasks, p r = true → r.status = .pending)
    (ht : s'.tasks = (s.updateTasks p (TaskRow.claim now)).tasks) (life : Nat) :
    life ∈ (s.tasks.filter p).map (·.inst) ↔ s.status life = some .pending ∧ s'.status life = some .running := by
  constructor
  · intro hlife
    obtain ⟨r, hr, rfl⟩ := List.mem_map.1 hlife
    obtain ⟨hr, hpr⟩ := List.mem_filter.1 hr
    have hmem : r.claim now ∈ s'.tasks := by
      rw [ht]
      exact List.mem_map.2 ⟨r, hr, by rw [if_pos hpr]⟩
    refine ⟨?_, h'.status_eq hmem⟩
    rw [h.status_eq hr, hp r hr hpr]
  · rintro ⟨hbefore, hafter⟩
    obtain ⟨r', hr', hlife, hrun⟩ := Store.status_some hafter
    rw [ht] at hr'
    obtain ⟨r, hr, rfl⟩ := List.mem_map.1 hr'
    by_cases hpr : p r = true
    · rw [if_pos hpr] at hlife
      exact List.mem_map.2 ⟨r, List.mem_filter.2 ⟨hr, hpr⟩, hlife⟩
    · rw [if_neg hpr] at hlife hrun
      rw [← hlife, h.status_eq hr, hrun] at hbefore
      cases hbefore

end Status

/-! ### What a step of the system does -/

/-- A step of dispatcher `d`: the claims it reports are the rows it has moved from pending to running, and what it
spawns it has claimed, if a claim finds what was peeked. -/
private structure Dispatch.Moves (σ σ' : Dispatch) (peeked : Prop) (d : Nat) (claimed spawned : List Nat) : Prop where
  log : σ'.log = claimed.map (Event.claim d) ++ (spawned.map (Event.spawn d) ++
    ((σ.store.becamePending σ'.store).map Event.pending ++ σ.log))
  nodup : claimed.Nodup
  mem_claimed : ∀ life, life ∈ claimed ↔ σ.store.status life = some .pending ∧ σ'.store.status life = some .running
  others : ∀ d', d' ≠ d → σ'.dispatcher d' = σ.dispatcher d'
  holds : peeked → ∀ life, (σ'.dispatcher d).holds.count life + spawned.count life ≤
    (σ.dispatcher d).holds.count life + claimed.count life

section Moves

variable {σ : Dispatch} {d : Nat} {next : Dispatcher} {s : Store} {peeked : Prop}

private theorem set_dispatcher (events : List Event) : (σ.set d next s events).dispatcher d = next :=
  Function.update_self ..

private theorem not_pending_running (s : Store) (life : Nat) :
    ¬ (s.status life = some .pending ∧ s.status life = some .running) := by
  rintro ⟨hp, hr⟩
  rw [hp] at hr
  cases hr

private theorem moves_refl (σ : Dispatch) (d : Nat) : σ.Moves σ peeked d [] [] where
  log := by simp [Store.becamePending_self]
  nodup := List.nodup_nil
  mem_claimed life := iff_of_false List.not_mem_nil (not_pending_running σ.store life)
  others _ _ := rfl
  holds _ _ := Nat.le_refl _

/-- A step that claims and spawns nothing. -/
private theorem moves_quiet
    (hquiet : ∀ life, ¬ (σ.store.status life = some .pending ∧ s.status life = some .running))
    (hholds : next.holds = [] ∨ next.holds = (σ.dispatcher d).holds) :
    σ.Moves (σ.set d next s []) peeked d [] [] where
  log := by simp [Dispatch.set]
  nodup := List.nodup_nil
  mem_claimed life := iff_of_false List.not_mem_nil (hquiet life)
  others d' hd := Function.update_of_ne hd _ _
  holds _ life := by
    rw [set_dispatcher]
    rcases hholds with h | h
    · simp [h]
    · simp [h]

private theorem moves_claim {claimed : List Nat} (hnodup : claimed.Nodup)
    (hmem : ∀ life, life ∈ claimed ↔ σ.store.status life = some .pending ∧ s.status life = some .running)
    (hholds : peeked → ∀ life, next.holds.count life ≤ (σ.dispatcher d).holds.count life + claimed.count life) :
    σ.Moves (σ.set d next s (claimed.map (Event.claim d))) peeked d claimed [] where
  log := by simp [Dispatch.set]
  nodup := hnodup
  mem_claimed := hmem
  others d' hd := Function.update_of_ne hd _ _
  holds hpeeked life := by
    rw [set_dispatcher]
    simpa using hholds hpeeked life

/-- Without claims the store may also lose the record it spawns or fails. -/
private theorem moves_take {task : TaskRecord} {tasks : List TaskRecord} {spawned : List Nat}
    (hd : σ.dispatcher d = .claimed (task :: tasks)) (hspawned : spawned = [] ∨ spawned = [task.inst])
    (hquiet : ∀ life, ¬ (σ.store.status life = some .pending ∧ s.status life = some .running)) :
    σ.Moves (σ.set d (.claimed tasks) s (spawned.map (Event.spawn d))) peeked d [] spawned where
  log := by simp [Dispatch.set]
  nodup := List.nodup_nil
  mem_claimed life := iff_of_false List.not_mem_nil (hquiet life)
  others d' hd := Function.update_of_ne hd _ _
  holds _ life := by
    rw [set_dispatcher, hd]
    rcases hspawned with rfl | rfl
    · simp only [Dispatcher.holds, List.map_cons, List.count_cons, List.count_nil]
      omega
    · simp only [Dispatcher.holds, List.map_cons, List.count_cons, List.count_nil]
      omega

end Moves

private theorem populateTags_inst (s : Store) (task : TaskRecord) : (s.populateTags task).inst = task.inst := by
  obtain ⟨tags, htags⟩ := s.populateTags_eq task
  rw [htags]

section Claims

variable {s s' : Store} {now : Int}

/-- Rows that are claimed, and the caller that is told so. -/
private structure Claims (s s' : Store) (lives : List Nat) : Prop where
  nodup : lives.Nodup
  mem : ∀ life, life ∈ lives ↔ s.status life = some .pending ∧ s'.status life = some .running

private theorem claims_update (hs : s.Schema) {p : TaskRow → Bool}
    (hp : ∀ r ∈ s.tasks, p r = true → r.status = .pending) (hs' : s'.Schema)
    (ht : s'.tasks = (s.updateTasks p (TaskRow.claim now)).tasks) :
    Claims s s' ((s.tasks.filter p).map (·.inst)) :=
  ⟨(List.filter_sublist.map _).nodup hs.insts, hs.mem_claimed hs' hp ht⟩

private theorem claims_none : Claims s s [] :=
  ⟨List.nodup_nil, fun life => iff_of_false List.not_mem_nil (not_pending_running s life)⟩

private theorem byId_pending (id : Int) :
    ∀ r ∈ s.tasks, (r.id == id && r.status == .pending) = true → r.status = .pending := by
  intro r _ hp
  rw [Bool.and_eq_true, beq_iff_eq, beq_iff_eq] at hp
  exact hp.2

/-- Of the rows with one id that are pending there is at most one. -/
private theorem filter_byId (hs : s.Schema) (id : Int) :
    (s.tasks.filter fun r => r.id == id && r.status == .pending) = [] ∨
      ∃ r, (s.tasks.filter fun r => r.id == id && r.status == .pending) = [r] ∧ r.id = id := by
  have hnodup : ((s.tasks.filter fun r => r.id == id && r.status == .pending).map (·.id)).Nodup :=
    (List.filter_sublist.map _).nodup hs.ids
  have hid : ∀ r ∈ s.tasks.filter fun r => r.id == id && r.status == .pending, r.id = id := by
    intro r hr
    have hp := (List.mem_filter.1 hr).2
    rw [Bool.and_eq_true, beq_iff_eq] at hp
    exact hp.1
  match hrows : s.tasks.filter fun r => r.id == id && r.status == .pending with
  | [] => exact .inl hrows
  | [r] =>
    rw [hrows] at hid
    exact .inr ⟨r, hrows, hid r (List.mem_singleton_self r)⟩
  | r :: r' :: rows =>
    rw [hrows] at hnodup hid
    have heq : r.id = r'.id := by rw [hid r (by simp), hid r' (by simp)]
    simp [heq] at hnodup

/-- `pop_next` returns every row it claims. -/
private theorem popFirst_one (hs : s.Schema) (aging : Option AgingParams) (now : Int) :
    (s.tasks.filter fun r => (s.nextIds 1 aging now).contains r.id).length ≤ 1 := by
  have hnodup : ((s.tasks.filter fun r => (s.nextIds 1 aging now).contains r.id).map (·.id)).Nodup :=
    (List.filter_sublist.map _).nodup hs.ids
  have hsub : (s.tasks.filter fun r => (s.nextIds 1 aging now).contains r.id).map (·.id) ⊆ s.nextIds 1 aging now := by
    intro id hid
    obtain ⟨r, hr, rfl⟩ := List.mem_map.1 hid
    exact List.contains_iff_mem.1 (List.mem_filter.1 hr).2
  have hle := (List.subperm_of_subset hnodup hsub).length_le
  have hone : (s.nextIds 1 aging now).length ≤ 1 := by
    rw [Store.nextIds, List.length_map]
    exact List.length_take_le ..
  rw [List.length_map] at hle
  omega

private theorem head?_toList {α : Type} {l : List α} (h : l.length ≤ 1) : l.head?.toList = l := by
  match l, h with
  | [], _ => rfl
  | [x], _ => rfl

/-- The records that `pop_next_batch` returns are those of the rows it has claimed. -/
private theorem popNextBatch_claims (hs : s.Schema) {limit : Nat} {aging : Option AgingParams}
    {tasks : List TaskRecord} (h : popNextBatch limit aging now s = (.ok tasks, s')) :
    Claims s s' (tasks.map (·.inst)) := by
  have hs' : s'.Schema := by
    have hsteps := (Action.popNextBatch limit aging now).steps (fun _ => "") s
    rw [Action.exec, h] at hsteps
    exact hs.steps hsteps
  have hp : ∀ r ∈ s.tasks, (s.nextIds limit aging now).contains r.id = true → r.status = .pending := by
    intro r hr hid
    have hel := hs.eligible_of_nextIds hr (List.contains_iff_mem.1 hid)
    simp only [TaskRow.eligible, TaskRow.due, Bool.and_eq_true, beq_iff_eq] at hel
    exact hel.1.1
  have hlives : ∀ rows : List TaskRow,
      (rows.map (TaskRow.claim now)).map (fun r => (rowToTaskRecord r).inst) = rows.map (·.inst) := by
    intro rows
    rw [List.map_map]
    rfl
  obtain _ | _ | limit := limit
  · cases h
    exact claims_none
  · have hlen := popFirst_one hs aging now
    obtain ⟨hok, rfl⟩ := Prod.mk.inj h
    obtain rfl := Except.ok.inj hok
    have hclaims := claims_update hs hp hs' rfl
    show Claims s _ ((((s.tasks.filter fun r => (s.nextIds 1 aging now).contains r.id).map (TaskRow.claim now)).map
      rowToTaskRecord).head?.toList.map (·.inst))
    rw [head?_toList (by simpa using hlen), List.map_map]
    rw [← hlives] at hclaims
    exact hclaims
  · obtain ⟨hok, rfl⟩ := Prod.mk.inj h
    obtain rfl := Except.ok.inj hok
    have hclaims := claims_update hs hp hs' rfl
    rw [List.map_map]
    rw [← hlives] at hclaims
    exact hclaims

private theorem popById_claims (hs : s.Schema) {id : Int} {task : Option TaskRecord}
    (h : Taskmill.popById id now s = (.ok task, s')) : Claims s s' (task.toList.map (·.inst)) := by
  have hs' : s'.Schema := by
    have hsteps := (Action.popById id now).steps (fun _ => "") s
    rw [Action.exec, h] at hsteps
    exact hs.steps hsteps
  obtain ⟨hok, rfl⟩ := Prod.mk.inj h
  obtain rfl := Except.ok.inj hok
  have hclaims := claims_update hs (byId_pending id) hs' rfl
  rcases filter_byId hs id with hrows | ⟨r, hrows, _⟩
  · rw [hrows] at hclaims ⊢
    exact hclaims
  · rw [hrows] at hclaims ⊢
    rw [List.map_singleton, List.head?_cons, Option.map_some, Option.toList_some, List.map_singleton,
      populateTags_inst]
    exact hclaims

private theorem claimTask_claims (hs : s.Schema) {id : Int} {claimed : Bool}
    (h : claimTask id now s = (.ok claimed, s')) :
    Claims s s' (if claimed then (s.taskById id).toList.map (·.inst) else []) ∧
      (claimed = true → ∃ r, s.taskById id = some r ∧ r.status = .pending) := by
  have hs' : s'.Schema := by
    have hsteps := (Action.claimTask id now).steps (fun _ => "") s
    rw [Action.exec, h] at hsteps
    exact hs.steps hsteps
  obtain ⟨hok, rfl⟩ := Prod.mk.inj h
  obtain rfl := Except.ok.inj hok
  have hclaims := claims_update hs (byId_pending id) hs' rfl
  rcases filter_byId hs id with hrows | ⟨r, hrows, hid⟩
  · rw [hrows] at hclaims ⊢
    exact ⟨hclaims, fun h => by cases h⟩
  · have hr : r ∈ s.tasks.filter fun r => r.id == id && r.status == .pending := hrows ▸ List.mem_singleton_self r
    have hbyId : s.taskById id = some r := by rw [← hid, hs.taskById_eq (List.mem_filter.1 hr).1]
    rw [hrows] at hclaims ⊢
    rw [hbyId]
    exact ⟨hclaims, fun _ => ⟨r, rfl, byId_pending id r (List.mem_filter.1 hr).1 (List.mem_filter.1 hr).2⟩⟩

end Claims

/-- Every step is one of a dispatcher `d` that claims and spawns as `Dispatch.Moves` says. -/
private theorem exec_moves (sha256 : List UInt8 → String) {σ : Dispatch} (hs : σ.store.Schema) (st : DispatchStep) :
    (st.exec sha256 σ).store.Schema ∧
      ∃ d claimed spawned, σ.Moves (st.exec sha256 σ) (st.ClaimsPeeked σ) d claimed spawned := by
  -- a step that is no claim
  have hquiet : ∀ {peeked : Prop} {d : Nat} {next : Dispatcher} (a : Action), a.isClaim = false →
      next.holds = [] ∨ next.holds = (σ.dispatcher d).holds →
      (σ.set d next (a.exec sha256 σ.store) []).store.Schema ∧
        ∃ d' claimed spawned, σ.Moves (σ.set d next (a.exec sha256 σ.store) []) peeked d' claimed spawned := by
    intro peeked d next a ha hnext
    exact ⟨hs.steps (a.steps sha256 σ.store), d, [], [], moves_quiet (a.not_claims sha256 hs ha) hnext⟩
  -- a step that does nothing or leaves the store alone
  have hstay : ∀ {peeked : Prop}, σ.store.Schema ∧ ∃ d claimed spawned, σ.Moves σ peeked d claimed spawned :=
    ⟨hs, 0, [], [], moves_refl σ 0⟩
  have hread : ∀ {peeked : Prop} {d : Nat} {next : Dispatcher},
      next.holds = [] ∨ next.holds = (σ.dispatcher d).holds →
      (σ.set d next σ.store []).store.Schema ∧
        ∃ d' claimed spawned, σ.Moves (σ.set d next σ.store []) peeked d' claimed spawned := by
    intro peeked d next hnext
    exact ⟨hs, d, [], [], moves_quiet (not_pending_running σ.store) hnext⟩
  cases st with
  | store a ha => exact hquiet a ha (.inr rfl)
  | peek d query aging now =>
    rw [DispatchStep.exec]
    split
    · exact hread (.inl rfl)
    · exact hstay
  | populateTags d =>
    rw [DispatchStep.exec]
    split
    · exact hread (.inl rfl)
    · rename_i tasks hd
      refine hread (.inr ?_)
      rw [hd]
      simp [Dispatcher.holds, populateTags_inst]
    · exact hstay
  | expire d now =>
    rw [DispatchStep.exec]
    split
    · rename_i candidate hd
      split
      · exact hquiet (.expireSingle candidate.id now) rfl (.inl rfl)
      · exact hstay
    · exact hstay
  | gate d admission now =>
    rw [DispatchStep.exec]
    split
    · rename_i candidate hd
      split
      · exact hstay
      · cases admission with
        | admitted => exact hread (.inl rfl)
        | deny => exact hread (.inl rfl)
        | rateLimited runAfter => exact hquiet (.update (.setRunAfter candidate.id runAfter)) rfl (.inl rfl)
    · exact hstay
  | claim d now readings =>
    rw [DispatchStep.exec]
    split
    · rename_i candidate hd
      have hschema := hs.steps ((Action.claimTask candidate.id now).steps sha256 σ.store)
      rw [Action.exec] at hschema
      rcases hclaim : claimTask candidate.id now σ.store with ⟨e | claimed, s⟩
      · cases hclaim
      · rw [hclaim] at hschema
        obtain ⟨hclaims, hfound⟩ := claimTask_claims hs hclaim
        cases claimed with
        | true =>
          obtain ⟨r, hbyId, hst⟩ := hfound rfl
          rw [hbyId] at hclaims
          dsimp only
          rw [hbyId]
          refine ⟨hschema, d, [r.inst], [], moves_claim hclaims.nodup hclaims.mem fun hpeeked life => ?_⟩
          -- the record that is spawned is that of the candidate
          have hcurrent : (σ.dispatcher d).Current σ.store := hpeeked
          rw [hd] at hcurrent
          have hlife : r.inst = candidate.inst :=
            hcurrent r (List.mem_of_find?_eq_some hbyId) ⟨by simpa using List.find?_some hbyId, hst⟩
          simp [Dispatcher.holds, TaskRecord.patched, hlife]
        | false =>
          refine ⟨hschema, d, [], [], moves_claim hclaims.nodup hclaims.mem fun _ life => ?_⟩
          simp [Dispatcher.holds, Dispatcher.idle]
    · exact hstay
  | pop d limit aging now =>
    rw [DispatchStep.exec]
    split
    · rename_i hd
      have hschema := hs.steps ((Action.popNextBatch limit aging now).steps sha256 σ.store)
      rw [Action.exec] at hschema
      rcases hpop : popNextBatch limit aging now σ.store with ⟨e | tasks, s⟩
      · obtain _ | _ | limit := limit
        · cases hpop
        · cases hpop
        · cases hpop
      · rw [hpop] at hschema
        have hclaims := popNextBatch_claims hs hpop
        have hevents : (tasks.map fun task => Event.claim d task.inst) =
            (tasks.map (·.inst)).map (Event.claim d) := by
          rw [List.map_map]
          rfl
        dsimp only
        rw [hevents]
        refine ⟨hschema, d, tasks.map (·.inst), [], moves_claim hclaims.nodup hclaims.mem fun _ life => ?_⟩
        simp [Dispatcher.holds]
    · exact hstay
  | popById d id now =>
    have hschema := hs.steps ((Action.popById id now).steps sha256 σ.store)
    rw [Action.exec] at hschema
    rw [DispatchStep.exec]
    split
    · rename_i task s hpop
      rw [hpop] at hschema
      have hclaims := popById_claims hs hpop
      have hevents :
          (task.toList.map fun task => Event.claim d task.inst) = (task.toList.map (·.inst)).map (Event.claim d) := by
        rw [List.map_map]
        rfl
      rw [hevents]
      refine ⟨hschema, d, task.toList.map (·.inst), [], moves_claim hclaims.nodup hclaims.mem fun _ life => ?_⟩
      omega
    · rename_i e s hpop
      cases hpop
  | spawn d registered now =>
    rw [DispatchStep.exec]
    split
    · rename_i task tasks hd
      cases registered with
      | true => exact ⟨hs, d, [], [task.inst], moves_take hd (.inr rfl) (not_pending_running σ.store)⟩
      | false =>
        have hfail : ∀ life, ¬ (σ.store.status life = some .pending ∧
            (failUnregistered task now σ.store).2.status life = some .running) :=
          Action.not_claims sha256 hs (a := .failWithRecord task _ false 0 {} {} now) rfl
        have hschema := hs.steps ((Action.failWithRecord task
          s!"no executor registered for type '{task.taskType}'" false 0 {} {} now).steps sha256 σ.store)
        rw [Action.exec] at hschema
        change (failUnregistered task now σ.store).2.Schema at hschema
        rw [if_neg (by rintro ⟨⟩)]
        split
        · rename_i u s hf
          rw [hf] at hfail hschema
          exact ⟨hschema, d, [], [], moves_take hd (.inl rfl) hfail⟩
        · rename_i e s hf
          rw [hf] at hfail hschema
          exact ⟨hschema, d, [], [], moves_quiet hfail (.inl rfl)⟩
    · exact hstay
  | abort d => exact hread (.inl rfl)

/-! ### Runs -/

/-- The event reports a claim of the life. -/
def Event.claims (life : Nat) : Event → Bool
  | .claim _ i => i == life
  | _ => false

/-- The event makes the life pending. -/
def Event.pends (life : Nat) : Event → Bool
  | .pending i => i == life
  | _ => false

private theorem countP_claims (life d : Nat) (claimed : List Nat) :
    (claimed.map (Event.claim d)).countP (Event.claims life) = claimed.count life := by
  rw [List.countP_map]
  rfl

/-- The events of a step other than its claims claim nothing. -/
private theorem claims_rest {life d : Nat} {spawned pending : List Nat} :
    ∀ e ∈ spawned.map (Event.spawn d) ++ pending.map Event.pending, Event.claims life e = false := by
  intro e he
  rcases List.mem_append.1 he with he | he
  · obtain ⟨x, _, rfl⟩ := List.mem_map.1 he
    rfl
  · obtain ⟨x, _, rfl⟩ := List.mem_map.1 he
    rfl

private theorem pends_rest {life d : Nat} {spawned pending : List Nat} (hlife : life ∉ pending) :
    ∀ e ∈ spawned.map (Event.spawn d) ++ pending.map Event.pending, Event.pends life e = false := by
  intro e he
  rcases List.mem_append.1 he with he | he
  · obtain ⟨x, _, rfl⟩ := List.mem_map.1 he
    rfl
  · obtain ⟨x, hx, rfl⟩ := List.mem_map.1 he
    simp only [Event.pends, beq_eq_false_iff_ne, ne_eq]
    rintro rfl
    exact hlife hx

private theorem claims_claimed {life d : Nat} {claimed : List Nat} (hlife : life ∉ claimed) :
    ∀ e ∈ claimed.map (Event.claim d), Event.claims life e = false := by
  intro e he
  obtain ⟨x, hx, rfl⟩ := List.mem_map.1 he
  simp only [Event.claims, beq_eq_false_iff_ne, ne_eq]
  rintro rfl
  exact hlife hx

private theorem pends_claimed {life d : Nat} {claimed : List Nat} :
    ∀ e ∈ claimed.map (Event.claim d), Event.pends life e = false := by
  intro e he
  obtain ⟨x, _, rfl⟩ := List.mem_map.1 he
  rfl

/-- A row whose newest event is a claim is not pending. -/
private structure Dispatch.Ok (σ : Dispatch) : Prop where
  schema : σ.store.Schema
  exclusive : ∀ life, Exclusive (Event.claims life) (Event.pends life) σ.log
  claimed : ∀ life, held (Event.claims life) (Event.pends life) σ.log = true → σ.store.status life ≠ some .pending

/-- What a dispatcher has spawned or still holds it has claimed. -/
private def Dispatch.SpawnsClaimed (σ : Dispatch) : Prop :=
  ∀ d life, σ.log.count (.spawn d life) + (σ.dispatcher d).holds.count life ≤ σ.log.count (.claim d life)

section Invariant

variable {σ σ' : Dispatch} {peeked : Prop} {d : Nat} {claimed spawned : List Nat}

private theorem Dispatch.Moves.countP_log (h : σ.Moves σ' peeked d claimed spawned) (life : Nat) :
    σ'.log.countP (Event.claims life) = σ.log.countP (Event.claims life) +
      if σ.store.status life = some .pending ∧ σ'.store.status life = some .running then 1 else 0 := by
  have hrest : (spawned.map (Event.spawn d) ++ (σ.store.becamePending σ'.store).map Event.pending).countP
      (Event.claims life) = 0 := by
    rw [List.countP_eq_zero]
    intro e he
    simp [claims_rest e he]
  rw [h.log, ← List.append_assoc (spawned.map _), List.countP_append, List.countP_append, hrest, countP_claims]
  rw [List.Nodup.count h.nodup]
  simp only [h.mem_claimed life]
  omega

/-- While a row is pending it is not held, even by what the step reports besides its claims. -/
private theorem held_rest (hσ : σ.Ok) {life : Nat} (hp : σ.store.status life = some .pending) :
    held (Event.claims life) (Event.pends life)
      (spawned.map (Event.spawn d) ++ ((σ.store.becamePending σ'.store).map Event.pending ++ σ.log)) = false := by
  have hnew : life ∉ σ.store.becamePending σ'.store := by
    intro hlife
    have hne := (List.mem_filter.1 hlife).2
    simp [hp] at hne
  rw [← List.append_assoc, held_append_of_neutral claims_rest (pends_rest hnew)]
  cases hh : held (Event.claims life) (Event.pends life) σ.log with
  | false => rfl
  | true => exact absurd hp (hσ.claimed life hh)

private theorem Dispatch.Moves.ok (h : σ.Moves σ' peeked d claimed spawned) (hs' : σ'.store.Schema) (hσ : σ.Ok) :
    σ'.Ok where
  schema := hs'
  exclusive life := by
    have hrest : Exclusive (Event.claims life) (Event.pends life)
        (spawned.map (Event.spawn d) ++ ((σ.store.becamePending σ'.store).map Event.pending ++ σ.log)) := by
      rw [← List.append_assoc]
      exact (hσ.exclusive life).append_of_neutral claims_rest
    rw [h.log]
    refine hrest.append_once ?_ (fun hpos => ?_) pends_claimed
    · rw [countP_claims]
      exact List.nodup_iff_count_le_one.1 h.nodup life
    · rw [countP_claims, List.count_pos_iff] at hpos
      exact held_rest hσ ((h.mem_claimed life).1 hpos).1
  claimed life := by
    intro hheld hp
    have hnot : life ∉ claimed := by
      intro hlife
      have hrun := ((h.mem_claimed life).1 hlife).2
      rw [hp] at hrun
      cases hrun
    rw [h.log, held_append_of_neutral (claims_claimed hnot) pends_claimed] at hheld
    by_cases hbefore : σ.store.status life = some .pending
    · rw [held_rest hσ hbefore] at hheld
      cases hheld
    · -- the step itself has made the row pending
      have hnew : Event.pending life ∈
          spawned.map (Event.spawn d) ++ (σ.store.becamePending σ'.store).map Event.pending := by
        refine List.mem_append.2 (.inr (List.mem_map.2 ⟨life, ?_, rfl⟩))
        exact Store.mem_becamePending hp hbefore
      rw [← List.append_assoc, held_append_of_release claims_rest hnew (by simp [Event.pends])] at hheld
      cases hheld

private theorem Dispatch.Moves.spawnsClaimed (h : σ.Moves σ' peeked d claimed spawned) (hpeeked : peeked)
    (hσ : σ.SpawnsClaimed) : σ'.SpawnsClaimed := by
  intro d' life
  have hold := hσ d' life
  have hstep := h.holds hpeeked life
  rw [h.log]
  simp only [List.count_append]
  by_cases hd : d' = d
  · subst hd
    have hclaim : (claimed.map (Event.claim d')).count (Event.claim d' life) = claimed.count life :=
      List.count_map_of_injective _ _ (fun x y hxy => (Event.claim.inj hxy).2) life
    have hspawn : (spawned.map (Event.spawn d')).count (Event.spawn d' life) = spawned.count life :=
      List.count_map_of_injective _ _ (fun x y hxy => (Event.spawn.inj hxy).2) life
    have hother : (claimed.map (Event.claim d')).count (Event.spawn d' life) = 0 := by
      simp [List.count_eq_zero]
    have hpending : ((σ.store.becamePending σ'.store).map Event.pending).count (Event.spawn d' life) = 0 := by
      simp [List.count_eq_zero]
    omega
  · have hclaim : (claimed.map (Event.claim d)).count (Event.spawn d' life) = 0 := by
      simp [List.count_eq_zero]
    have hspawn : (spawned.map (Event.spawn d)).count (Event.spawn d' life) = 0 := by
      simp [List.count_eq_zero, Ne.symm hd]
    have hpending : ((σ.store.becamePending σ'.store).map Event.pending).count (Event.spawn d' life) = 0 := by
      simp [List.count_eq_zero]
    rw [h.others d' hd]
    omega

end Invariant

private theorem ok_of_fresh {σ : Dispatch} (hfresh : σ.Fresh) : σ.Ok where
  schema := hfresh.store.schema
  exclusive life := by
    rw [hfresh.log]
    trivial
  claimed life hheld := by
    rw [hfresh.log] at hheld
    cases hheld

private theorem spawnsClaimed_of_fresh {σ : Dispatch} (hfresh : σ.Fresh) : σ.SpawnsClaimed := by
  intro d life
  rw [hfresh.log, hfresh.dispatcher]
  simp [Dispatcher.holds, Dispatcher.idle]

/-- Claims are exclusive: in every run, a step reports as many claims of a row, one or none, as it has moved it from
pending to running, and between two claims of a row it has become pending again; and in a run whose claims find what
was peeked, a dispatcher spawns no more executions of a row than it has claimed it. -/
theorem claims_exclusive (sha256 : List UInt8 → String) (σ : Dispatch) :
    (DispatchReachable sha256 σ →
      (∀ (st : DispatchStep) (life : Nat),
        (st.exec sha256 σ).log.countP (Event.claims life) = σ.log.countP (Event.claims life) +
          if σ.store.status life = some .pending ∧
            (st.exec sha256 σ).store.status life = some .running then 1 else 0) ∧
      ∀ (life d d' : Nat) (later between earlier : List Event),
        σ.log = later ++ .claim d' life :: (between ++ .claim d life :: earlier) → .pending life ∈ between) ∧
    (Runs Dispatch.Fresh (fun σ (st : DispatchStep) => st.exec sha256 σ) (fun σ st => st.ClaimsPeeked σ) σ →
      ∀ d life, σ.log.count (.spawn d life) ≤ σ.log.count (.claim d life)) := by
  constructor
  · intro hrun
    have hσ : σ.Ok := by
      refine Runs.invariant (I := Dispatch.Ok) hrun (fun σ hfresh => ok_of_fresh hfresh) fun σ st hσ _ => ?_
      obtain ⟨hs', d, claimed, spawned, hmoves⟩ := exec_moves sha256 hσ.schema st
      exact hmoves.ok hs' hσ
    refine ⟨fun st life => ?_, fun life d d' later between earlier hlog => ?_⟩
    · obtain ⟨_, d, claimed, spawned, hmoves⟩ := exec_moves sha256 hσ.schema st
      exact hmoves.countP_log life
    · have hex := hσ.exclusive life
      rw [hlog] at hex
      obtain ⟨e, he, hpend⟩ := hex.release_between (by simp [Event.claims]) (by simp [Event.claims])
      cases e with
      | claim d i => cases hpend
      | spawn d i => cases hpend
      | pending i =>
        obtain rfl : i = life := by simpa [Event.pends] using hpend
        exact he
  · intro hrun
    have hσ : σ.Ok ∧ σ.SpawnsClaimed := by
      refine Runs.invariant (I := fun σ => σ.Ok ∧ σ.SpawnsClaimed) hrun
        (fun σ hfresh => ⟨ok_of_fresh hfresh, spawnsClaimed_of_fresh hfresh⟩) fun σ st hσ hpeeked => ?_
      obtain ⟨hs', d, claimed, spawned, hmoves⟩ := exec_moves sha256 hσ.1.schema st
      exact ⟨hmoves.ok hs' hσ.1, hmoves.spawnsClaimed hpeeked hσ.2⟩
    intro d life
    have hle := hσ.2 d life
    omega

private def newDispatch : Dispatch := ⟨openMemory, fun _ => .idle, []⟩

private theorem newDispatch_fresh : newDispatch.Fresh := ⟨openMemory_fresh, fun _ => rfl, rfl⟩

/-- Two dispatchers peek the same task and are both admitted; the second one claims it only after it was requeued. -/
private def racingRun : List DispatchStep :=
  [.store (.submitDirect (.new "a") 0) rfl, .peek 0 .next none 0, .peek 1 .next none 0, .gate 0 .admitted 0,
    .gate 1 .admitted 0, .claim 1 0 ⟨1, 1⟩, .claim 0 0 ⟨1, 1⟩, .spawn 0 true 0, .spawn 1 true 0,
    .store (.update (.requeue 1)) rfl, .pop 0 2 none 0, .spawn 0 true 0]

private def racing : Dispatch := racingRun.foldl (fun σ a => a.exec sampleSha256 σ) newDispatch

private theorem claimsPeeked_of_current {σ : Dispatch} {d : Nat} {now : Int} {readings : Readings}
    (h : (σ.dispatcher d).Current σ.store) : (DispatchStep.claim d now readings).ClaimsPeeked σ := h

theorem racing_exclusive :
    racing.log = [.spawn 0 0, .claim 0 0, .pending 0, .spawn 1 0, .claim 1 0, .pending 0] ∧
    ((∀ (st : DispatchStep) (life : Nat),
        (st.exec sampleSha256 racing).log.countP (Event.claims life) = racing.log.countP (Event.claims life) +
          if racing.store.status life = some .pending ∧
            (st.exec sampleSha256 racing).store.status life = some .running
          then 1 else 0) ∧
      ∀ (life d d' : Nat) (later between earlier : List Event),
        racing.log = later ++ .claim d' life :: (between ++ .claim d life :: earlier) → .pending life ∈ between) ∧
    ∀ d life, racing.log.count (.spawn d life) ≤ racing.log.count (.claim d life) := by
  refine ⟨by decide +kernel, (claims_exclusive sampleSha256 racing).1 ?_, (claims_exclusive sampleSha256 racing).2 ?_⟩
  · exact Runs.list (.start newDispatch_fresh) racingRun (Along.of_forall fun _ _ => trivial)
  · refine Runs.list (.start newDispatch_fresh) racingRun ?_
    refine ⟨trivial, trivial, trivial, trivial, trivial, ?_, ?_, trivial, trivial, trivial, trivial, trivial, trivial⟩
    · exact claimsPeeked_of_current (by decide +kernel)
    · exact claimsPeeked_of_current (by decide +kernel)

/-- A task is cancelled between its admission and its claim, and its id goes to another task. -/
private def replacedRun : List DispatchStep :=
  [.store (.submitDirect (.new "a") 0) rfl, .peek 0 .next none 0, .gate 0 .admitted 0,
    .store (.cancelToHistory 1 1) rfl, .store (.submitDirect (.new "b") 2) rfl, .claim 0 3 ⟨3, 3⟩, .spawn 0 true 3]

private def replaced : Dispatch := replacedRun.foldl (fun σ a => a.exec sampleSha256 σ) newDispatch

/-- The second task is claimed, and the first one is spawned. -/
theorem replaced_candidate_spawned :
    DispatchReachable sampleSha256 replaced ∧
    replaced.log = [.spawn 0 0, .claim 0 1, .pending 1, .pending 0] ∧
    ¬ ∀ d life, replaced.log.count (.spawn d life) ≤ replaced.log.count (.claim d life) := by
  refine ⟨?_, by decide +kernel, fun hspawned => absurd (hspawned 0 0) (by decide +kernel)⟩
  exact Runs.list (.start newDispatch_fresh) replacedRun (Along.of_forall fun _ _ => trivial)

end Taskmill
