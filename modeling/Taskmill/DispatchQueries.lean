import Taskmill.Aging
import Taskmill.Scheduler.Queue

/-!
# The dispatch queries

`peek_next`, `pop_next` and `pop_next_batch` of `src/store/lifecycle/transitions.rs`, and `peek_next_in_group`,
`peek_next_ungrouped` and `peek_next_urgent` of `src/store/query/scheduling.rs`.  Each has a statement of its own
with the same `ORDER BY`, and differs in what it selects from.

They all return the first row of what they select from (`Store.Picks`), and a batch claims what as many single pops
would have claimed (`popNextBatch_eq_popNextTimes`).
-/

namespace Taskmill

open Transact

/-! ### The other three queries -/

/-- `peek_next_in_group` -/
def Store.peekNextInGroup (s : Store) (groupKey : String) (aging : Option AgingParams) (now : Int) :
    Option TaskRecord :=
  (s.ordered aging fun r => r.due now && r.groupKey == some groupKey).head?.map rowToTaskRecord

/-- `peek_next_ungrouped` -/
def Store.peekNextUngrouped (s : Store) (aging : Option AgingParams) (now : Int) : Option TaskRecord :=
  (s.ordered aging fun r => r.due now && r.groupKey == none).head?.map rowToTaskRecord

/-- `peek_next_urgent`; without aging no task is urgent. -/
def Store.peekNextUrgent (s : Store) (threshold : Priority) (aging : Option AgingParams) (now : Int) :
    Option TaskRecord :=
  match aging with
  | none => none
  | some ap =>
    (s.ordered (some ap) fun r => r.due now && decide (r.rank (some ap) ≤ threshold.toNat)).head?.map rowToTaskRecord

/-- `n` calls of `pop_next`, one after the other. -/
def popNextTimes (aging : Option AgingParams) (now : Int) : Nat → Sql (List TaskRecord)
  | 0 => pure []
  | n + 1 => do
    let record ← popNext aging now
    let records ← popNextTimes aging now n
    pure (record.toList ++ records)

/-! ### The least row -/

/-- `r` is the first of the rows that meet `p`. -/
structure Store.IsFirst (s : Store) (aging : Option AgingParams) (p : TaskRow → Bool) (r : TaskRow) : Prop where
  mem : r ∈ s.tasks
  selected : p r = true
  least : ∀ x ∈ s.tasks, p x = true → r.before aging x

/-- A query returns the first of the rows that meet `p`, or there is none. -/
def Store.Picks (s : Store) (aging : Option AgingParams) (p : TaskRow → Bool) : Option TaskRecord → Prop
  | none => ∀ r ∈ s.tasks, p r = false
  | some record => ∃ r, s.IsFirst aging p r ∧ record = rowToTaskRecord r

/-- `pop_next` claims the first of the eligible rows, and no other, or there is none and it leaves the store alone. -/
def Store.Pops (s : Store) (aging : Option AgingParams) (now : Int) : Option TaskRecord → Store → Prop
  | none, s' => (∀ r ∈ s.tasks, r.eligible now = false) ∧ s' = s
  | some record, s' => ∃ r, s.IsFirst aging (·.eligible now) r ∧ record = rowToTaskRecord (r.claim now) ∧
      s' = (s.updateTasks (·.id == r.id) (TaskRow.claim now)).noteRunning true

section Queue

variable {s s' : Store} {aging : Option AgingParams} {p : TaskRow → Bool} {r : TaskRow}
    {queue : List TaskRow} {now : Int}
  {record : Option TaskRecord}

theorem Store.ordered_eq_nil : s.ordered aging p = [] ↔ ∀ r ∈ s.tasks, p r = false := by
  rw [List.eq_nil_iff_forall_not_mem]
  constructor
  · intro h r hr
    have := mt Store.mem_ordered.2 (h r)
    simpa [hr] using this
  · intro h r hr
    obtain ⟨hmem, hp⟩ := Store.mem_ordered.1 hr
    rw [h r hmem] at hp
    cases hp

theorem Store.isFirst_of_ordered (hq : s.ordered aging p = r :: queue) : s.IsFirst aging p r := by
  have hmem : r ∈ s.ordered aging p := hq ▸ List.mem_cons_self
  obtain ⟨hr, hp⟩ := Store.mem_ordered.1 hmem
  refine ⟨hr, hp, fun x hx hpx => ?_⟩
  have hsorted : (r :: queue).Pairwise (TaskRow.before aging) := hq ▸ List.pairwise_insertionSort _ _
  have hx' : x ∈ s.ordered aging p := Store.mem_ordered.2 ⟨hx, hpx⟩
  rw [hq, List.mem_cons] at hx'
  rcases hx' with rfl | hx'
  · unfold TaskRow.before
    omega
  · exact (List.pairwise_cons.1 hsorted).1 x hx'

/-- What all the queries have in common. -/
theorem Store.picks_head (s : Store) (aging : Option AgingParams) (p : TaskRow → Bool) :
    s.Picks aging p ((s.ordered aging p).head?.map rowToTaskRecord) := by
  cases hq : s.ordered aging p with
  | nil => exact Store.ordered_eq_nil.1 hq
  | cons r queue => exact ⟨r, Store.isFirst_of_ordered hq, rfl⟩

/-- The rows with some ids are claimed. -/
def Store.claimIds (s : Store) (ids : List Int) (now : Int) : Store :=
  (s.updateTasks (fun r => ids.contains r.id) (TaskRow.claim now)).noteRunning !ids.isEmpty

theorem Store.claimIds_nil (s : Store) (now : Int) : s.claimIds [] now = s := by
  simp [Store.claimIds, Store.updateTasks, Store.noteRunning]

/-- The rows with the ids of the queue. -/
private theorem rows_of_queue (hs : s.Schema) (hq : ∀ r ∈ queue, r ∈ s.tasks) (hids : (queue.map (·.id)).Nodup) :
    (s.tasks.filter fun r => (queue.map (·.id)).contains r.id).Perm queue := by
  refine (List.perm_ext_iff_of_nodup ?_ (List.Nodup.of_map _ hids)).2 fun r => ?_
  · exact (List.filter_sublist.nodup (List.Nodup.of_map _ hs.ids))
  · rw [List.mem_filter, List.contains_iff_mem, List.mem_map]
    constructor
    · rintro ⟨hr, x, hx, hid⟩
      rwa [← hs.eq_of_id (hq x hx) hr hid]
    · intro hr
      exact ⟨hq r hr, r, hr, rfl⟩

theorem ordered_ids (hs : s.Schema) : ((s.ordered aging p).map (·.id)).Nodup := by
  have hperm : (s.ordered aging p).Perm (s.tasks.filter p) := List.perm_insertionSort _ _
  exact (hperm.map _).nodup_iff.2 ((List.filter_sublist.map _).nodup hs.ids)

/-- The first rows of the queue are claimed and returned, in some order. -/
theorem popFirst_eq (hs : s.Schema) (limit : Nat) (aging : Option AgingParams) (now : Int) :
    ∃ records, popFirst limit aging now s = (.ok records, s.claimIds (s.nextIds limit aging now) now) ∧
      records.Perm (((s.ordered aging (·.eligible now)).take limit).map fun r => rowToTaskRecord (r.claim now)) := by
  have hperm : (s.tasks.filter fun r => (s.nextIds limit aging now).contains r.id).Perm
      ((s.ordered aging (·.eligible now)).take limit) := by
    refine rows_of_queue hs (fun r hr => (Store.mem_ordered.1 (List.mem_of_mem_take hr)).1) ?_
    exact ((List.take_sublist _ _).map _).nodup (ordered_ids hs)
  refine ⟨_, ?_, (hperm.map fun r => rowToTaskRecord (r.claim now))⟩
  have hempty : (((s.tasks.filter fun r => (s.nextIds limit aging now).contains r.id).map
    (TaskRow.claim now)).isEmpty) =
      (s.nextIds limit aging now).isEmpty := by
    have hlen := hperm.length_eq
    rw [Bool.eq_iff_iff, List.isEmpty_iff_length_eq_zero, List.isEmpty_iff_length_eq_zero, List.length_map,
      hlen, Store.nextIds, List.length_map]
  unfold popFirst Store.claimIds
  rw [← hempty]
  show (Except.ok _, _) = _
  rw [List.map_map]
  rfl

/-- `pop_next` on an empty queue. -/
theorem popNext_empty (hs : s.Schema) (hq : s.ordered aging (·.eligible now) = []) :
    popNext aging now s = (.ok none, s) := by
  obtain ⟨records, hpop, hperm⟩ := popFirst_eq hs 1 aging now
  rw [hq] at hperm
  obtain rfl := hperm.eq_nil
  have hids : s.nextIds 1 aging now = [] := by rw [Store.nextIds, hq]; rfl
  rw [hids, Store.claimIds_nil] at hpop
  unfold popNext
  rw [Txn.bind_of_ok hpop]
  rfl

/-- `pop_next` takes the head of the queue. -/
theorem popNext_head (hs : s.Schema) (hq : s.ordered aging (·.eligible now) = r :: queue) :
    popNext aging now s = (.ok (some (rowToTaskRecord (r.claim now))), s.claimIds [r.id] now) := by
  obtain ⟨records, hpop, hperm⟩ := popFirst_eq hs 1 aging now
  rw [hq] at hperm
  obtain rfl := hperm.eq_singleton
  have hids : s.nextIds 1 aging now = [r.id] := by rw [Store.nextIds, hq]; rfl
  rw [hids] at hpop
  unfold popNext
  rw [Txn.bind_of_ok hpop]
  rfl

theorem popNext_pops (hs : s.Schema) (aging : Option AgingParams) (now : Int) :
    ∃ record s', popNext aging now s = (.ok record, s') ∧ s.Pops aging now record s' := by
  cases hq : s.ordered aging (·.eligible now) with
  | nil => exact ⟨none, s, popNext_empty hs hq, Store.ordered_eq_nil.1 hq, rfl⟩
  | cons r queue =>
    refine ⟨_, _, popNext_head hs hq, r, Store.isFirst_of_ordered hq, rfl, ?_⟩
    have hsel : s.updateTasks (fun x => [r.id].contains x.id) (TaskRow.claim now) =
        s.updateTasks (·.id == r.id) (TaskRow.claim now) :=
      Store.updateTasks_congr fun x _ => by rw [List.contains_cons, List.contains_nil, Bool.or_false]
    rw [Store.claimIds, hsel]
    rfl

/-- What is left of the queue when its head has been claimed. -/
theorem ordered_claimed (hs : s.Schema) (hq : s.ordered aging (·.eligible now) = r :: queue) :
    (s.claimIds [r.id] now).ordered aging (·.eligible now) = queue := by
  obtain ⟨front, back, hsplit⟩ := hs.split (Store.isFirst_of_ordered hq).mem
  have htasks : (s.claimIds [r.id] now).tasks = front ++ [r.claim now] ++ back := by
    have hupd := hsplit.update (p := fun x => [r.id].contains x.id) (f := TaskRow.claim now) (by simp) (by simp)
    rw [List.append_assoc]
    exact hupd
  exact Store.ordered_remove [r.claim now] hs hsplit hq htasks rfl

theorem schema_popNext (hs : s.Schema) (h : popNext aging now s = (.ok record, s')) : s'.Schema := by
  have hsteps := (Action.popNextBatch 1 aging now).steps (fun _ => "") s
  have hexec : (Action.popNextBatch 1 aging now).exec (fun _ => "") s = s' := by
    show ((popNext aging now >>= fun record => pure record.toList : Sql (List TaskRecord)) s).2 = s'
    rw [Txn.bind_of_ok h]
    rfl
  rw [hexec] at hsteps
  exact hs.steps hsteps

/-- Claiming one row and then others is claiming them together. -/
theorem claimIds_claimIds {id : Int} {ids : List Int} (hid : id ∉ ids) :
    (s.claimIds [id] now).claimIds ids now = s.claimIds (id :: ids) now := by
  have htasks : ((s.claimIds [id] now).claimIds ids now).tasks = (s.claimIds (id :: ids) now).tasks := by
    unfold Store.claimIds Store.noteRunning Store.updateTasks
    dsimp only
    rw [List.map_map]
    refine List.map_congr_left fun x _ => ?_
    simp only [Function.comp_apply, List.contains_cons, List.contains_nil, Bool.or_false]
    have hclaim : ∀ y : TaskRow, (y.claim now).id = y.id := fun _ => rfl
    by_cases hx : x.id = id
    · simp [hx, hid, hclaim]
    · simp [hx]
  unfold Store.claimIds Store.noteRunning at htasks ⊢
  unfold Store.updateTasks at htasks ⊢
  dsimp only at htasks ⊢
  rw [htasks]
  simp

/-- Single pops take the queue from its head. -/
theorem popNextTimes_eq (hs : s.Schema) (n : Nat) (aging : Option AgingParams) (now : Int) :
    popNextTimes aging now n s =
      (.ok (((s.ordered aging (·.eligible now)).take n).map fun r => rowToTaskRecord (r.claim now)),
        s.claimIds (s.nextIds n aging now) now) := by
  induction n generalizing s with
  | zero =>
    have hids : s.nextIds 0 aging now = [] := by rw [Store.nextIds, List.take_zero]; rfl
    rw [hids, Store.claimIds_nil, List.take_zero]
    rfl
  | succ n ih =>
    cases hq : s.ordered aging (·.eligible now) with
    | nil =>
      have hids : ∀ k, s.nextIds k aging now = [] := fun k => by rw [Store.nextIds, hq, List.take_nil]; rfl
      unfold popNextTimes
      rw [Txn.bind_of_ok (popNext_empty hs hq), Txn.bind_of_ok (ih hs), hids, hids, hq]
      simp
    | cons r queue =>
      have hpop := popNext_head hs hq
      have hrest := ih (schema_popNext hs hpop)
      have hleft := ordered_claimed hs hq
      have hnodup : ((s.ordered aging (·.eligible now)).map (·.id)).Nodup := ordered_ids hs
      rw [hq, List.map_cons, List.nodup_cons] at hnodup
      have hids : s.nextIds (n + 1) aging now = r.id :: (s.claimIds [r.id] now).nextIds n aging now := by
        rw [Store.nextIds, hq, Store.nextIds, hleft]
        rfl
      have hfresh : r.id ∉ (s.claimIds [r.id] now).nextIds n aging now := by
        rw [Store.nextIds, hleft]
        exact fun h => hnodup.1 (((List.take_sublist n queue).map _).subset h)
      unfold popNextTimes
      rw [Txn.bind_of_ok hpop, Txn.bind_of_ok hrest, hleft, claimIds_claimIds hfresh, ← hids]
      rfl

/-- A batch claims what single pops would have claimed. -/
theorem popNextBatch_eq_popNextTimes (hs : s.Schema) (n : Nat) (aging : Option AgingParams) (now : Int) :
    ∃ batch single s', popNextBatch n aging now s = (.ok batch, s') ∧ popNextTimes aging now n s = (.ok single, s') ∧
      batch.Perm single := by
  have hsingle := popNextTimes_eq hs n aging now
  match n with
  | 0 => exact ⟨_, _, _, rfl, rfl, List.Perm.refl _⟩
  | 1 =>
    cases hq : s.ordered aging (·.eligible now) with
    | nil =>
      have hpop := popNext_empty hs hq
      refine ⟨[], _, s, Txn.bind_of_ok hpop, ?_, List.Perm.refl _⟩
      exact Txn.bind_of_ok hpop
    | cons r queue =>
      have hpop := popNext_head hs hq
      exact ⟨_, _, _, Txn.bind_of_ok hpop, Txn.bind_of_ok hpop, List.Perm.refl _⟩
  | n + 2 =>
    obtain ⟨records, hpop, hperm⟩ := popFirst_eq hs (n + 2) aging now
    exact ⟨records, _, _, hpop, hsingle, hperm⟩

end Queue

/-- Every query returns the first row of its own, in the order of effective priority and id. -/
structure Store.OneOrder (s : Store) (aging : Option AgingParams) (now : Int) : Prop where
  peekNext : s.Picks aging (·.due now) (s.peekNext aging now)
  peekNextInGroup : ∀ g, s.Picks aging (fun r => r.due now && r.groupKey == some g) (s.peekNextInGroup g aging now)
  peekNextUngrouped : s.Picks aging (fun r => r.due now && r.groupKey == none) (s.peekNextUngrouped aging now)
  peekNextUrgent : ∀ threshold, aging.isSome = true →
    s.Picks aging (fun r => r.due now && decide (r.rank aging ≤ threshold.toNat))
      (s.peekNextUrgent threshold aging now)
  neverUrgent : ∀ threshold, aging = none → s.peekNextUrgent threshold aging now = none
  popNext : ∃ record s', popNext aging now s = (.ok record, s') ∧ s.Pops aging now record s'
  popNextBatch : ∀ n, ∃ batch single s', popNextBatch n aging now s = (.ok batch, s') ∧
    popNextTimes aging now n s = (.ok single, s') ∧ batch.Perm single

/-- All queries implement one order, and it is that of `effective_priority`. -/
theorem dispatch_queries_one_order (config : AgingConfig) (hinterval : 0 < config.intervalMs) {s : Store}
    (hs : s.Schema) (clock now : Int) :
    (∀ r : TaskRow, r.rank (some (.fromConfig config (clock / 1000000))) =
      (effectivePriority r.priority r.createdAt r.pauseDurationMs config clock).toNat) ∧
    (∀ r : TaskRow, r.rank none = r.priority.toNat) ∧
    (∀ aging, s.OneOrder aging now) := by
  refine ⟨fun r => rank_eq_effectivePriority hinterval r, fun r => rfl, fun aging => ?_⟩
  refine ⟨s.picks_head _ _, fun g => s.picks_head _ _, s.picks_head _ _, fun threshold haging => ?_,
    fun threshold haging => ?_, popNext_pops hs aging now, fun n => popNextBatch_eq_popNextTimes hs n aging now⟩
  · obtain ⟨ap, rfl⟩ := Option.isSome_iff_exists.1 haging
    exact s.picks_head _ _
  · rw [haging]
    rfl

/-- Two tasks, and the default configuration. -/
theorem default_one_order :
    (execAll sampleSha256 openMemory [.submitDirect (.new "a") 0, .submitDirect (.new "b") 1000]).OneOrder
      (some (.fromConfig .default 400000)) 400000 :=
  (dispatch_queries_one_order .default (by decide) (schema_execAll sampleSha256 _ openMemory_fresh.schema)
    400000000000 400000).2.2 _

end Taskmill
