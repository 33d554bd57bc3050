import Taskmill.Scheduler.TagPrefixes
import Taskmill.Tags
import Taskmill.Transact.Join

/-!
# The tag queries

`src/store/query/tags.rs` filters by tags with one `INNER JOIN` for each filter, and groups the rows of `task_tags`
by value.  SQLite joins at most 64 tables, so that it refuses more than 63 filters.

On intact tag tables a task has no two tags with the same key, so that a join selects tasks and repeats none
(`joinEach_eq`), and a tag has one task, so that a group counts tasks (`tagGroups_count`).  The queries then agree
with each other and with the tags of the tasks, in every run that leaves no tags behind.
-/

namespace Taskmill

open Transact

/-! ### The queries -/

/-- The tag is `key = value` for the task. -/
def TaskRow.tagged (key value : String) (r : TaskRow) (t : Int × String × String) : Bool :=
  r.id == t.1 && t.2.1 == key && t.2.2 == value

/-- `INNER JOIN task_tags tt ON t.id = tt.task_id AND tt.key = ? AND tt.value = ?` for each filter, with the columns
of `tasks`. -/
def Store.joinEach (s : Store) : List (String × String) → List TaskRow → List TaskRow
  | [], rows => rows
  | (key, value) :: filters, rows =>
    s.joinEach filters ((innerJoin (TaskRow.tagged key value) rows s.taskTags).map Prod.fst)

def joinTablesError : StoreError := prepareError "at most 64 tables in a join"

/-- `FROM tasks t` with its joins, which SQLite does not prepare if the tables are too many. -/
def Store.joinTags (s : Store) (filters : List (String × String)) : Except StoreError (List TaskRow) :=
  if maxJoinTables < filters.length + 1 then .error joinTablesError else .ok (s.joinEach filters s.tasks)

/-- `task_ids_by_tags` -/
def Store.taskIdsByTags (s : Store) (filters : List (String × String)) (status : Option TaskStatus) :
    Except StoreError (List Int) :=
  if filters.isEmpty then .ok []
  else (s.joinTags filters).map fun rows => (rows.filter (TaskRow.hasStatus status)).map (·.id)

/-- `count_by_tags` -/
def Store.countByTags (s : Store) (filters : List (String × String)) (status : Option TaskStatus) :
    Except StoreError Nat :=
  if filters.isEmpty then .ok 0
  else (s.joinTags filters).map fun rows => (rows.filter (TaskRow.hasStatus status)).length

/-- `task_ids_by_tags_with_prefix`, with its joins. -/
def Store.joinedIdsWithPrefix (s : Store) (sel : String → Bool) (filters : List (String × String))
    (status : Option TaskStatus) : Except StoreError (List Int) :=
  (s.joinTags filters).map fun rows => (rows.filter fun r => sel r.taskType && r.hasStatus status).map (·.id)

/-- `SELECT tt.value, COUNT(*) FROM task_tags tt JOIN tasks t ON t.id = tt.task_id WHERE tt.key = ? AND … GROUP BY
tt.value ORDER BY COUNT(*) DESC`, with a condition on the task. -/
def Store.tagGroups (s : Store) (key : String) (keep : TaskRow → Bool) : List (String × Nat) :=
  groupCounts (((innerJoin (fun t r => r.id == t.1) (s.taskTags.filter (·.2.1 == key)) s.tasks).filter
    fun p => keep p.2).map (·.1.2.2))

/-- `count_by_tag` -/
def Store.countByTag (s : Store) (key : String) (status : Option TaskStatus) : List (String × Nat) :=
  s.tagGroups key (TaskRow.hasStatus status)

/-- `count_by_tag_with_prefix` -/
def Store.countsByTagWithPrefix (s : Store) (sel : String → Bool) (key : String) (status : Option TaskStatus) :
    List (String × Nat) :=
  s.tagGroups key fun r => sel r.taskType && r.hasStatus status

/-- `tag_values_with_prefix` -/
def Store.tagValuesWithPrefix (s : Store) (sel : String → Bool) (key : String) : List (String × Nat) :=
  s.tagGroups key fun r => sel r.taskType

/-- `tag_values`, which does not look at `tasks`. -/
def Store.tagValues (s : Store) (key : String) : List (String × Nat) :=
  groupCounts ((s.taskTags.filter (·.2.1 == key)).map (·.2.2))

/-- The tasks that have a tag with the key, as the database counts them with a condition on the task. -/
def Store.countWithKey (s : Store) (key : String) (keep : TaskRow → Bool) : Nat :=
  (s.tasks.filter fun r => keep r && s.taskTags.any fun t => t.1 == r.id && t.2.1 == key).length

/-- The queries agree with the tags of the tasks, and with each other. -/
structure Store.TagQueriesAgree (s : Store) : Prop where
  ids : ∀ filters status, filters ≠ [] → filters.length < maxJoinTables → ∃ ids,
    s.taskIdsByTags filters status = .ok ids ∧ ids.Nodup ∧ s.countByTags filters status = .ok ids.length ∧
      ∀ id, id ∈ ids ↔ ∃ r ∈ s.tasks, r.id = id ∧ r.hasStatus status = true ∧ ∀ f ∈ filters, f ∈ s.tagsOf id
  withPrefix : ∀ sel filters status, filters.length < maxJoinTables → ∃ ids,
    s.joinedIdsWithPrefix sel filters status = .ok ids ∧ ids.Perm (s.taskIdsByTagsWithPrefix sel filters status)
  refused : ∀ sel filters status, maxJoinTables ≤ filters.length →
    s.taskIdsByTags filters status = .error joinTablesError ∧ s.countByTags filters status = .error joinTablesError ∧
      s.joinedIdsWithPrefix sel filters status = .error joinTablesError
  groups : ∀ key status value n,
    (value, n) ∈ s.countByTag key status ↔ 0 < n ∧ s.countByTags [(key, value)] status = .ok n
  groupsWithPrefix : ∀ sel key status value n,
    (value, n) ∈ s.countsByTagWithPrefix sel key status ↔ 0 < n ∧ s.countByTagWithPrefix sel key status value = n
  values : ∀ key, (s.tagValues key).Perm (s.countByTag key none)
  valuesWithPrefix : ∀ sel key, (s.tagValuesWithPrefix sel key).Perm (s.countsByTagWithPrefix sel key none)
  total : ∀ key status, ((s.countByTag key status).map Prod.snd).sum = s.countWithKey key (TaskRow.hasStatus status)
  totalWithPrefix : ∀ sel key status, ((s.countsByTagWithPrefix sel key status).map Prod.snd).sum =
    s.countWithKey key fun r => sel r.taskType && r.hasStatus status
  totalValues : ∀ key, ((s.tagValues key).map Prod.snd).sum = s.countWithKey key fun _ => true
  totalValuesWithPrefix : ∀ sel key, ((s.tagValuesWithPrefix sel key).map Prod.snd).sum =
    s.countWithKey key fun r => sel r.taskType

/-! ### Joins that select -/

section Joins

variable {s : Store} {key value : String} {keep : TaskRow → Bool}

theorem any_tagged (r : TaskRow) : s.taskTags.any (r.tagged key value) = s.taskTags.contains (r.id, key, value) := by
  rw [Bool.eq_iff_iff, List.any_eq_true, List.contains_iff_mem]
  simp only [TaskRow.tagged, Bool.and_eq_true, beq_iff_eq]
  constructor
  · rintro ⟨t, ht, ⟨hid, hkey⟩, hvalue⟩
    rw [hid, ← hkey, ← hvalue]
    exact ht
  · intro h
    exact ⟨_, h, ⟨rfl, rfl⟩, rfl⟩

/-- A task has at most one tag with this key. -/
private theorem tag_unique (h : s.TagsIntact) (key : String) (id : Int) {p : Int × String × String → Bool}
    (hp : ∀ t, p t = true → t.1 = id ∧ t.2.1 = key) : (s.taskTags.filter p).length ≤ 1 := by
  refine length_filter_le_one (id, key) h.keys fun t _ ht => ?_
  rw [(hp t ht).1, (hp t ht).2]

private theorem task_unique (hs : s.Schema) (id : Int) :
    (s.tasks.filter fun r => r.id == id && keep r).length ≤ 1 := by
  refine length_filter_le_one id hs.ids fun r _ hr => ?_
  simp only [Bool.and_eq_true, beq_iff_eq] at hr
  exact hr.1

theorem joinEach_eq (h : s.TagsIntact) (filters : List (String × String)) (rows : List TaskRow) :
    s.joinEach filters rows = rows.filter fun r => filters.all fun f => s.taskTags.contains (r.id, f) := by
  induction filters generalizing rows with
  | nil => exact (List.filter_true rows).symm
  | cons f filters ih =>
    obtain ⟨key, value⟩ := f
    have hone : ∀ r ∈ rows, (s.taskTags.filter (r.tagged key value)).length ≤ 1 := by
      intro r _
      refine tag_unique h key r.id fun t ht => ?_
      simp only [TaskRow.tagged, Bool.and_eq_true, beq_iff_eq] at ht
      exact ⟨ht.1.1.symm, ht.1.2⟩
    rw [Store.joinEach, fst_innerJoin hone, ih, List.filter_filter]
    refine List.filter_congr fun r _ => ?_
    rw [any_tagged, List.all_cons, Bool.and_comm]

theorem joinTags_of_lt {filters : List (String × String)} (h : s.TagsIntact) (hfew : filters.length < maxJoinTables) :
    s.joinTags filters = .ok (s.tasks.filter fun r => filters.all fun f => s.taskTags.contains (r.id, f)) := by
  rw [Store.joinTags, if_neg (by omega), joinEach_eq h]

theorem joinTags_of_le {filters : List (String × String)} (hmany : maxJoinTables ≤ filters.length) :
    s.joinTags filters = .error joinTablesError := if_pos (by omega)

/-- The tags whose task is kept, counted by task: each of the tasks has one of the tags in question. -/
private theorem length_kept (h : s.TagsIntact) (hs : s.Schema) (keep : TaskRow → Bool)
    {p : Int × String × String → Bool} (hp : ∀ t, p t = true → t.2.1 = key) :
    ((s.taskTags.filter p).filter fun t => s.tasks.any fun r => r.id == t.1 && keep r).length =
      (s.tasks.filter fun r => keep r && s.taskTags.any fun t => t.1 == r.id && p t).length := by
  have htask : ∀ t ∈ s.taskTags.filter p, (s.tasks.filter fun r => r.id == t.1 && keep r).length ≤ 1 :=
    fun t _ => task_unique hs t.1
  have htag : ∀ r ∈ s.tasks, ((s.taskTags.filter p).filter fun t => r.id == t.1 && keep r).length ≤ 1 := by
    intro r _
    rw [List.filter_filter]
    refine tag_unique h key r.id fun t ht => ?_
    simp only [Bool.and_eq_true, beq_iff_eq] at ht
    exact ⟨ht.1.1.symm, hp t ht.2⟩
  rw [← fst_innerJoin htask, List.length_map, length_innerJoin_comm, ← List.length_map (f := Prod.fst),
    fst_innerJoin htag]
  refine congrArg List.length (List.filter_congr fun r _ => ?_)
  rw [Bool.eq_iff_iff]
  simp only [List.any_eq_true, List.mem_filter, Bool.and_eq_true, beq_iff_eq]
  constructor
  · rintro ⟨t, ⟨ht, hpt⟩, hid, hkeep⟩
    exact ⟨hkeep, t, ht, hid.symm, hpt⟩
  · rintro ⟨hkeep, t, ht, hid, hpt⟩
    exact ⟨t, ⟨ht, hpt⟩, hid.symm, hkeep⟩

/-- What is grouped are the values of the tags whose task is kept. -/
private theorem tagGroups_eq (hs : s.Schema) : s.tagGroups key keep =
    groupCounts (((s.taskTags.filter (·.2.1 == key)).filter fun t =>
      s.tasks.any fun r => r.id == t.1 && keep r).map (·.2.2)) := by
  rw [← fst_innerJoin fun t _ => task_unique hs t.1, List.map_map, Store.tagGroups, filter_innerJoin]
  rfl

/-- A group counts tasks. -/
theorem tagGroups_count (h : s.TagsIntact) (hs : s.Schema) {n : Nat} : (value, n) ∈ s.tagGroups key keep ↔
    0 < n ∧ (s.tasks.filter fun r => keep r && s.taskTags.contains (r.id, key, value)).length = n := by
  have hkey : ∀ t : Int × String × String, (t.2.1 == key && t.2.2 == value) = true → t.2.1 = key := by
    intro t ht
    simp only [Bool.and_eq_true, beq_iff_eq] at ht
    exact ht.1
  have hcount := length_kept h hs keep hkey
  have hany : ∀ r : TaskRow, (s.taskTags.any fun t => t.1 == r.id && (t.2.1 == key && t.2.2 == value)) =
      s.taskTags.contains (r.id, key, value) := by
    intro r
    rw [← any_tagged]
    congr 1
    funext t
    rw [TaskRow.tagged, Bool.and_assoc, Bool.beq_comm (a := r.id)]
  simp only [hany] at hcount
  have hvalues : (((s.taskTags.filter (·.2.1 == key)).filter fun t =>
      s.tasks.any fun r => r.id == t.1 && keep r).map (·.2.2)).count value =
        ((s.taskTags.filter fun t => t.2.1 == key && t.2.2 == value).filter fun t =>
          s.tasks.any fun r => r.id == t.1 && keep r).length := by
    rw [List.count, List.countP_map, List.countP_eq_length_filter, List.filter_filter, List.filter_filter,
      List.filter_filter]
    refine congrArg List.length (List.filter_congr fun t _ => ?_)
    rw [Function.comp_apply]
    ac_rfl
  rw [tagGroups_eq hs, mem_groupCounts, hvalues, hcount]

/-- All groups together count the tasks with the key. -/
theorem tagGroups_total (h : s.TagsIntact) (hs : s.Schema) :
    ((s.tagGroups key keep).map Prod.snd).sum = s.countWithKey key keep := by
  rw [tagGroups_eq hs, groupCounts_total, List.length_map]
  exact length_kept h hs keep fun t ht => beq_iff_eq.1 ht

end Joins

/-! ### The queries agree -/

section Queries

variable {s : Store}

private theorem ids_nodup (hs : s.Schema) (p : TaskRow → Bool) : ((s.tasks.filter p).map (·.id)).Nodup :=
  (List.filter_sublist.map _).nodup hs.ids

theorem joinedIdsWithPrefix_eq (h : s.TagsIntact) (sel : String → Bool) {filters : List (String × String)}
    (hfew : filters.length < maxJoinTables) (status : Option TaskStatus) :
    s.joinedIdsWithPrefix sel filters status = .ok (s.taskIdsByTagsWithPrefix sel filters status) := by
  rw [Store.joinedIdsWithPrefix, Store.taskIdsByTagsWithPrefix, joinTags_of_lt h hfew]
  refine congrArg Except.ok ?_
  dsimp only
  rw [List.filter_filter]
  refine congrArg _ (List.filter_congr fun r _ => ?_)
  ac_rfl

theorem taskIdsByTags_eq (h : s.TagsIntact) {filters : List (String × String)} (hne : filters ≠ [])
    (hfew : filters.length < maxJoinTables) (status : Option TaskStatus) :
    s.taskIdsByTags filters status = .ok (s.taskIdsByTagsWithPrefix (fun _ => true) filters status) := by
  rw [Store.taskIdsByTags, if_neg (by simpa using hne), ← joinedIdsWithPrefix_eq h _ hfew, Store.joinedIdsWithPrefix]
  simp only [Bool.true_and]

theorem countByTags_eq (filters : List (String × String)) (status : Option TaskStatus) :
    s.countByTags filters status = (s.taskIdsByTags filters status).map List.length := by
  rw [Store.countByTags, Store.taskIdsByTags]
  split
  · rfl
  · cases s.joinTags filters with
    | error e => rfl
    | ok rows => exact congrArg Except.ok (List.length_map _).symm

/-- The count for one filter is that of `count_by_tag_with_prefix`. -/
theorem countByTags_single (h : s.TagsIntact) (key value : String) (status : Option TaskStatus) :
    s.countByTags [(key, value)] status = .ok (s.countByTagWithPrefix (fun _ => true) key status value) := by
  rw [countByTags_eq, taskIdsByTags_eq h (List.cons_ne_nil _ _) (by simp [maxJoinTables])]
  refine congrArg Except.ok ?_
  rw [Store.taskIdsByTagsWithPrefix, List.length_map, Store.countByTagWithPrefix, List.filter_filter]
  refine congrArg List.length (List.filter_congr fun r _ => ?_)
  rw [List.all_cons, List.all_nil]
  cases s.taskTags.contains (r.id, key, value)
  · rfl
  · simp

/-- Every tag has its task, so that the table of the tags alone gives the same groups. -/
theorem tagValues_eq (h : s.TagsIntact) (hs : s.Schema) (key : String) : s.tagValues key = s.countByTag key none := by
  have hall : ∀ t ∈ s.taskTags.filter (·.2.1 == key),
      (s.tasks.any fun r => r.id == t.1 && r.hasStatus none) = true := by
    intro t ht
    obtain ⟨r, hr, hid⟩ := List.mem_map.1 (h.tasks t (List.mem_of_mem_filter ht))
    exact List.any_eq_true.2 ⟨r, hr, by simp [hid, TaskRow.hasStatus]⟩
  rw [Store.countByTag, tagGroups_eq hs, List.filter_eq_self.2 hall, Store.tagValues]

theorem tagValuesWithPrefix_eq (sel : String → Bool) (key : String) :
    s.tagValuesWithPrefix sel key = s.countsByTagWithPrefix sel key none := by
  have hnone : ∀ r : TaskRow, r.hasStatus none = true := fun _ => rfl
  simp only [Store.tagValuesWithPrefix, Store.countsByTagWithPrefix, hnone, Bool.and_true]

theorem Store.TagsIntact.queriesAgree (h : s.TagsIntact) (hs : s.Schema) : s.TagQueriesAgree where
  ids filters status hne hfew := by
    have hids := taskIdsByTags_eq h hne hfew status
    refine ⟨_, hids, ids_nodup hs _, ?_, fun id => ?_⟩
    · rw [countByTags_eq, hids]
      rfl
    · rw [Store.taskIdsByTagsWithPrefix, List.mem_map]
      simp only [List.mem_filter, Bool.true_and, Bool.and_eq_true, List.all_eq_true,
        List.contains_iff_mem, mem_tagsOf]
      constructor
      · rintro ⟨r, ⟨hr, htags, hstatus⟩, rfl⟩
        exact ⟨r, hr, rfl, hstatus, htags⟩
      · rintro ⟨r, hr, rfl, hstatus, htags⟩
        exact ⟨r, ⟨hr, htags, hstatus⟩, rfl⟩
  withPrefix sel filters status hfew := ⟨_, joinedIdsWithPrefix_eq h sel hfew status, .refl _⟩
  refused sel filters status hmany := by
    have hne : ¬ filters.isEmpty = true := by
      rintro hempty
      rw [List.isEmpty_iff.1 hempty] at hmany
      exact absurd hmany (by decide)
    rw [countByTags_eq, Store.taskIdsByTags, if_neg hne, Store.joinedIdsWithPrefix, joinTags_of_le hmany]
    exact ⟨rfl, rfl, rfl⟩
  groups key status value n := by
    rw [Store.countByTag, tagGroups_count h hs, countByTags_single h, Store.countByTagWithPrefix, List.filter_filter,
      Except.ok.injEq]
    simp only [Bool.true_and, Bool.and_comm]
  groupsWithPrefix sel key status value n := by
    rw [Store.countsByTagWithPrefix, tagGroups_count h hs, Store.countByTagWithPrefix, List.filter_filter]
    simp only [Bool.and_comm]
  values key := .of_eq (tagValues_eq h hs key)
  valuesWithPrefix sel key := .of_eq (tagValuesWithPrefix_eq sel key)
  total key status := tagGroups_total h hs
  totalWithPrefix sel key status := tagGroups_total h hs
  totalValues key := by
    rw [tagValues_eq h hs]
    exact tagGroups_total h hs
  totalValuesWithPrefix sel key := tagGroups_total h hs

end Queries

/-- In every run whose steps delete no row without its tags. -/
theorem tag_queries_agree (sha256 : List UInt8 → String) (s : Store)
    (h : ReachableVia sha256 (fun s a => a.SparesTags s) s) : s.TagQueriesAgree :=
  (tags_safe sha256 s h).intact.queriesAgree (ReachableVia.schema h)

private def owned (taskType owner : String) : TaskSubmission :=
  { TaskSubmission.new taskType with tags := ⟨[("owner", owner)], Tags.nodup_single "owner" owner⟩ }

/-- Three tasks with an owner, the first of which is completed. -/
private def ownedRun : List Action :=
  [.submitDirect (owned "a" "dev") 0, .submitDirect (owned "b" "ops") 0, .submitDirect (owned "c" "ops") 0,
    .popNextBatch 1 none 0, .completeWithRecord dispatchedA {} 1]

theorem ownedRun_queries : (execAll sampleSha256 openMemory ownedRun).countByTag "owner" none = [("ops", 2)] ∧
    (execAll sampleSha256 openMemory ownedRun).TagQueriesAgree := by
  refine ⟨by decide +kernel, tag_queries_agree sampleSha256 _ (Runs.list (.start openMemory_fresh) ownedRun ?_)⟩
  exact ⟨trivial, trivial, trivial, trivial, fun hflag => absurd hflag (by decide +kernel), trivial⟩

end Taskmill
