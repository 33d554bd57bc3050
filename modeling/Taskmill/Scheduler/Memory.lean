import Taskmill.Rows
import Mathlib.Data.List.Infix

/-!
# The memory of the scheduler

What the scheduler keeps beside the database: the active map (`src/scheduler/dispatch.rs`), and the two ways in
which it decides that a task type belongs to a module, `starts_with` in memory and `LIKE` in the database
(`src/module.rs`).
-/

namespace Taskmill

/-! ### The active map -/

/-- `ActiveTaskMap`: the records of the tasks that run, at most one for each id. -/
abbrev ActiveTaskMap := List TaskRecord

namespace ActiveTaskMap

def remove (active : ActiveTaskMap) (id : Int) : ActiveTaskMap := active.filter fun task => !(task.id == id)

def insert (active : ActiveTaskMap) (task : TaskRecord) : ActiveTaskMap := active.remove task.id ++ [task]

/-- `drain_where`: the entries that are taken out and those that stay. -/
def drainWhere (active : ActiveTaskMap) (p : TaskRecord → Bool) : ActiveTaskMap × ActiveTaskMap :=
  (active.filter p, active.filter fun task => !p task)

/-- `has_preemptors_for` -/
def hasPreemptorsFor (active : ActiveTaskMap) (priority threshold : Priority) : Bool :=
  active.any fun task => task.priority ≤ threshold && task.priority < priority

section Preemptors

variable {active active' : ActiveTaskMap} {p q threshold : Priority}

theorem hasPreemptorsFor_eq_false : active.hasPreemptorsFor p threshold = false ↔
    ∀ task ∈ active, task.priority ≤ threshold → p ≤ task.priority := by
  simp [hasPreemptorsFor]

theorem hasPreemptorsFor_of_subset (h : ∀ task ∈ active', task ∈ active)
    (hnone : active.hasPreemptorsFor p threshold = false) : active'.hasPreemptorsFor p threshold = false := by
  rw [hasPreemptorsFor_eq_false] at hnone ⊢
  exact fun task htask => hnone task (h task htask)

/-- More urgent work has fewer preemptors. -/
theorem hasPreemptorsFor_of_lt (h : p < q) (hnone : active.hasPreemptorsFor q threshold = false) :
    active.hasPreemptorsFor p threshold = false := by
  rw [hasPreemptorsFor_eq_false] at hnone ⊢
  intro task htask hle
  exact UInt8.le_of_lt (UInt8.lt_of_lt_of_le h (hnone task htask hle))

theorem mem_of_mem_remove {id : Int} {task : TaskRecord} (h : task ∈ active.remove id) : task ∈ active :=
  List.mem_of_mem_filter h

theorem hasPreemptorsFor_insert {task : TaskRecord} (hnone : active.hasPreemptorsFor p threshold = false)
    (htask : task.priority ≤ threshold → p ≤ task.priority) :
    (active.insert task).hasPreemptorsFor p threshold = false := by
  rw [hasPreemptorsFor_eq_false] at hnone ⊢
  intro other hother
  rcases List.mem_append.1 hother with hother | hother
  · exact hnone other (mem_of_mem_remove hother)
  · rw [List.mem_singleton.1 hother]
    exact htask

end Preemptors

end ActiveTaskMap

/-! ### Modules -/

/-- The `LIKE` of SQLite: `%` stands for any text, `_` for any character, and ASCII letters are equal in either
case. -/
def like : List Char → List Char → Bool
  | [], text => text.isEmpty
  | x :: pattern, text =>
    if x = '%' then text.tails.any (like pattern)
    else
      match text with
      | [] => false
      | c :: text => (x = '_' || x.toLower == c.toLower) && like pattern text

/-- The prefix of the task types of a module. -/
def modulePrefix (name : String) : List Char := name.toList ++ [':', ':']

/-- `task_type LIKE '{prefix}%'` -/
def likeModule (name taskType : String) : Bool := like (modulePrefix name ++ ['%']) taskType.toList

/-- `task_type.starts_with(prefix)` -/
def hasModulePrefix (name taskType : String) : Bool := (modulePrefix name).isPrefixOf taskType.toList

/-- What stands before the first `::`. -/
def beforeColons : List Char → Option (List Char)
  | [] => none
  | ':' :: ':' :: _ => some []
  | c :: text => (beforeColons text).map (c :: ·)

/-- `module_name` -/
def moduleName (taskType : String) : Option String := (beforeColons taskType.toList).map String.ofList

theorem like_of_prefix (p rest : List Char) : like (p ++ ['%']) (p ++ rest) = true := by
  induction p with
  | nil =>
    show rest.tails.any (like []) = true
    exact List.any_eq_true.2 ⟨[], (List.mem_tails _ _).2 (List.nil_suffix ..), rfl⟩
  | cons x p ih =>
    rw [List.cons_append, List.cons_append, like]
    split
    · -- a `%` in the prefix may stand for itself
      refine List.any_eq_true.2 ⟨p ++ rest, (List.mem_tails _ _).2 ?_, ih⟩
      exact ⟨[x], rfl⟩
    · simp [ih]

theorem beforeColons_prefix {text name : List Char} (h : beforeColons text = some name) :
    ∃ rest, text = name ++ [':', ':'] ++ rest := by
  induction text using beforeColons.induct generalizing name with
  | case1 => cases h
  | case2 rest =>
    rw [beforeColons] at h
    cases h
    exact ⟨rest, rfl⟩
  | case3 c text hc ih =>
    rw [beforeColons] at h
    · obtain ⟨name', hname, rfl⟩ := Option.map_eq_some_iff.1 h
      obtain ⟨rest, rfl⟩ := ih hname
      exact ⟨rest, rfl⟩
    · exact hc

/-- The pattern of a module matches the types of the module. -/
theorem likeModule_of_moduleName {name taskType : String} (h : moduleName taskType = some name) :
    likeModule name taskType = true := by
  obtain ⟨name', hname, rfl⟩ := Option.map_eq_some_iff.1 h
  obtain ⟨rest, hrest⟩ := beforeColons_prefix hname
  rw [likeModule, hrest, modulePrefix, String.toList_ofList]
  exact like_of_prefix _ _

theorem likeModule_of_hasModulePrefix {name taskType : String} (h : hasModulePrefix name taskType = true) :
    likeModule name taskType = true := by
  obtain ⟨rest, hrest⟩ := List.isPrefixOf_iff_prefix.1 h
  rw [likeModule, ← hrest]
  exact like_of_prefix _ _

end Taskmill
