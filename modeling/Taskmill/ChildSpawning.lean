import Taskmill.Aging
import Taskmill.Scheduler.Memory

/-!
# Spawning child tasks

The ways to a child task: `TaskContext::spawn_child` and `spawn_children` (`src/registry/context.rs`, with the
`ChildSpawner` of `src/registry/child_spawner.rs`), `ModuleHandle::submit(sub).parent(id)` (`src/module.rs`,
`src/task/submit_builder.rs`), and the typed `spawn_child_with` and `spawn_children_with`
(`src/registry/domain_context.rs`).  A way is modelled by the submission that it hands to the store.

A child has values of its own, values of its module and values of its parent.  The builder lets the parent fill what
the child and the module leave open; the spawner lets the parent fill first.  `spawning_paths_agree_iff` says
exactly when this makes no difference.
-/

namespace Taskmill

/-! ### Tags as a map -/

namespace Tags

/-- `HashMap::get` -/
def get (t : Tags) (k : String) : Option String := t.entries.lookup k

/-- `entry(k).or_insert_with(|| v)` -/
def orInsert (t : Tags) (k v : String) : Tags :=
  if h : k ∈ t.entries.map Prod.fst then t
  else ⟨t.entries ++ [(k, v)], by
    rw [List.map_append, List.nodup_append]
    refine ⟨t.nodup, by simp, fun a ha b hb hab => ?_⟩
    obtain rfl : b = k := by simpa using hb
    exact h (hab ▸ ha)⟩

/-- `HashMap::insert` -/
def insert (t : Tags) (k v : String) : Tags :=
  let replaced : Tags := ⟨t.entries.map fun e => if e.1 = k then (e.1, v) else e, by
    have hkeys : (t.entries.map fun e => if e.1 = k then (e.1, v) else e).map Prod.fst = t.entries.map Prod.fst := by
      rw [List.map_map]
      refine List.map_congr_left fun e _ => ?_
      show (if e.1 = k then (e.1, v) else e).1 = e.1
      split <;> rfl
    rw [hkeys]
    exact t.nodup⟩
  replaced.orInsert k v

/-- The loop `for (k, v) in entries { tags.entry(k).or_insert_with(|| v) }`. -/
def orInsertAll (t : Tags) (entries : List (String × String)) : Tags :=
  entries.foldl (fun t e => t.orInsert e.1 e.2) t

theorem get_eq_none_iff {t : Tags} {k : String} : t.get k = none ↔ k ∉ t.entries.map Prod.fst := by
  rw [get, List.lookup_eq_none_iff, List.mem_map]
  constructor
  · rintro h ⟨e, he, rfl⟩
    simpa using h e he
  · intro h e he
    exact bne_iff_ne.2 fun hk => h ⟨e, he, hk.symm⟩

theorem get_orInsert (t : Tags) (k v j : String) :
    (t.orInsert k v).get j = (t.get j).or (if j = k then some v else none) := by
  unfold orInsert
  split
  case isTrue hk =>
    by_cases hj : j = k
    · subst hj
      obtain ⟨w, hw⟩ := Option.ne_none_iff_exists'.1 fun h => get_eq_none_iff.1 h hk
      rw [hw]
      rfl
    · rw [if_neg hj, Option.or_none]
  case isFalse hk =>
    rw [get, get, List.lookup_append]
    congr 1
    by_cases hj : j = k
    · rw [if_pos hj, hj, List.lookup_cons_self]
    · rw [if_neg hj, List.lookup_cons, beq_eq_false_iff_ne.2 hj]
      rfl

/-- What is there stays, the entries fill the gaps. -/
theorem get_orInsertAll (t : Tags) (entries : List (String × String)) (j : String) :
    (t.orInsertAll entries).get j = (t.get j).or (entries.lookup j) := by
  induction entries generalizing t with
  | nil => exact Option.or_none.symm
  | cons e entries ih =>
    have hstep : (t.orInsertAll (e :: entries)) = (t.orInsert e.1 e.2).orInsertAll entries := rfl
    rw [hstep, ih, get_orInsert, Option.or_assoc]
    congr 1
    obtain ⟨k, v⟩ := e
    rw [List.lookup_cons]
    by_cases hj : j = k
    · rw [if_pos hj, beq_iff_eq.2 hj]
      rfl
    · rw [if_neg hj, beq_eq_false_iff_ne.2 hj]
      rfl

end Tags

/-! ### Times and priorities -/

/-- `Priority::NORMAL` -/
def normalPriority : Priority := 128

/-- `Duration::from_secs(secs as u64)` -/
def Duration.fromSecs (secs : Int) : Duration := ⟨(secs % 2 ^ 64).toNat * 1000000000⟩

/-- `Duration::checked_sub` -/
def Duration.checkedSub (d e : Duration) : Option Duration :=
  if e.nanos ≤ d.nanos then some ⟨d.nanos - e.nanos⟩ else none

/-- `(Utc::now() - start).to_std().unwrap_or_default()`: the clock counts nanoseconds, the columns milliseconds. -/
def elapsedSince (start now : Int) : Duration := ⟨(now - start * 1000000).toNat⟩

/-- `Utc::now() + delay`, as the column `run_after` keeps it. -/
def delayed (delay : Duration) (now : Int) : Int := (now + delay.nanos) / 1000000

/-- When the TTL of a task starts to run; `none` if it is yet to run. -/
def ttlStart (createdAt : Int) (startedAt : Option Int) : TtlFrom → Option Int
  | .submission => some createdAt
  | .firstAttempt => startedAt

/-- `TaskRecord::remaining_ttl` -/
def TaskRecord.remainingTtl (r : TaskRecord) (now : Int) : Option Duration := do
  let parentTtlSecs ← r.ttlSeconds
  let start ← ttlStart r.createdAt r.startedAt r.ttlFrom
  ((Duration.fromSecs parentTtlSecs).checkedSub (elapsedSince start now)).filter fun r => !r.isZero

/-! ### The child spawner -/

/-- `ParentContext` -/
structure ParentContext where
  createdAt : Int
  ttlSeconds : Option Int
  ttlFrom : TtlFrom
  startedAt : Option Int
  tags : List (String × String)

/-- What a task hands on to its children. -/
def TaskRecord.parentContext (task : TaskRecord) : ParentContext where
  createdAt := task.createdAt
  ttlSeconds := task.ttlSeconds
  ttlFrom := task.ttlFrom
  startedAt := task.startedAt
  tags := task.tags

/-- `ChildSpawner` -/
structure ChildSpawner where
  parentId : Int
  parent : ParentContext

namespace ChildSpawner

def inheritTtl (spawner : ChildSpawner) (now : Int) (sub : TaskSubmission) : TaskSubmission :=
  if sub.ttl.isSome then sub
  else
    match spawner.parent.ttlSeconds with
    | none => sub
    | some parentTtlSecs =>
      match ttlStart spawner.parent.createdAt spawner.parent.startedAt spawner.parent.ttlFrom with
      | none => sub
      | some start =>
        match (Duration.fromSecs parentTtlSecs).checkedSub (elapsedSince start now) with
        | none => sub
        | some remaining =>
          if remaining.isZero then sub else { sub with ttl := some remaining, ttlFrom := .submission }

def inheritTags (spawner : ChildSpawner) (sub : TaskSubmission) : TaskSubmission :=
  { sub with tags := sub.tags.orInsertAll spawner.parent.tags }

def prepare (spawner : ChildSpawner) (now : Int) (sub : TaskSubmission) : TaskSubmission :=
  spawner.inheritTags (spawner.inheritTtl now { sub with parentId := some spawner.parentId })

end ChildSpawner

/-! ### The submit builder -/

/-- The TTLs of the scheduler: those of the task types (`registry.type_ttl`) and the global one. -/
structure SchedulerTtls where
  typeTtl : String → Option Duration
  defaultTtl : Option Duration

/-- `Scheduler::resolve_ttl` -/
def SchedulerTtls.resolveTtl (ttls : SchedulerTtls) (sub : TaskSubmission) : TaskSubmission :=
  if sub.ttl.isSome then sub
  else
    match ttls.typeTtl sub.taskType with
    | some typeTtl => { sub with ttl := some typeTtl }
    | none =>
      match ttls.defaultTtl with
      | some defaultTtl => { sub with ttl := some defaultTtl }
      | none => sub

/-- `ModuleSubmitDefaults` -/
structure ModuleSubmitDefaults where
  priority : Option Priority
  group : Option String
  ttl : Option Duration
  tags : Tags

/-- `TypedTaskDefaults` -/
structure TypedTaskDefaults where
  priority : Priority
  group : Option String
  ttl : Option Duration
  tags : Tags

/-- `SubmitBuilder` -/
structure SubmitBuilder where
  submission : TaskSubmission
  moduleName : String
  moduleDefaults : ModuleSubmitDefaults
  typedDefaults : Option TypedTaskDefaults := none
  overridePriority : Option Priority := none
  overrideGroup : Option String := none
  overrideKey : Option String := none
  overrideRunAfter : Option Int := none
  overrideTtl : Option Duration := none
  overrideDependsOn : List Int := []
  overrideOnDependencyFailure : Option DependencyFailurePolicy := none
  overrideTags : Tags := .empty
  overrideParentId : Option Int := none
  overrideFailFast : Option Bool := none

namespace SubmitBuilder

/-- `SubmitBuilder::parent` -/
def parent (b : SubmitBuilder) (parentId : Int) : SubmitBuilder := { b with overrideParentId := some parentId }

def applyPrefix (b : SubmitBuilder) (sub : TaskSubmission) : TaskSubmission :=
  if b.moduleName.isEmpty then sub
  else
    let taskType := b.moduleName ++ "::" ++ sub.taskType
    { sub with taskType := taskType, label := if sub.label = sub.taskType then taskType else sub.label }

def mergeModuleTags (b : SubmitBuilder) (sub : TaskSubmission) : TaskSubmission :=
  { sub with tags := sub.tags.orInsertAll b.moduleDefaults.tags.entries }

def applyModuleScalarDefaults (b : SubmitBuilder) (unconditional : Bool) (sub : TaskSubmission) : TaskSubmission :=
  { sub with
    priority := match b.moduleDefaults.priority with
      | some p => if unconditional || sub.priority == normalPriority then p else sub.priority
      | none => sub.priority
    groupKey := match b.moduleDefaults.group with
      | some g => if unconditional || sub.groupKey.isNone then some g else sub.groupKey
      | none => sub.groupKey
    ttl := match b.moduleDefaults.ttl with
      | some t => if unconditional || sub.ttl.isNone then some t else sub.ttl
      | none => sub.ttl }

def applyDefaults (b : SubmitBuilder) (sub : TaskSubmission) : TaskSubmission :=
  match b.typedDefaults with
  | some td =>
    b.applyModuleScalarDefaults true
      (b.mergeModuleTags { sub with priority := td.priority, groupKey := td.group, ttl := td.ttl, tags := td.tags })
  | none => b.mergeModuleTags (b.applyModuleScalarDefaults false sub)

def applyOverrides (b : SubmitBuilder) (sub : TaskSubmission) : TaskSubmission :=
  { sub with
    priority := b.overridePriority.getD sub.priority
    groupKey := b.overrideGroup.or sub.groupKey
    label := b.overrideKey.getD sub.label
    dedupKey := b.overrideKey.or sub.dedupKey
    runAfter := b.overrideRunAfter.or sub.runAfter
    ttl := b.overrideTtl.or sub.ttl
    dependencies := sub.dependencies ++ b.overrideDependsOn
    onDependencyFailure := b.overrideOnDependencyFailure.getD sub.onDependencyFailure
    tags := b.overrideTags.entries.foldl (fun t e => t.insert e.1 e.2) sub.tags
    parentId := b.overrideParentId.or sub.parentId
    failFast := b.overrideFailFast.getD sub.failFast }

def resolve (b : SubmitBuilder) : TaskSubmission := b.applyOverrides (b.applyDefaults (b.applyPrefix b.submission))

/-- The inheritance in `SubmitBuilder::submit`. -/
def inherit (parent : TaskRecord) (now : Int) (resolved : TaskSubmission) : TaskSubmission :=
  let resolved :=
    if resolved.ttl.isNone then
      match parent.ttlSeconds with
      | none => resolved
      | some parentTtlSecs =>
        match ttlStart parent.createdAt parent.startedAt parent.ttlFrom with
        | none => resolved
        | some start =>
          match (Duration.fromSecs parentTtlSecs).checkedSub (elapsedSince start now) with
          | none => resolved
          | some remaining =>
            if remaining.isZero then resolved else { resolved with ttl := some remaining, ttlFrom := .submission }
    else resolved
  { resolved with tags := resolved.tags.orInsertAll parent.tags }

end SubmitBuilder

/-- `TaskStore::task_by_id` -/
def Store.taskRecordById (s : Store) (id : Int) : Option TaskRecord :=
  (s.taskById id).map fun row => s.populateTags (rowToTaskRecord row)

/-- `SubmitBuilder::submit`, up to the call of the store. -/
def SubmitBuilder.submit (b : SubmitBuilder) (ttls : SchedulerTtls) (s : Store) (now : Int) : TaskSubmission :=
  let inherited :=
    match b.overrideParentId with
    | none => b.resolve
    | some pid =>
      match s.taskRecordById pid with
      | none => b.resolve
      | some parent => SubmitBuilder.inherit parent now b.resolve
  ttls.resolveTtl inherited

/-! ### Module handles -/

/-- `ModuleEntry`, as far as submissions go; `Module::new` asserts that the name is not empty. -/
structure ModuleEntry where
  name : String
  name_nonempty : name.isEmpty = false
  defaultPriority : Option Priority
  defaultGroup : Option String
  defaultTtl : Option Duration
  defaultTags : Tags

/-- `ModuleHandle` -/
structure ModuleHandle where
  name : String
  defaults : ModuleSubmitDefaults

namespace ModuleHandle

/-- `ModuleHandle::new`: the tag `_module` is always there. -/
def new (entry : ModuleEntry) : ModuleHandle where
  name := entry.name
  defaults := {
    priority := entry.defaultPriority
    group := entry.defaultGroup
    ttl := entry.defaultTtl
    tags := entry.defaultTags.orInsert "_module" entry.name }

/-- `ModuleHandle::submit` -/
def submit (handle : ModuleHandle) (sub : TaskSubmission) : SubmitBuilder :=
  { submission := sub, moduleName := handle.name, moduleDefaults := handle.defaults }

/-- The inheritance in `ModuleHandle::submit_batch`. -/
def inherit (parent : TaskRecord) (now : Int) (sub : TaskSubmission) : TaskSubmission :=
  let sub :=
    if sub.ttl.isNone then
      match parent.remainingTtl now with
      | some remaining => { sub with ttl := some remaining, ttlFrom := .submission }
      | none => sub
    else sub
  { sub with tags := sub.tags.orInsertAll parent.tags }

/-- `ModuleHandle::submit_batch`, up to the call of the store: the parent is that of the first submission. -/
def submitBatch (handle : ModuleHandle) (submissions : List TaskSubmission) (ttls : SchedulerTtls)
    (s : Store) (now : Int) :
    List TaskSubmission :=
  let resolved := submissions.map fun sub => (handle.submit sub).resolve
  let inherited :=
    match resolved.head?.bind (·.parentId) with
    | none => resolved
    | some pid =>
      match s.taskRecordById pid with
      | none => resolved
      | some parent => resolved.map (inherit parent now)
  inherited.map ttls.resolveTtl

end ModuleHandle

/-! ### Task contexts -/

/-- `TaskContext`, as far as spawning goes. -/
structure TaskContext where
  record : TaskRecord
  childSpawner : Option ChildSpawner
  moduleRegistry : List ModuleEntry
  owningModule : String
  agingConfig : Option AgingConfig

/-- `build_task_context` -/
def buildTaskContext (task : TaskRecord) (moduleRegistry : List ModuleEntry) (agingConfig : Option AgingConfig) :
    TaskContext where
  record := task
  childSpawner := some {
    parentId := task.id
    parent := task.parentContext }
  moduleRegistry := moduleRegistry
  owningModule := (moduleName task.taskType).getD ""
  agingConfig := agingConfig

namespace TaskContext

/-- `current_module`, `none` where the code panics because the module is not registered. -/
def currentModule (ctx : TaskContext) : Option ModuleHandle :=
  (ctx.moduleRegistry.find? (·.name == ctx.owningModule)).map ModuleHandle.new

/-- `spawn_child`, up to the call of the store; `none` where the code panics. -/
def spawnChild (ctx : TaskContext) (ttls : SchedulerTtls) (s : Store) (now : Int) (sub : TaskSubmission) :
    Option TaskSubmission := do
  let spawner ← ctx.childSpawner
  if ctx.owningModule.isEmpty then
    -- without modules the child goes to the store directly
    return spawner.prepare now sub
  let handle ← ctx.currentModule
  return (handle.submit (spawner.prepare now sub)).submit ttls s now

/-- `spawn_children`, up to the call of the store; `none` where the code panics. -/
def spawnChildren (ctx : TaskContext) (ttls : SchedulerTtls) (s : Store) (now : Int)
    (submissions : List TaskSubmission) :
    Option (List TaskSubmission) := do
  let spawner ← ctx.childSpawner
  if ctx.owningModule.isEmpty then
    return submissions.map (spawner.prepare now)
  let handle ← ctx.currentModule
  return handle.submitBatch (submissions.map (spawner.prepare now)) ttls s now

end TaskContext

/-- `TaskTypeConfig`, less the retry policy, which is read at registration. -/
structure TaskTypeConfig where
  priority : Option Priority := none
  expectedIo : Option IoBudget := none
  groupKey : Option String := none
  onDuplicate : Option DuplicateStrategy := none
  ttl : Option Duration := none
  ttlFrom : Option TtlFrom := none
  runAfter : Option Duration := none
  recurring : Option RecurringSchedule := none

/-- A value of a `TypedTask`: the constants of its type, and what its methods and `serde_json` make of it. -/
structure TypedTask where
  taskType : String
  config : TaskTypeConfig
  payload : Except String (List UInt8)
  key : Option String
  label : Option String
  tags : Tags

/-- `TaskSubmission::recurring_schedule` -/
def TaskSubmission.recurringSchedule (sub : TaskSubmission) (schedule : RecurringSchedule) (now : Int) :
    TaskSubmission :=
  { sub with
    runAfter := sub.runAfter.or (schedule.initialDelay.map (delayed · now))
    recurring := some schedule }

/-- `TaskSubmission::key` -/
def TaskSubmission.withKey (sub : TaskSubmission) (key : String) : TaskSubmission :=
  { sub with label := key, dedupKey := some key }

/-- `TaskSubmission::from_typed` -/
def TaskSubmission.fromTyped (task : TypedTask) (now : Int) : TaskSubmission :=
  let config := task.config
  let sub := TaskSubmission.new task.taskType
  let sub := match task.payload with
    | .ok bytes => { sub with payload := some bytes }
    | .error e => { sub with payloadError := some e }
  let sub := { sub with
    priority := config.priority.getD sub.priority
    expectedIo := config.expectedIo.getD sub.expectedIo
    onDuplicate := config.onDuplicate.getD sub.onDuplicate
    ttlFrom := config.ttlFrom.getD sub.ttlFrom
    ttl := config.ttl.or sub.ttl
    groupKey := config.groupKey.or sub.groupKey
    runAfter := (config.runAfter.map (delayed · now)).or sub.runAfter }
  let sub := match config.recurring with
    | some schedule => sub.recurringSchedule schedule now
    | none => sub
  let sub := match task.key with
    | some k => sub.withKey k
    | none => sub
  let sub := { sub with label := task.label.getD sub.label }
  if task.tags.entries.isEmpty then sub else { sub with tags := task.tags }

/-- `ChildSpawnBuilder` -/
structure ChildSpawnBuilder where
  ctx : TaskContext
  task : TypedTask
  overrideKey : Option String := none
  overridePriority : Option Priority := none
  overrideTtl : Option Duration := none
  overrideGroup : Option String := none

/-- `ChildSpawnBuilder::submit`, up to the call of the store. -/
def ChildSpawnBuilder.submit (b : ChildSpawnBuilder) (ttls : SchedulerTtls) (s : Store) (now : Int) :
    Option TaskSubmission :=
  let sub := TaskSubmission.fromTyped b.task now
  let sub := match b.overrideKey with
    | some k => sub.withKey k
    | none => sub
  let sub :=
    match b.overridePriority with
    | some p => { sub with priority := p }
    | none =>
      match b.ctx.agingConfig with
      | some config =>
        let parentEffective := b.ctx.record.effectivePriority (some config) now
        let childConfig := b.task.config.priority.getD normalPriority
        { sub with priority := min parentEffective childConfig }
      | none => sub
  let sub := { sub with ttl := b.overrideTtl.or sub.ttl, groupKey := b.overrideGroup.or sub.groupKey }
  b.ctx.spawnChild ttls s now sub

/-- `spawn_child_with` -/
def TaskContext.spawnChildWith (ctx : TaskContext) (task : TypedTask) : ChildSpawnBuilder :=
  { ctx := ctx, task := task }

/-- `spawn_children_with`, up to the call of the store. -/
def TaskContext.spawnChildrenWith (ctx : TaskContext) (ttls : SchedulerTtls) (s : Store) (now : Int)
    (tasks : List TypedTask) :
    Option (List TaskSubmission) :=
  ctx.spawnChildren ttls s now (tasks.map (TaskSubmission.fromTyped · now))

/-! ### One inheritance, three times -/

section Inheritance

variable {parent : TaskRecord} {now : Int} {sub : TaskSubmission}

/-- The inheritance of a batch, field by field. -/
theorem ModuleHandle.inherit_eq : ModuleHandle.inherit parent now sub =
    { sub with
      ttl := sub.ttl.or (parent.remainingTtl now)
      ttlFrom := if sub.ttl.isNone && (parent.remainingTtl now).isSome then .submission else sub.ttlFrom
      tags := sub.tags.orInsertAll parent.tags } := by
  obtain ⟨_, _, _, _, _, _, _, _, _, _, ttl, _, _, _, _, _, _, _, _⟩ := sub
  unfold ModuleHandle.inherit
  cases ttl with
  | some t => rfl
  | none =>
    cases parent.remainingTtl now with
    | some remaining => rfl
    | none => rfl

/-- Nothing else of the parent is looked at. -/
theorem ModuleHandle.inherit_congr {stored : TaskRecord} (h : stored.parentContext = parent.parentContext) :
    ModuleHandle.inherit stored now = ModuleHandle.inherit parent now := by
  simp only [TaskRecord.parentContext, ParentContext.mk.injEq] at h
  obtain ⟨hcreated, hsecs, hfrom, hstarted, htags⟩ := h
  funext sub
  unfold ModuleHandle.inherit TaskRecord.remainingTtl
  rw [hcreated, hsecs, hfrom, hstarted, htags]

/-- The builder computes the same inheritance as a batch. -/
theorem SubmitBuilder.inherit_eq : SubmitBuilder.inherit parent now sub = ModuleHandle.inherit parent now sub := by
  unfold SubmitBuilder.inherit ModuleHandle.inherit TaskRecord.remainingTtl
  by_cases httl : sub.ttl.isNone = true
  · rw [if_pos httl, if_pos httl]
    cases parent.ttlSeconds with
    | none => rfl
    | some secs =>
      cases hstart : ttlStart parent.createdAt parent.startedAt parent.ttlFrom with
      | none => rfl
      | some start =>
        cases hleft : (Duration.fromSecs secs).checkedSub (elapsedSince start now) with
        | none => simp [hleft]
        | some remaining =>
          cases hzero : remaining.isZero with
          | true =>
            have hnone : (some remaining).filter (fun r => !r.isZero) = none := by simp [Option.filter, hzero]
            simp [hleft, hzero, hnone]
          | false =>
            have hsome : (some remaining).filter (fun r => !r.isZero) = some remaining := by
              simp [Option.filter, hzero]
            simp [hleft, hzero, hsome]
  · rw [if_neg httl, if_neg httl]

/-- So does the spawner, before the module has its say. -/
theorem ChildSpawner.prepare_eq (moduleRegistry : List ModuleEntry) (agingConfig : Option AgingConfig)
    (spawner : ChildSpawner) (h : (buildTaskContext parent moduleRegistry agingConfig).childSpawner = some spawner) :
    spawner.prepare now sub = ModuleHandle.inherit parent now { sub with parentId := some parent.id } := by
  cases h
  rw [← SubmitBuilder.inherit_eq]
  unfold ChildSpawner.prepare ChildSpawner.inheritTags ChildSpawner.inheritTtl SubmitBuilder.inherit
  cases httl : sub.ttl with
  | some t => rfl
  | none => rfl

end Inheritance

/-! ### When the paths agree -/

/-- The same submission; tags are compared as maps. -/
structure TaskSubmission.Same (a b : TaskSubmission) : Prop where
  fields : { a with tags := .empty } = { b with tags := .empty }
  tags : ∀ k, a.tags.get k = b.tags.get k

/-- All ways to spawn the children `subs` and the typed children `tasks` of the task of `ctx` resolve to the same
child. -/
structure TaskContext.PathsAgree (ctx : TaskContext) (handle : ModuleHandle) (ttls : SchedulerTtls)
    (s : Store) (now : Int) (subs : List TaskSubmission) (tasks : List TypedTask) : Prop where
  batch : ∃ children, ctx.spawnChildren ttls s now subs = some children ∧
    List.Forall₂ (fun sub child => ∃ alone, ctx.spawnChild ttls s now sub = some alone ∧ alone.Same child) subs
      children
  builder : ∀ sub ∈ subs, ∃ alone, ctx.spawnChild ttls s now sub = some alone ∧
    alone.Same (((handle.submit sub).parent ctx.record.id).submit ttls s now)
  typed : ∃ children, ctx.spawnChildrenWith ttls s now tasks = some children ∧
    List.Forall₂ (fun task child => ∃ alone, (ctx.spawnChildWith task).submit ttls s now = some alone ∧
      alone.priority = child.priority) tasks children

/-- It does not matter whether the module or the parent fills the gaps of the child first: neither the TTL nor a tag
that the child leaves open is set by both, unless to the same value. -/
structure TaskSubmission.OrderFree (sub : TaskSubmission) (parent : TaskRecord) (defaults : ModuleSubmitDefaults)
    (now : Int) : Prop where
  ttl : sub.ttl = none → ∀ remaining, parent.remainingTtl now = some remaining → ∀ t, defaults.ttl = some t →
    t = remaining ∧ sub.ttlFrom = .submission
  tags : ∀ k, sub.tags.get k = none → ∀ v, parent.tags.lookup k = some v → ∀ w, defaults.tags.get k = some w → w = v

/-- The age of the parent does not change the priority of the child: the child is at least as urgent, or one of the
two priorities is the normal one and the module replaces it by the other. -/
def TypedTask.AgeFree (task : TypedTask) (parent : TaskRecord) (aging : Option AgingConfig)
    (defaults : ModuleSubmitDefaults) (now : Int) : Prop :=
  ∀ config, aging = some config →
    let own := task.config.priority.getD normalPriority
    let inherited := parent.effectivePriority (some config) now
    own ≤ inherited ∨ own = normalPriority ∧ defaults.priority = some inherited ∨
      inherited = normalPriority ∧ defaults.priority = some own

section Agreement

variable {ttls : SchedulerTtls} {s : Store} {now : Int} {parent : TaskRecord} {handle : ModuleHandle}
    {sub : TaskSubmission}

theorem SchedulerTtls.resolveTtl_eq : ttls.resolveTtl sub =
    { sub with ttl := sub.ttl.or ((ttls.typeTtl sub.taskType).or ttls.defaultTtl) } := by
  obtain ⟨_, _, _, _, _, _, _, _, _, _, ttl, _, _, _, _, _, _, _, _⟩ := sub
  unfold SchedulerTtls.resolveTtl
  cases ttl with
  | some t => rfl
  | none =>
    dsimp only
    cases ttls.typeTtl _ with
    | some t => rfl
    | none => cases ttls.defaultTtl <;> rfl

/-- A priority under the default of a module. -/
def ModuleSubmitDefaults.priorityOf (defaults : ModuleSubmitDefaults) (own : Priority) : Priority :=
  match defaults.priority with
  | some p => if own == normalPriority then p else own
  | none => own

theorem SubmitBuilder.applyPrefix_eq (b : SubmitBuilder) : b.applyPrefix sub =
    { sub with
      taskType := if b.moduleName.isEmpty then sub.taskType else b.moduleName ++ "::" ++ sub.taskType
      label := if !b.moduleName.isEmpty && sub.label == sub.taskType then b.moduleName ++ "::" ++ sub.taskType
        else sub.label } := by
  unfold SubmitBuilder.applyPrefix
  cases b.moduleName.isEmpty with
  | true => rfl
  | false =>
    by_cases hlabel : sub.label = sub.taskType
    · simp [hlabel]
    · simp [hlabel]

/-- What `ModuleHandle::submit` makes of a submission. -/
theorem ModuleHandle.resolve_eq : (handle.submit sub).resolve =
    { (handle.submit sub).applyPrefix sub with
      priority := handle.defaults.priorityOf sub.priority
      groupKey := sub.groupKey.or handle.defaults.group
      ttl := sub.ttl.or handle.defaults.ttl
      tags := sub.tags.orInsertAll handle.defaults.tags.entries } := by
  have hgroup : (match handle.defaults.group with
      | some g => if false || sub.groupKey.isNone then some g else sub.groupKey
      | none => sub.groupKey) = sub.groupKey.or handle.defaults.group := by
    cases sub.groupKey <;> cases handle.defaults.group <;> rfl
  have httl : (match handle.defaults.ttl with
      | some t => if false || sub.ttl.isNone then some t else sub.ttl
      | none => sub.ttl) = sub.ttl.or handle.defaults.ttl := by
    cases sub.ttl <;> cases handle.defaults.ttl <;> rfl
  rw [← hgroup, ← httl, SubmitBuilder.resolve]
  show SubmitBuilder.applyOverrides (handle.submit sub)
    (SubmitBuilder.applyDefaults _ ((handle.submit sub).applyPrefix sub)) = _
  rw [SubmitBuilder.applyPrefix_eq]
  simp [ModuleHandle.submit, SubmitBuilder.applyOverrides, SubmitBuilder.applyDefaults, SubmitBuilder.mergeModuleTags,
    SubmitBuilder.applyModuleScalarDefaults, Tags.empty, ModuleSubmitDefaults.priorityOf]

/-- The child of `parent` before TTL and tags are inherited. -/
private def childBase (handle : ModuleHandle) (parent : TaskRecord) (sub : TaskSubmission) : TaskSubmission :=
  { (handle.submit sub).resolve with parentId := some parent.id }

private theorem same_iff {base : TaskSubmission} {ttl ttl' : Option Duration} {ttlFrom ttlFrom' : TtlFrom}
    {tags tags' : Tags} :
    TaskSubmission.Same { base with ttl := ttl, ttlFrom := ttlFrom, tags := tags }
      { base with ttl := ttl', ttlFrom := ttlFrom', tags := tags' } ↔
    ttl = ttl' ∧ ttlFrom = ttlFrom' ∧ ∀ k, tags.get k = tags'.get k := by
  constructor
  · rintro ⟨hfields, htags⟩
    simp only [TaskSubmission.mk.injEq, true_and, and_true] at hfields
    exact ⟨hfields.1, hfields.2, htags⟩
  · rintro ⟨rfl, rfl, htags⟩
    exact ⟨rfl, htags⟩

/-- The TTLs of the scheduler, for a type. -/
private def lastTtl (ttls : SchedulerTtls) (taskType : String) : Option Duration :=
  (ttls.typeTtl taskType).or ttls.defaultTtl

/-- A prepared child that goes through the module. -/
private theorem resolve_prepared :
    ttls.resolveTtl (handle.submit
      (ModuleHandle.inherit parent now { sub with parentId := some parent.id })).resolve =
      { childBase handle parent sub with
        ttl := ((sub.ttl.or (parent.remainingTtl now)).or handle.defaults.ttl).or
          (lastTtl ttls (childBase handle parent sub).taskType)
        ttlFrom := if sub.ttl.isNone && (parent.remainingTtl now).isSome then .submission else sub.ttlFrom
        tags := (sub.tags.orInsertAll parent.tags).orInsertAll handle.defaults.tags.entries } := by
  rw [SchedulerTtls.resolveTtl_eq, childBase, ModuleHandle.resolve_eq, ModuleHandle.resolve_eq,
    ModuleHandle.inherit_eq, SubmitBuilder.applyPrefix_eq, SubmitBuilder.applyPrefix_eq]
  rfl

/-- A child of the module that inherits. -/
private theorem inherit_resolved :
    ttls.resolveTtl (ModuleHandle.inherit parent now ((handle.submit sub).parent parent.id).resolve) =
      { childBase handle parent sub with
        ttl := ((sub.ttl.or handle.defaults.ttl).or (parent.remainingTtl now)).or
          (lastTtl ttls (childBase handle parent sub).taskType)
        ttlFrom := if (sub.ttl.or handle.defaults.ttl).isNone && (parent.remainingTtl now).isSome then .submission
          else sub.ttlFrom
        tags := (sub.tags.orInsertAll handle.defaults.tags.entries).orInsertAll parent.tags } := by
  have hparent : ((handle.submit sub).parent parent.id).resolve = childBase handle parent sub := rfl
  rw [hparent, SchedulerTtls.resolveTtl_eq, ModuleHandle.inherit_eq, childBase, ModuleHandle.resolve_eq,
    SubmitBuilder.applyPrefix_eq]
  rfl

/-- A prepared child that goes through the module and inherits once more, as in a batch. -/
private theorem inherit_resolve_prepared :
    ttls.resolveTtl (ModuleHandle.inherit parent now
        (handle.submit (ModuleHandle.inherit parent now { sub with parentId := some parent.id })).resolve) =
      { childBase handle parent sub with
        ttl := (((sub.ttl.or (parent.remainingTtl now)).or handle.defaults.ttl).or (parent.remainingTtl now)).or
          (lastTtl ttls (childBase handle parent sub).taskType)
        ttlFrom := if ((sub.ttl.or (parent.remainingTtl now)).or handle.defaults.ttl).isNone &&
            (parent.remainingTtl now).isSome then .submission
          else if sub.ttl.isNone && (parent.remainingTtl now).isSome then .submission else sub.ttlFrom
        tags := ((sub.tags.orInsertAll parent.tags).orInsertAll handle.defaults.tags.entries).orInsertAll
            parent.tags } := by
  rw [SchedulerTtls.resolveTtl_eq, ModuleHandle.inherit_eq, childBase, ModuleHandle.resolve_eq,
    ModuleHandle.resolve_eq, ModuleHandle.inherit_eq, SubmitBuilder.applyPrefix_eq, SubmitBuilder.applyPrefix_eq]
  rfl

/-- Inheriting twice is inheriting once. -/
private theorem prepared_same :
    (ttls.resolveTtl (handle.submit
      (ModuleHandle.inherit parent now { sub with parentId := some parent.id })).resolve).Same
      (ttls.resolveTtl (ModuleHandle.inherit parent now
        (handle.submit (ModuleHandle.inherit parent now { sub with parentId := some parent.id })).resolve)) := by
  rw [resolve_prepared, inherit_resolve_prepared, same_iff]
  refine ⟨?_, ?_, fun k => ?_⟩
  · cases sub.ttl <;> cases parent.remainingTtl now <;> cases handle.defaults.ttl <;> rfl
  · cases sub.ttl <;> cases parent.remainingTtl now <;> cases handle.defaults.ttl <;> rfl
  · simp only [Tags.get_orInsertAll]
    cases sub.tags.get k <;> cases parent.tags.lookup k <;> cases handle.defaults.tags.entries.lookup k <;> rfl

/-- The module before the parent, or the parent before the module. -/
private theorem prepared_same_iff :
    (ttls.resolveTtl (handle.submit
      (ModuleHandle.inherit parent now { sub with parentId := some parent.id })).resolve).Same
      (ttls.resolveTtl (ModuleHandle.inherit parent now ((handle.submit sub).parent parent.id).resolve)) ↔
    sub.OrderFree parent handle.defaults now := by
  rw [resolve_prepared, inherit_resolved, same_iff]
  constructor
  · rintro ⟨httl, hfrom, htags⟩
    refine ⟨fun hnone remaining hremaining t ht => ?_, fun k hnone v hv w hw => ?_⟩
    · simp only [hnone, hremaining, ht, Option.none_or, Option.some_or, Option.some.injEq] at httl hfrom
      exact ⟨httl.symm, hfrom.symm⟩
    · have hk := htags k
      rw [Tags.get] at hw
      simp only [Tags.get_orInsertAll, hnone, hv, hw, Option.none_or, Option.some_or, Option.some.injEq] at hk
      exact hk.symm
  · rintro ⟨httl, htags⟩
    refine ⟨?_, ?_, fun k => ?_⟩
    · cases hown : sub.ttl with
      | some t => rfl
      | none =>
        cases hremaining : parent.remainingTtl now with
        | none => cases handle.defaults.ttl <;> rfl
        | some remaining =>
          cases hdefault : handle.defaults.ttl with
          | none => rfl
          | some t =>
            obtain ⟨rfl, _⟩ := httl hown remaining hremaining t hdefault
            rfl
    · cases hown : sub.ttl with
      | some t => rfl
      | none =>
        cases hremaining : parent.remainingTtl now with
        | none => cases handle.defaults.ttl <;> rfl
        | some remaining =>
          cases hdefault : handle.defaults.ttl with
          | none => rfl
          | some t =>
            obtain ⟨_, hfrom⟩ := httl hown remaining hremaining t hdefault
            exact hfrom.symm
    · simp only [Tags.get_orInsertAll]
      cases hown : sub.tags.get k with
      | some v => rfl
      | none =>
        cases hparent : parent.tags.lookup k with
        | none => cases handle.defaults.tags.entries.lookup k <;> rfl
        | some v =>
          cases hdefault : handle.defaults.tags.entries.lookup k with
          | none => rfl
          | some w =>
            obtain rfl := htags k hown v hparent w hdefault
            rfl

/-- Two priorities are the same under the default of a module. -/
private theorem priorityOf_eq_iff {defaults : ModuleSubmitDefaults} {own inherited : Priority} :
    defaults.priorityOf (min inherited own) = defaults.priorityOf own ↔
      own ≤ inherited ∨ own = normalPriority ∧ defaults.priority = some inherited ∨
        inherited = normalPriority ∧ defaults.priority = some own := by
  by_cases hle : inherited ≤ own
  · rw [show min inherited own = inherited from if_pos hle]
    have hiff : own ≤ inherited ↔ inherited = own := ⟨fun h => UInt8.le_antisymm hle h, fun h => h ▸ UInt8.le_refl _⟩
    unfold ModuleSubmitDefaults.priorityOf
    rw [hiff]
    cases hdefault : defaults.priority with
    | none => simp
    | some p =>
      simp only [beq_iff_eq, Option.some.injEq]
      by_cases hown : own = normalPriority
      · by_cases hinherited : inherited = normalPriority
        · simp [hown, hinherited]
        · simp [hown, hinherited, eq_comm]
      · by_cases hinherited : inherited = normalPriority
        · simp [hown, hinherited, eq_comm]
        · simp [hown, hinherited]
  · rw [show min inherited own = own from if_neg hle]
    exact ⟨fun _ => .inl ((UInt8.le_total own inherited).resolve_right hle), fun _ => rfl⟩

variable {modules : List ModuleEntry} {aging : Option AgingConfig}

/-- A task with a registered module goes the way of the modules. -/
private theorem owningModule_nonempty (h : (buildTaskContext parent modules aging).currentModule = some handle) :
    (buildTaskContext parent modules aging).owningModule.isEmpty = false := by
  obtain ⟨entry, hfind, rfl⟩ := Option.map_eq_some_iff.1 h
  have hname : (entry.name == (buildTaskContext parent modules aging).owningModule) = true :=
    List.find?_some (p := fun e : ModuleEntry => e.name == _) hfind
  rw [← beq_iff_eq.1 hname]
  exact entry.name_nonempty

private theorem spawnChild_eq (h : (buildTaskContext parent modules aging).currentModule = some handle) :
    (buildTaskContext parent modules aging).spawnChild ttls s now sub = some (ttls.resolveTtl
      (handle.submit (ModuleHandle.inherit parent now { sub with parentId := some parent.id })).resolve) := by
  rw [← ChildSpawner.prepare_eq modules aging _ rfl]
  unfold TaskContext.spawnChild
  rw [h, owningModule_nonempty h]
  rfl

private theorem spawnChildren_eq (h : (buildTaskContext parent modules aging).currentModule = some handle)
    (hparent : (s.taskRecordById parent.id).map (·.parentContext) = some parent.parentContext)
    (subs : List TaskSubmission) :
    (buildTaskContext parent modules aging).spawnChildren ttls s now subs = some (subs.map fun sub =>
      ttls.resolveTtl (ModuleHandle.inherit parent now
        (handle.submit (ModuleHandle.inherit parent now { sub with parentId := some parent.id })).resolve)) := by
  have hprepare : ∀ spawner, (buildTaskContext parent modules aging).childSpawner = some spawner →
      spawner.prepare now = fun sub => ModuleHandle.inherit parent now { sub with parentId := some parent.id } :=
    fun spawner hspawner => funext fun sub => ChildSpawner.prepare_eq modules aging spawner hspawner
  unfold TaskContext.spawnChildren
  rw [h, owningModule_nonempty h]
  show some (handle.submitBatch (subs.map (ChildSpawner.prepare _ now)) ttls s now) = _
  rw [hprepare _ rfl, ModuleHandle.submitBatch]
  cases subs with
  | nil => rfl
  | cons sub subs =>
    have hid : ((((sub :: subs).map fun sub =>
      ModuleHandle.inherit parent now { sub with parentId := some parent.id }).map
        fun sub => (handle.submit sub).resolve).head?.bind (·.parentId)) = some parent.id := by
      simp only [List.map_cons, List.head?_cons, Option.bind_some]
      rw [ModuleHandle.resolve_eq, SubmitBuilder.applyPrefix_eq, ModuleHandle.inherit_eq]
    obtain ⟨stored, hstored, hcontext⟩ := Option.map_eq_some_iff.1 hparent
    simp only [hid, hstored]
    rw [List.map_map, List.map_map, List.map_map, ModuleHandle.inherit_congr hcontext]
    rfl

private theorem builder_eq (hparent : (s.taskRecordById parent.id).map (·.parentContext) =
      some parent.parentContext) :
    ((handle.submit sub).parent parent.id).submit ttls s now =
      ttls.resolveTtl (ModuleHandle.inherit parent now ((handle.submit sub).parent parent.id).resolve) := by
  obtain ⟨stored, hstored, hcontext⟩ := Option.map_eq_some_iff.1 hparent
  rw [← ModuleHandle.inherit_congr hcontext, ← SubmitBuilder.inherit_eq]
  unfold SubmitBuilder.submit
  simp only [SubmitBuilder.parent, hstored]

private theorem fromTyped_priority (task : TypedTask) (now : Int) :
    (TaskSubmission.fromTyped task now).priority = task.config.priority.getD normalPriority := by
  obtain ⟨_, ⟨_, _, _, _, _, _, _, recurring⟩, payload, key, _, tags⟩ := task
  unfold TaskSubmission.fromTyped
  dsimp only
  cases tags.entries.isEmpty <;> cases payload <;> cases recurring <;> cases key <;> rfl

/-- The priority of a child that is prepared and goes through the module. -/
private theorem resolve_prepared_priority :
    (ttls.resolveTtl (handle.submit
      (ModuleHandle.inherit parent now { sub with parentId := some parent.id })).resolve).priority =
      handle.defaults.priorityOf sub.priority := by
  rw [resolve_prepared, childBase, ModuleHandle.resolve_eq]

private theorem inherit_resolve_prepared_priority :
    (ttls.resolveTtl (ModuleHandle.inherit parent now (handle.submit
      (ModuleHandle.inherit parent now { sub with parentId := some parent.id })).resolve)).priority =
      handle.defaults.priorityOf sub.priority := by
  rw [inherit_resolve_prepared, childBase, ModuleHandle.resolve_eq]

/-- The typed builder gives a child of the task the lower of two priorities if there is aging. -/
private theorem spawnChildWith_priority (h : (buildTaskContext parent modules aging).currentModule = some handle)
    (task : TypedTask) :
    ∃ alone, ((buildTaskContext parent modules aging).spawnChildWith task).submit ttls s now = some alone ∧
      alone.priority = handle.defaults.priorityOf (match aging with
        | some config => min (parent.effectivePriority (some config) now) (task.config.priority.getD normalPriority)
        | none => task.config.priority.getD normalPriority) := by
  unfold ChildSpawnBuilder.submit
  refine ⟨_, spawnChild_eq h, ?_⟩
  rw [resolve_prepared_priority]
  cases aging with
  | some config => rfl
  | none => exact congrArg _ (fromTyped_priority task now)

end Agreement

/-- The ways to spawn a child agree exactly if, for each child, the module and the parent do not both set what it
leaves open, and for each typed child, the age of the parent leaves its priority alone. -/
theorem spawning_paths_agree_iff (ttls : SchedulerTtls) (s : Store) (now : Int) (parent : TaskRecord)
    (modules : List ModuleEntry) (aging : Option AgingConfig) (handle : ModuleHandle)
    (hmodule : (buildTaskContext parent modules aging).currentModule = some handle)
    (hparent : (s.taskRecordById parent.id).map (·.parentContext) = some parent.parentContext)
    (subs : List TaskSubmission) (tasks : List TypedTask) :
    (buildTaskContext parent modules aging).PathsAgree handle ttls s now subs tasks ↔
      (∀ sub ∈ subs, sub.OrderFree parent handle.defaults now) ∧
        ∀ task ∈ tasks, task.AgeFree parent aging handle.defaults now := by
  have hbuilder : ∀ sub, (∃ alone, (buildTaskContext parent modules aging).spawnChild ttls s now sub = some alone ∧
      alone.Same (((handle.submit sub).parent parent.id).submit ttls s now)) ↔
          sub.OrderFree parent handle.defaults now := by
    intro sub
    rw [builder_eq hparent]
    constructor
    · rintro ⟨alone, halone, hsame⟩
      rw [spawnChild_eq hmodule] at halone
      cases halone
      exact prepared_same_iff.1 hsame
    · intro hfree
      exact ⟨_, spawnChild_eq hmodule, prepared_same_iff.2 hfree⟩
  have htyped : ∀ task, (∃ alone, ((buildTaskContext parent modules aging).spawnChildWith task).submit ttls s now =
    some alone ∧
      alone.priority = (ttls.resolveTtl (ModuleHandle.inherit parent now
        (handle.submit (ModuleHandle.inherit parent now
        { TaskSubmission.fromTyped task now with parentId := some parent.id })).resolve)).priority) ↔
      task.AgeFree parent aging handle.defaults now := by
    intro task
    rw [inherit_resolve_prepared_priority, fromTyped_priority]
    obtain ⟨alone, halone, hpriority⟩ := @spawnChildWith_priority ttls s now _ _ _ _ hmodule task
    have hiff : alone.priority = handle.defaults.priorityOf (task.config.priority.getD normalPriority) ↔
        task.AgeFree parent aging handle.defaults now := by
      rw [hpriority]
      cases aging with
      | none => exact ⟨fun _ config hconfig => (nomatch hconfig), fun _ => rfl⟩
      | some config =>
        rw [priorityOf_eq_iff]
        constructor
        · rintro h config' ⟨⟩
          exact h
        · intro h
          exact h config rfl
    rw [← hiff]
    constructor
    · rintro ⟨alone', halone', h⟩
      rw [halone] at halone'
      cases halone'
      exact h
    · intro h
      exact ⟨alone, halone, h⟩
  constructor
  · rintro ⟨_, hsubs, children, hchildren, htasks⟩
    refine ⟨fun sub hsub => (hbuilder sub).1 (hsubs sub hsub), ?_⟩
    rw [TaskContext.spawnChildrenWith, spawnChildren_eq hmodule hparent, Option.some.injEq] at hchildren
    rw [← hchildren, List.map_map, List.forall₂_map_right_iff, List.forall₂_same] at htasks
    exact fun task htask => (htyped task).1 (htasks task htask)
  · rintro ⟨hsubs, htasks⟩
    refine ⟨⟨_, spawnChildren_eq hmodule hparent subs, ?_⟩, fun sub hsub => (hbuilder sub).2 (hsubs sub hsub),
      _, spawnChildren_eq hmodule hparent _, ?_⟩
    · rw [List.forall₂_map_right_iff, List.forall₂_same]
      exact fun sub _ => ⟨_, spawnChild_eq hmodule, prepared_same⟩
    · rw [List.map_map, List.forall₂_map_right_iff, List.forall₂_same]
      exact fun task htask => (htyped task).2 (htasks task htask)

/-- A task of the module `media` with a TTL of 100 seconds and a tag runs since the first second. -/
private def scanStore : Store := execAll sampleSha256 openMemory
  [.submitDirect { TaskSubmission.new "media::scan" with
      ttl := some (.fromSecs 100), tags := ⟨[("env", "prod")], by decide⟩ } 0, .claimTask 1 1000]

private def scanRecord : TaskRecord := (scanStore.taskRecordById 1).get (by decide +kernel)

/-- A module with a TTL of 60 seconds and a tag of the same key. -/
private def mediaModule : ModuleEntry where
  name := "media"
  name_nonempty := rfl
  defaultPriority := none
  defaultGroup := none
  defaultTtl := some (.fromSecs 60)
  defaultTags := ⟨[("env", "dev")], by decide⟩

private def noTtls : SchedulerTtls := ⟨fun _ => none, none⟩

private def minuteAging : AgingConfig := ⟨.fromSecs 300, .fromSecs 60, 64, none⟩

private theorem scan_currentModule :
    (buildTaskContext scanRecord [mediaModule] (some minuteAging)).currentModule = some (.new mediaModule) := by
  unfold TaskContext.currentModule
  rw [show (buildTaskContext scanRecord [mediaModule] (some minuteAging)).moduleRegistry = [mediaModule] from rfl,
    List.find?_cons_of_pos (by decide +kernel)]
  rfl

private theorem scan_stored : scanStore.taskRecordById scanRecord.id = some scanRecord := by decide +kernel

/-- A child that sets its own TTL and its own tag is the same child on every way. -/
theorem explicit_child_agrees :
    (buildTaskContext scanRecord [mediaModule] (some minuteAging)).PathsAgree (.new mediaModule) noTtls
      scanStore 10000000000
      [{ TaskSubmission.new "thumb" with ttl := some (.fromSecs 5), tags := ⟨[("env", "test")], by decide⟩ }]
      [{ taskType := "resize", config := { priority := some 64 }, payload := .ok [], key := none, label := none,
         tags := .empty }] := by
  refine (spawning_paths_agree_iff noTtls scanStore 10000000000 scanRecord [mediaModule] (some minuteAging) _
    scan_currentModule (by rw [scan_stored]; rfl) _ _).2 ⟨fun sub hsub => ?_, fun task htask => ?_⟩
  · obtain rfl := List.mem_singleton.1 hsub
    refine ⟨fun hnone => (nomatch hnone), fun k hnone v hv w _ => ?_⟩
    -- the only tag of the parent is one of the child
    have htags : scanRecord.tags = [("env", "prod")] := by decide +kernel
    rw [htags] at hv
    by_cases hk : k = "env"
    · rw [hk] at hnone
      cases hnone
    · rw [List.lookup_cons, beq_eq_false_iff_ne.2 hk] at hv
      cases hv
  · obtain rfl := List.mem_singleton.1 htask
    rintro config ⟨⟩
    left
    decide +kernel

/-- The parent's TTL wins over the module's in `spawn_child`, and loses to it in the builder. -/
theorem spawned_ttl_differs : scanStore.taskRecordById scanRecord.id = some scanRecord ∧
    (buildTaskContext scanRecord [mediaModule] (some minuteAging)).currentModule = some (.new mediaModule) ∧
    ¬ (buildTaskContext scanRecord [mediaModule] (some minuteAging)).PathsAgree (.new mediaModule) noTtls
      scanStore 10000000000
      [TaskSubmission.new "thumb"] [] := by
  refine ⟨scan_stored, scan_currentModule, fun h => ?_⟩
  obtain ⟨alone, halone, hsame⟩ := h.builder _ List.mem_cons_self
  have hspawned : ((buildTaskContext scanRecord [mediaModule] (some minuteAging)).spawnChild noTtls
    scanStore 10000000000
      (.new "thumb")).bind (·.ttl) = some (.fromSecs 90) := by decide +kernel
  rw [halone] at hspawned
  have hbuilt : alone.ttl = some (.fromSecs 60) :=
    (congrArg TaskSubmission.ttl hsame.fields).trans (by decide +kernel)
  exact absurd (hspawned.symm.trans hbuilt) (by decide)

end Taskmill
