import Taskmill.Scheduler.RateLimit
import Taskmill.Transact.Run

/-!
# Tokens at the gate

`DefaultDispatchGate::admit` (`src/scheduler/gate.rs`) takes its tokens last, after the checks that cost nothing, so
that "tokens are never wasted on downstream rejections".  But there are two buckets, one after the other: the token
of the type is gone when the bucket of the group has none (`AdmitCall.Wastes`), and that is the only way to waste
one (`never_wastes_iff`).
-/

namespace Taskmill

open Transact

/-- A bucket of the gate. -/
inductive TokenScope where
  | type (taskType : String)
  | group (groupKey : String)
deriving DecidableEq

/-- `type_rate_limits` and `group_rate_limits` -/
structure GateTokens where
  types : TimedLimits
  groups : TimedLimits

namespace GateTokens

def bucket (tokens : GateTokens) : TokenScope → Option TimedBucket
  | .type taskType => tokens.types.lookup taskType
  | .group groupKey => tokens.groups.lookup groupKey

/-- What a bucket holds after a refill. -/
def held (tokens : GateTokens) (scope : TokenScope) (now : Nat) : Option ℚ :=
  (tokens.bucket scope).map fun b => (b.refill now).available

end GateTokens

/-- A call of `admit`.  The gate, the counters and the task are those of the call (with `skip_group_concurrency`, a
gate without group limits); `failure` is the error of the query of the store at which the call ends, which is before
the first token. -/
structure AdmitCall where
  gate : GateConfig
  ctx : GateContext
  task : TaskRecord
  now : Nat
  failure : Option StoreError

/-- The result, the buckets after it, and the buckets that gave a token. -/
structure AdmitResult where
  result : Except StoreError Admission
  tokens : GateTokens
  taken : List TokenScope

namespace AdmitCall

/-- The bucket that gave a token, if one did. -/
def grantedBy (scope : TokenScope) : Option (Except Nat Unit) → List TokenScope
  | some (.ok ()) => [scope]
  | _ => []

/-- `admit` -/
def admission (call : AdmitCall) (tokens : GateTokens) : AdmitResult :=
  match call.failure with
  | some e => ⟨.error e, tokens, []⟩
  | none =>
    if call.gate.denies call.ctx call.task then ⟨.ok .deny, tokens, []⟩
    else
      match tokens.types.tryAcquire call.task.taskType call.now with
      | (some (.error next), types) => ⟨.ok (.rateLimited next), { tokens with types := types }, []⟩
      | (granted, types) =>
        let taken := grantedBy (.type call.task.taskType) granted
        match call.task.groupKey with
        | none => ⟨.ok .admitted, { tokens with types := types }, taken⟩
        | some groupKey =>
          match tokens.groups.tryAcquire groupKey call.now with
          | (some (.error next), groups) => ⟨.ok (.rateLimited next), ⟨types, groups⟩, taken⟩
          | (granted, groups) => ⟨.ok .admitted, ⟨types, groups⟩, taken ++ grantedBy (.group groupKey) granted⟩

/-- The task belongs to the bucket. -/
def InScope (call : AdmitCall) : TokenScope → Prop
  | .type taskType => call.task.taskType = taskType
  | .group groupKey => call.task.groupKey = some groupKey

instance (call : AdmitCall) (scope : TokenScope) : Decidable (call.InScope scope) := by
  unfold InScope
  split <;> infer_instance

/-- The bucket of the type has a token, and the bucket of the group has none. -/
structure Wastes (call : AdmitCall) (tokens : GateTokens) : Prop where
  reached : call.failure = none
  passes : call.gate.denies call.ctx call.task = false
  typeToken : ∃ n, tokens.held (.type call.task.taskType) call.now = some n ∧ 1 ≤ n
  noGroupToken : ∃ groupKey n, call.task.groupKey = some groupKey ∧
    tokens.held (.group groupKey) call.now = some n ∧ ¬1 ≤ n

end AdmitCall

/-- The tokens that a bucket has given in a run of calls. -/
def GateTokens.consumed (scope : TokenScope) : GateTokens → List AdmitCall → Nat
  | _, [] => 0
  | tokens, call :: calls =>
    (call.admission tokens).taken.count scope + consumed scope (call.admission tokens).tokens calls

/-- The tasks of a bucket that a run of calls has admitted. -/
def GateTokens.admitted (scope : TokenScope) : GateTokens → List AdmitCall → Nat
  | _, [] => 0
  | tokens, call :: calls =>
    (if (call.admission tokens).result = .ok .admitted ∧ call.InScope scope then 1 else 0) +
      admitted scope (call.admission tokens).tokens calls

/-- No token is wasted in a run of calls. -/
structure GateTokens.NeverWastes (tokens : GateTokens) (calls : List AdmitCall) : Prop where
  /-- a task that is not admitted costs nothing -/
  unchanged : Along (fun tokens call => (call.admission tokens).tokens)
    (fun tokens call => (call.admission tokens).result ≠ .ok .admitted →
      ∀ scope, (call.admission tokens).tokens.held scope call.now = tokens.held scope call.now) tokens calls
  /-- a bucket gives one token for each task that is admitted -/
  accounted : ∀ scope, (tokens.bucket scope).isSome = true → tokens.consumed scope calls = tokens.admitted scope calls

/-- A gate at which only the tokens count. -/
private def openGate : GateConfig := ⟨fun _ => false, none, .new, ∅, [], fun _ => 0, fun _ => 0⟩

/-- A task of type `a` in group `g`. -/
private def admitA : AdmitCall :=
  ⟨openGate, ⟨fun _ => 0, {}, ∅, ∅, ∅⟩, { dispatchedA with groupKey := some "g" }, 0, none⟩

/-- Two tokens for the type and one for the group: the second task takes a token of the type and is not admitted. -/
theorem type_token_wasted :
    ¬GateTokens.NeverWastes
      ⟨AList.insert "a" (.new (.perSecond 2) 0) ∅, AList.insert "g" (.new (.perSecond 1) 0) ∅⟩ [admitA, admitA] := by
  intro h
  have hsecond := h.unchanged.2.1 (by decide +kernel) (.type "a")
  exact absurd hsecond (by decide +kernel)

/-! ### Single calls -/

/-- A second refill at the same time adds nothing. -/
theorem available_refill_refill (b : TimedBucket) (now : Nat) :
    ((b.refill now).refill now).available = (b.refill now).available := by
  unfold TimedBucket.refill
  cases b.rate with
  | none => rfl
  | some rate => simp

/-- `try_acquire` changes no bucket but the one of its scope, and this one only if it gives a token. -/
theorem held_tryAcquire (limits : TimedLimits) (key scope : String) (now : Nat)
    (h : key ≠ scope ∨ (limits.tryAcquire scope now).1 ≠ some (.ok ())) :
    ((limits.tryAcquire scope now).2.lookup key).map (fun b => (b.refill now).available) =
      (limits.lookup key).map fun b => (b.refill now).available := by
  rw [TimedLimits.lookup_tryAcquire, Option.map_map]
  cases hb : limits.lookup key with
  | none => rfl
  | some b =>
    rw [Option.map_some, Option.map_some]
    congr 1
    simp only [Function.comp_apply]
    by_cases hk : key = scope
    · rw [if_pos hk, TimedBucket.exec_tryAcquire]
      have hdenied := h.resolve_left (not_not.2 hk)
      rw [← hk, limits.tryAcquire_of_some key now hb] at hdenied
      rcases b.tryAcquire_cases now with ⟨_, hrun⟩ | ⟨_, hrun⟩
      · exact absurd (by rw [hrun]) hdenied
      · rw [hrun]
        exact available_refill_refill b now
    · rw [if_neg hk]

theorem isSome_tryAcquire (limits : TimedLimits) (key scope : String) (now : Nat) :
    ((limits.tryAcquire scope now).2.lookup key).isSome = (limits.lookup key).isSome := by
  rw [TimedLimits.lookup_tryAcquire, Option.isSome_map]

/-- The three answers of a collection. -/
theorem tryAcquire_answer (limits : TimedLimits) (scope : String) (now : Nat) :
    (limits.lookup scope = none ∧ (limits.tryAcquire scope now).1 = none) ∨
    (∃ b, limits.lookup scope = some b ∧ 1 ≤ (b.refill now).available ∧
      (limits.tryAcquire scope now).1 = some (.ok ())) ∨
    (∃ b next, limits.lookup scope = some b ∧ ¬1 ≤ (b.refill now).available ∧
      (limits.tryAcquire scope now).1 = some (.error next)) := by
  cases hb : limits.lookup scope with
  | none =>
    rw [limits.tryAcquire_of_none scope now hb]
    exact .inl ⟨rfl, rfl⟩
  | some b =>
    rw [limits.tryAcquire_of_some scope now hb]
    right
    rcases b.tryAcquire_cases now with ⟨hone, hrun⟩ | ⟨hone, hrun⟩
    · exact .inl ⟨b, rfl, hone, by rw [hrun]⟩
    · exact .inr ⟨b, _, rfl, hone, by rw [hrun]⟩

namespace AdmitCall

variable {call : AdmitCall} {tokens : GateTokens}

/-- What a call can come to. -/
inductive Outcome (call : AdmitCall) (tokens : GateTokens) : AdmitResult → Prop
  /-- an error, or one of the checks that cost nothing -/
  | refused {result : Except StoreError Admission} (h : result ≠ .ok .admitted) (hw : ¬call.Wastes tokens) :
    Outcome call tokens ⟨result, tokens, []⟩
  /-- the bucket of the type has no token -/
  | typeLimited {next : Nat} {types : TimedLimits}
      (ht : tokens.types.tryAcquire call.task.taskType call.now = (some (.error next), types))
      (hw : ¬call.Wastes tokens) :
    Outcome call tokens ⟨.ok (.rateLimited next), { tokens with types := types }, []⟩
  /-- the bucket of the group has no token -/
  | groupLimited {granted : Option (Except Nat Unit)} {next : Nat} {types groups : TimedLimits} {groupKey : String}
      (ht : tokens.types.tryAcquire call.task.taskType call.now = (granted, types))
        (hg : call.task.groupKey = some groupKey)
      (hgroup : tokens.groups.tryAcquire groupKey call.now = (some (.error next), groups))
      (hw : call.Wastes tokens ↔ granted = some (.ok ())) (hfree : granted = none ∨ granted = some (.ok ())) :
    Outcome call tokens ⟨.ok (.rateLimited next), ⟨types, groups⟩, grantedBy (.type call.task.taskType) granted⟩
  | admittedAlone {granted : Option (Except Nat Unit)} {types : TimedLimits}
      (ht : tokens.types.tryAcquire call.task.taskType call.now = (granted, types))
      (hfree : granted = none ∧ tokens.bucket (.type call.task.taskType) = none ∨ granted = some (.ok ()))
      (hg : call.task.groupKey = none) (hw : ¬call.Wastes tokens) :
    Outcome call tokens ⟨.ok .admitted, { tokens with types := types }, grantedBy (.type call.task.taskType) granted⟩
  | admittedInGroup {granted granted' : Option (Except Nat Unit)} {types groups : TimedLimits} {groupKey : String}
      (ht : tokens.types.tryAcquire call.task.taskType call.now = (granted, types))
      (hfree : granted = none ∧ tokens.bucket (.type call.task.taskType) = none ∨ granted = some (.ok ()))
      (hg : call.task.groupKey = some groupKey)
      (hgroup : tokens.groups.tryAcquire groupKey call.now = (granted', groups))
      (hfree' : granted' = none ∧ tokens.bucket (.group groupKey) = none ∨ granted' = some (.ok ()))
        (hw : ¬call.Wastes tokens) :
    Outcome call tokens ⟨.ok .admitted, ⟨types, groups⟩,
      grantedBy (.type call.task.taskType) granted ++ grantedBy (.group groupKey) granted'⟩

theorem held_eq {scope : TokenScope} {now : Nat} {b : TimedBucket} (h : tokens.bucket scope = some b) :
    tokens.held scope now = some (b.refill now).available := by
  unfold GateTokens.held
  rw [h]
  rfl

theorem outcome_admission (call : AdmitCall) (tokens : GateTokens) : call.Outcome tokens (call.admission tokens) := by
  cases hfailure : call.failure with
  | some e =>
    have hresult : call.admission tokens = ⟨.error e, tokens, []⟩ := by
      unfold admission
      rw [hfailure]
    rw [hresult]
    exact .refused nofun fun hw => by rw [hw.reached] at hfailure; cases hfailure
  | none =>
    cases hdenies : call.gate.denies call.ctx call.task with
    | true =>
      have hresult : call.admission tokens = ⟨.ok .deny, tokens, []⟩ := by
        unfold admission
        rw [hfailure, hdenies]
        rfl
      rw [hresult]
      exact .refused nofun fun hw => by rw [hw.passes] at hdenies; cases hdenies
    | false =>
      have hunfold : call.admission tokens = match tokens.types.tryAcquire call.task.taskType call.now with
          | (some (.error next), types) => ⟨.ok (.rateLimited next), { tokens with types := types }, []⟩
          | (granted, types) =>
            match call.task.groupKey with
            | none => ⟨.ok .admitted, { tokens with types := types }, grantedBy (.type call.task.taskType) granted⟩
            | some groupKey =>
              match tokens.groups.tryAcquire groupKey call.now with
              | (some (.error next), groups) =>
                ⟨.ok (.rateLimited next), ⟨types, groups⟩, grantedBy (.type call.task.taskType) granted⟩
              | (granted', groups) => ⟨.ok .admitted, ⟨types, groups⟩,
                  grantedBy (.type call.task.taskType) granted ++ grantedBy (.group groupKey) granted'⟩ := by
        unfold admission
        rw [hfailure, hdenies]
        rfl
      -- the type has no bucket, or its bucket gives a token
      have hpast : ∀ granted types, tokens.types.tryAcquire call.task.taskType call.now = (granted, types) →
          (granted = none ∧ tokens.bucket (.type call.task.taskType) = none ∨
            granted = some (.ok ()) ∧ ∃ n, tokens.held (.type call.task.taskType) call.now = some n ∧ 1 ≤ n) →
          call.Outcome tokens (call.admission tokens) := by
        intro granted types ht hfree
        have hfree₁ : granted = none ∧ tokens.bucket (.type call.task.taskType) = none ∨ granted = some (.ok ()) :=
          hfree.imp_right And.left
        have hnext : call.admission tokens = match call.task.groupKey with
            | none => ⟨.ok .admitted, { tokens with types := types }, grantedBy (.type call.task.taskType) granted⟩
            | some groupKey =>
              match tokens.groups.tryAcquire groupKey call.now with
              | (some (.error next), groups) =>
                ⟨.ok (.rateLimited next), ⟨types, groups⟩, grantedBy (.type call.task.taskType) granted⟩
              | (granted', groups) => ⟨.ok .admitted, ⟨types, groups⟩,
                  grantedBy (.type call.task.taskType) granted ++ grantedBy (.group groupKey) granted'⟩ := by
          rw [hunfold, ht]
          rcases hfree₁ with ⟨rfl, _⟩ | rfl
          · rfl
          · rfl
        cases hg : call.task.groupKey with
        | none =>
          rw [hg] at hnext
          rw [hnext]
          exact .admittedAlone ht hfree₁ hg fun hw => by
            obtain ⟨g, n, hg', _⟩ := hw.noGroupToken
            rw [hg'] at hg
            cases hg
        | some groupKey =>
          rw [hg] at hnext
          have hanswer := tryAcquire_answer tokens.groups groupKey call.now
          cases hgroup : tokens.groups.tryAcquire groupKey call.now with
          | mk granted' groups =>
            simp only [hgroup] at hnext
            rw [hgroup] at hanswer
            rcases hanswer with ⟨hnone, hgranted⟩ | ⟨b, hb, hone, hgranted⟩ | ⟨b, next, hb, hno, hgranted⟩
            · obtain rfl : granted' = none := hgranted
              rw [hnext]
              refine .admittedInGroup ht hfree₁ hg hgroup (.inl ⟨rfl, hnone⟩) fun hw => ?_
              obtain ⟨g, n, hg', hheld, _⟩ := hw.noGroupToken
              obtain rfl : groupKey = g := Option.some.inj (hg.symm.trans hg')
              have hbucket : tokens.bucket (.group groupKey) = none := hnone
              unfold GateTokens.held at hheld
              rw [hbucket] at hheld
              cases hheld
            · obtain rfl : granted' = some (.ok ()) := hgranted
              rw [hnext]
              refine .admittedInGroup ht hfree₁ hg hgroup (.inr rfl) fun hw => ?_
              obtain ⟨g, n, hg', hheld, hno⟩ := hw.noGroupToken
              obtain rfl : groupKey = g := Option.some.inj (hg.symm.trans hg')
              have hbucket : tokens.bucket (.group groupKey) = some b := hb
              rw [held_eq hbucket] at hheld
              obtain rfl := Option.some.inj hheld
              exact hno hone
            · obtain rfl : granted' = some (.error next) := hgranted
              rw [hnext]
              refine .groupLimited ht hg hgroup ⟨fun hw => ?_, fun hgr => ?_⟩ (hfree.imp And.left And.left)
              · rcases hfree with ⟨_, hbucket⟩ | ⟨hgr, _⟩
                · obtain ⟨n, hheld, _⟩ := hw.typeToken
                  unfold GateTokens.held at hheld
                  rw [hbucket] at hheld
                  cases hheld
                · exact hgr
              · have hbucket : tokens.bucket (.group groupKey) = some b := hb
                have htoken := hfree.resolve_left fun hnone => by
                  rw [hgr] at hnone
                  cases hnone.1
                exact ⟨hfailure, hdenies, htoken.2, groupKey, _, hg, held_eq hbucket, hno⟩
      cases ht : tokens.types.tryAcquire call.task.taskType call.now with
      | mk granted types =>
        have hanswer := tryAcquire_answer tokens.types call.task.taskType call.now
        rw [ht] at hanswer
        rcases hanswer with ⟨hnone, hgranted⟩ | ⟨b, hb, hone, hgranted⟩ | ⟨b, next, hb, hno, hgranted⟩
        · exact hpast granted types ht (.inl ⟨hgranted, hnone⟩)
        · have hbucket : tokens.bucket (.type call.task.taskType) = some b := hb
          exact hpast granted types ht (.inr ⟨hgranted, _, held_eq hbucket, hone⟩)
        · obtain rfl : granted = some (.error next) := hgranted
          rw [hunfold, ht]
          refine .typeLimited ht fun hw => ?_
          obtain ⟨n, hheld, hone⟩ := hw.typeToken
          have hbucket : tokens.bucket (.type call.task.taskType) = some b := hb
          rw [held_eq hbucket] at hheld
          obtain rfl := Option.some.inj hheld
          exact hno hone

/-- Buckets are neither made nor lost. -/
theorem isSome_bucket_admission (call : AdmitCall) (tokens : GateTokens) (scope : TokenScope) :
    ((call.admission tokens).tokens.bucket scope).isSome = (tokens.bucket scope).isSome := by
  have htypes : ∀ {granted types}, tokens.types.tryAcquire call.task.taskType call.now = (granted, types) → ∀ key,
      (types.lookup key).isSome = (tokens.types.lookup key).isSome := by
    intro granted types ht key
    have hsome := isSome_tryAcquire tokens.types key call.task.taskType call.now
    rwa [ht] at hsome
  have hgroups : ∀ {granted groups groupKey}, tokens.groups.tryAcquire groupKey call.now = (granted, groups) → ∀ key,
      (groups.lookup key).isSome = (tokens.groups.lookup key).isSome := by
    intro granted groups groupKey hg key
    have hsome := isSome_tryAcquire tokens.groups key groupKey call.now
    rwa [hg] at hsome
  have houtcome := call.outcome_admission tokens
  generalize call.admission tokens = r at houtcome ⊢
  cases houtcome with
  | refused => rfl
  | typeLimited ht =>
    cases scope with
    | type key => exact htypes ht key
    | group key => rfl
  | groupLimited ht _ hgroup =>
    cases scope with
    | type key => exact htypes ht key
    | group key => exact hgroups hgroup key
  | admittedAlone ht =>
    cases scope with
    | type key => exact htypes ht key
    | group key => rfl
  | admittedInGroup ht _ _ hgroup =>
    cases scope with
    | type key => exact htypes ht key
    | group key => exact hgroups hgroup key

/-- A call that is refused and wastes nothing leaves all tokens. -/
theorem held_of_refused (hw : ¬call.Wastes tokens) (hresult : (call.admission tokens).result ≠ .ok .admitted)
    (scope : TokenScope) :
    (call.admission tokens).tokens.held scope call.now = tokens.held scope call.now := by
  have htypes : ∀ {granted types}, tokens.types.tryAcquire call.task.taskType call.now = (granted, types) →
      granted ≠ some (.ok ()) → ∀ key, (types.lookup key).map (fun b => (b.refill call.now).available) =
        (tokens.types.lookup key).map fun b => (b.refill call.now).available := by
    intro granted types ht hgranted key
    have hheld := held_tryAcquire tokens.types key call.task.taskType call.now (.inr (by rw [ht]; exact hgranted))
    rwa [ht] at hheld
  have houtcome := call.outcome_admission tokens
  generalize call.admission tokens = r at houtcome hresult ⊢
  cases houtcome with
  | refused => rfl
  | typeLimited ht =>
    cases scope with
    | type key => exact htypes ht nofun key
    | group key => rfl
  | groupLimited ht _ hgroup hwastes =>
    cases scope with
    | type key => exact htypes ht (fun hgranted => hw (hwastes.2 hgranted)) key
    | group key =>
      have hheld := held_tryAcquire tokens.groups key _ call.now (.inr (by rw [hgroup]; nofun))
      rw [hgroup] at hheld
      exact hheld
  | admittedAlone => exact absurd rfl hresult
  | admittedInGroup => exact absurd rfl hresult

theorem count_grantedBy_of_ne {other : TokenScope} (h : other ≠ scope) (granted : Option (Except Nat Unit)) :
    (grantedBy other granted).count scope = 0 := by
  rw [List.count_eq_zero]
  unfold grantedBy
  split
  · simpa using h.symm
  · simp

/-- A bucket that is there gives its token if the task is not stopped. -/
theorem count_grantedBy {granted : Option (Except Nat Unit)} (hb : (tokens.bucket scope).isSome = true)
    (hfree : granted = none ∧ tokens.bucket scope = none ∨ granted = some (.ok ())) :
    (grantedBy scope granted).count scope = 1 := by
  rcases hfree with ⟨_, hnone⟩ | rfl
  · rw [hnone] at hb
    cases hb
  · exact List.count_singleton_self

/-- Without waste, a bucket gives its token to the tasks that are admitted. -/
theorem count_taken (hb : (tokens.bucket scope).isSome = true) (hw : ¬call.Wastes tokens) :
    (call.admission tokens).taken.count scope =
      if (call.admission tokens).result = .ok .admitted ∧ call.InScope scope then 1 else 0 := by
  have houtcome := call.outcome_admission tokens
  generalize call.admission tokens = r at houtcome ⊢
  cases houtcome with
  | refused h => rw [if_neg fun hin => h hin.1]; rfl
  | typeLimited => rw [if_neg fun hin => nomatch hin.1]; rfl
  | groupLimited _ _ _ hwastes hfree =>
    obtain rfl := hfree.resolve_right fun hgranted => hw (hwastes.2 hgranted)
    rw [if_neg fun hin => nomatch hin.1]
    rfl
  | admittedAlone _ hfree hg =>
    by_cases hin : call.InScope scope
    · rw [if_pos ⟨rfl, hin⟩]
      cases scope with
      | type taskType =>
        obtain rfl : call.task.taskType = taskType := hin
        exact count_grantedBy hb hfree
      | group groupKey =>
        have hin : call.task.groupKey = some groupKey := hin
        rw [hg] at hin
        cases hin
    · rw [if_neg fun h => hin h.2]
      exact count_grantedBy_of_ne (fun h => hin (by rw [← h]; rfl)) _
  | @admittedInGroup _ _ _ _ groupKey _ hfree hg _ hfree' =>
    rw [List.count_append]
    cases scope with
    | type taskType =>
      have hother : TokenScope.group groupKey ≠ .type taskType := nofun
      rw [count_grantedBy_of_ne hother, Nat.add_zero]
      by_cases hin : call.task.taskType = taskType
      · subst hin
        rw [if_pos ⟨rfl, rfl⟩]
        exact count_grantedBy hb hfree
      · rw [if_neg fun h => hin h.2]
        exact count_grantedBy_of_ne (fun h => hin (by simpa using h)) _
    | group key =>
      have hother : TokenScope.type call.task.taskType ≠ .group key := nofun
      rw [count_grantedBy_of_ne hother, Nat.zero_add]
      by_cases hin : groupKey = key
      · subst hin
        rw [if_pos ⟨rfl, hg⟩]
        exact count_grantedBy hb hfree'
      · rw [if_neg fun h => hin (Option.some.inj (hg.symm.trans h.2))]
        exact count_grantedBy_of_ne (fun h => hin (by simpa using h)) _

/-- The waste. -/
theorem admission_of_wastes (hw : call.Wastes tokens) :
    (call.admission tokens).taken = [.type call.task.taskType] ∧ (call.admission tokens).result ≠ .ok .admitted := by
  have houtcome := call.outcome_admission tokens
  generalize call.admission tokens = r at houtcome ⊢
  cases houtcome with
  | refused _ hno => exact absurd hw hno
  | typeLimited _ hno => exact absurd hw hno
  | groupLimited _ _ _ hwastes =>
    obtain rfl := hwastes.1 hw
    exact ⟨rfl, nofun⟩
  | admittedAlone _ _ _ hno => exact absurd hw hno
  | admittedInGroup _ _ _ _ _ hno => exact absurd hw hno

/-- The bucket of the type has the token that is wasted. -/
theorem isSome_of_wastes (hw : call.Wastes tokens) : (tokens.bucket (.type call.task.taskType)).isSome = true := by
  obtain ⟨n, hheld, _⟩ := hw.typeToken
  unfold GateTokens.held at hheld
  cases hb : tokens.bucket (.type call.task.taskType) with
  | none =>
    rw [hb] at hheld
    cases hheld
  | some b => rfl

end AdmitCall

/-! ### Runs of calls -/

namespace GateTokens

variable {tokens : GateTokens} {scope : TokenScope}

/-- No task is admitted without its token. -/
theorem admitted_le_consumed (hb : (tokens.bucket scope).isSome = true) (calls : List AdmitCall) :
    tokens.admitted scope calls ≤ tokens.consumed scope calls := by
  induction calls generalizing tokens with
  | nil => exact Nat.le_refl 0
  | cons call calls ih =>
    have hrest := ih ((call.isSome_bucket_admission tokens scope).trans hb)
    have hfirst : (if (call.admission tokens).result = .ok .admitted ∧ call.InScope scope then 1 else 0) ≤
        (call.admission tokens).taken.count scope := by
      by_cases hw : call.Wastes tokens
      · rw [if_neg fun h => (AdmitCall.admission_of_wastes hw).2 h.1]
        exact Nat.zero_le _
      · exact (AdmitCall.count_taken hb hw).ge
    exact Nat.add_le_add hfirst hrest

theorem not_wastes_of_accounted {calls : List AdmitCall}
    (h : ∀ scope, (tokens.bucket scope).isSome = true → tokens.consumed scope calls = tokens.admitted scope calls) :
    Along (fun tokens call => (call.admission tokens).tokens)
    (fun tokens call => ¬call.Wastes tokens) tokens calls := by
  induction calls generalizing tokens with
  | nil => trivial
  | cons call calls ih =>
    have hw : ¬call.Wastes tokens := by
      intro hw
      have hb := AdmitCall.isSome_of_wastes hw
      have hsum := h _ hb
      have hrest := admitted_le_consumed (((call.isSome_bucket_admission tokens _).trans hb)) calls
      obtain ⟨htaken, hresult⟩ := AdmitCall.admission_of_wastes hw
      unfold consumed admitted at hsum
      rw [htaken, List.count_singleton_self, if_neg fun hin => hresult hin.1] at hsum
      omega
    refine ⟨hw, ih fun scope hb => ?_⟩
    rw [call.isSome_bucket_admission] at hb
    have hsum := h scope hb
    unfold consumed admitted at hsum
    rw [AdmitCall.count_taken hb hw] at hsum
    exact Nat.add_left_cancel hsum

end GateTokens

/-- No token is wasted exactly where no call takes the token of the type with none for the group. -/
theorem never_wastes_iff (tokens : GateTokens) (calls : List AdmitCall) :
    tokens.NeverWastes calls ↔
      Along (fun tokens call => (call.admission tokens).tokens)
      (fun tokens call => ¬call.Wastes tokens) tokens calls := by
  refine ⟨fun h => GateTokens.not_wastes_of_accounted h.accounted, fun h => ⟨?_, fun scope hb => ?_⟩⟩
  · exact h.mono fun tokens call hw => AdmitCall.held_of_refused hw
  · induction calls generalizing tokens with
    | nil => rfl
    | cons call calls ih =>
      have hrest := ih _ h.2 ((call.isSome_bucket_admission tokens scope).trans hb)
      unfold GateTokens.consumed GateTokens.admitted
      rw [AdmitCall.count_taken hb h.1, hrest]

end Taskmill
