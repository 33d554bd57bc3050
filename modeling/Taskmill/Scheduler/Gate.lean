import Taskmill.Scheduler.Memory
import Mathlib.Data.List.AList

/-!
# The limits of the gate

What the dispatch gate checks: group limits and module caps (`src/scheduler/gate.rs`), rate limits
(`src/scheduler/rate_limit.rs`) and the weights of fair scheduling (`src/scheduler/fair.rs`).  Tokens are counted in
whole ones; what the clock adds to a bucket is an argument where a bucket is refilled.
-/

namespace Taskmill

/-- A `HashMap` with strings as keys. -/
abbrev StringMap (β : Type) := AList fun _ : String => β

namespace StringMap

variable {β : Type}

def isEmpty (m : StringMap β) : Bool := m.entries.isEmpty

def ofList (entries : List (String × β)) : StringMap β := entries.foldl (fun m e => AList.insert e.1 e.2 m) ∅

@[simp] theorem isEmpty_insert (key : String) (value : β) (m : StringMap β) :
    isEmpty (AList.insert key value m) = false := by
  rw [isEmpty, AList.entries_insert]
  rfl

@[simp] theorem isEmpty_empty : isEmpty (∅ : StringMap β) = true := rfl

theorem isEmpty_erase {m : StringMap β} (h : m.isEmpty = true) (key : String) :
    isEmpty (AList.erase key m) = true := by
  have hm : m = ∅ := AList.ext (List.isEmpty_iff.1 h)
  rw [hm]
  rfl

/-- A map that is built from a list is empty if the list is. -/
theorem isEmpty_ofList (entries : List (String × β)) : isEmpty (ofList entries) = entries.isEmpty := by
  induction entries using List.reverseRecOn with
  | nil => rfl
  | append_singleton entries e _ =>
    rw [ofList, List.foldl_append, List.foldl_cons, List.foldl_nil, isEmpty_insert]
    simp

end StringMap

/-! ### Group limits -/

/-- `GroupLimits` -/
structure GroupLimits where
  default : Nat
  overrides : StringMap Nat

namespace GroupLimits

def new : GroupLimits := ⟨0, ∅⟩

/-- `limit_for` -/
def limitFor (limits : GroupLimits) (group : String) : Option Nat :=
  match limits.overrides.lookup group with
  | some limit => some limit
  | none => if 0 < limits.default then some limits.default else none

/-- `set_limit` -/
def setLimit (limits : GroupLimits) (group : String) (limit : Nat) : GroupLimits :=
  { limits with overrides := limits.overrides.insert group limit }

/-- `remove_limit` -/
def removeLimit (limits : GroupLimits) (group : String) : GroupLimits :=
  { limits with overrides := limits.overrides.erase group }

/-- `set_default` -/
def setDefault (limits : GroupLimits) (limit : Nat) : GroupLimits := { limits with default := limit }

/-- `has_overrides` -/
def hasOverrides (limits : GroupLimits) : Bool := !limits.overrides.isEmpty

end GroupLimits

/-! ### Rate limits -/

/-- `RateLimit`; the interval in nanoseconds -/
structure RateLimit where
  permits : UInt32
  interval : Nat
  burst : UInt32
deriving DecidableEq, Repr

/-- `TokenBucket` -/
structure TokenBucket where
  available : Nat
  config : RateLimit
deriving DecidableEq, Repr

/-- A bucket is full at first. -/
def TokenBucket.new (config : RateLimit) : TokenBucket := ⟨config.burst.toNat, config⟩

/-- `reconfigure`, when the refill has left `settled` tokens -/
def TokenBucket.reconfigure (settled : Nat) (config : RateLimit) : TokenBucket :=
  ⟨min settled config.burst.toNat, config⟩

/-- `RateLimits` -/
abbrev RateLimits := StringMap TokenBucket

/-- `RateLimits::set` -/
def RateLimits.set (limits : RateLimits) (scope : String) (config : RateLimit) (settled : Nat) : RateLimits :=
  match limits.lookup scope with
  | some _ => limits.insert scope (.reconfigure settled config)
  | none => limits.insert scope (.new config)

/-- `RateLimits::remove` -/
def RateLimits.remove (limits : RateLimits) (scope : String) : RateLimits := limits.erase scope

theorem RateLimits.isEmpty_set (limits : RateLimits) (scope : String) (config : RateLimit) (settled : Nat) :
    (limits.set scope config settled).isEmpty = false := by
  rw [RateLimits.set]
  split
  · exact StringMap.isEmpty_insert ..
  · exact StringMap.isEmpty_insert ..

/-! ### Group weights -/

/-- `GroupWeights` -/
structure GroupWeights where
  defaultWeight : UInt32
  weights : StringMap UInt32
  minSlots : StringMap Nat

namespace GroupWeights

def new : GroupWeights := ⟨1, ∅, ∅⟩

/-- `set_weight` -/
def setWeight (w : GroupWeights) (group : String) (weight : UInt32) : GroupWeights :=
  { w with weights := w.weights.insert group weight }

/-- `remove_weight` -/
def removeWeight (w : GroupWeights) (group : String) : GroupWeights := { w with weights := w.weights.erase group }

/-- `set_min_slots` -/
def setMinSlots (w : GroupWeights) (group : String) (slots : Nat) : GroupWeights :=
  { w with minSlots := w.minSlots.insert group slots }

/-- `is_configured` -/
def isConfigured (w : GroupWeights) : Bool := !w.weights.isEmpty || !w.minSlots.isEmpty

end GroupWeights

end Taskmill
