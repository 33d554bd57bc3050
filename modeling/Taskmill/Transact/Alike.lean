import Taskmill.Transact.Txn
import Mathlib.Data.List.Forall2

/-!
# Two runs side by side

`Txn.Alike T Q x y`: from states related by `T`, the runs of `x` and `y` both succeed with results related by `Q`, or
both fail with the same error, and they leave states related by `T`.
-/

namespace Transact

variable {σ ε α β γ δ : Type}

/-- Two results are both errors, the same one, or both successes related by `Q`. -/
inductive SameOutcome (Q : α → β → Prop) : Except ε α → Except ε β → Prop
  | ok {a : α} {b : β} (h : Q a b) : SameOutcome Q (.ok a) (.ok b)
  | error (e : ε) : SameOutcome Q (.error e) (.error e)

/-- Results like those of calls that all succeeded. -/
theorem SameOutcome.all_ok {Q : α → β → Prop} {xs : List (Except ε α)} {bs : List β}
    (h : List.Forall₂ (SameOutcome Q) xs (bs.map .ok)) : ∃ as, xs = as.map .ok ∧ List.Forall₂ Q as bs := by
  induction bs generalizing xs with
  | nil =>
    cases h
    exact ⟨[], rfl, .nil⟩
  | cons b bs ih =>
    rw [List.map_cons] at h
    cases h with
    | cons hx hxs =>
      obtain ⟨as, rfl, has⟩ := ih hxs
      cases hx with
      | ok hab => exact ⟨_ :: as, rfl, .cons hab has⟩

/-- Results like those of calls one of which failed. -/
theorem SameOutcome.error_mem {Q : α → β → Prop} {xs : List (Except ε α)} {ys : List (Except ε β)}
    (h : List.Forall₂ (SameOutcome Q) xs ys) {e : ε} (he : .error e ∈ ys) : .error e ∈ xs := by
  induction h with
  | nil => cases he
  | cons hxy _ ih =>
    rcases List.mem_cons.1 he with rfl | he
    · cases hxy
      exact List.mem_cons_self ..
    · exact List.mem_cons_of_mem _ (ih he)

namespace Txn

/-- Related states before give the same outcome and related states after. -/
def Alike (T : σ → σ → Prop) (Q : α → β → Prop) (x : Txn σ ε α) (y : Txn σ ε β) : Prop :=
  ∀ s t, T s t → SameOutcome Q (x s).1 (y t).1 ∧ T (x s).2 (y t).2

namespace Alike

variable {T : σ → σ → Prop} {Q : α → β → Prop} {Q' : γ → δ → Prop}

theorem pure {a : α} {b : β} (h : Q a b) : Alike T Q (Pure.pure a : Txn σ ε α) (Pure.pure b) :=
  fun _ _ hst => ⟨.ok h, hst⟩

theorem modify {f g : σ → σ} (h : ∀ s t, T s t → T (f s) (g t)) :
    Alike T (fun _ _ => True) (Txn.modify f : Txn σ ε Unit) (Txn.modify g) :=
  fun s t hst => ⟨.ok trivial, h s t hst⟩

/-- Reading the state and computing something from it. -/
theorem map_get {f : σ → α} {g : σ → β} (h : ∀ s t, T s t → Q (f s) (g t)) :
    Alike T Q (f <$> Txn.get : Txn σ ε α) (g <$> Txn.get) :=
  fun s t hst => ⟨.ok (h s t hst), hst⟩

theorem get_bind {f g : σ → Txn σ ε α} {R : α → α → Prop} (h : ∀ s t, T s t → Alike T R (f s) (g t)) :
    Alike T R (Txn.get >>= f) (Txn.get >>= g) := by
  intro s t hst
  rw [get_bind_apply, get_bind_apply]
  exact h s t hst s t hst

theorem bind {x : Txn σ ε α} {y : Txn σ ε β} {f : α → Txn σ ε γ} {g : β → Txn σ ε δ} (hxy : Alike T Q x y)
    (hfg : ∀ a b, Q a b → Alike T Q' (f a) (g b)) : Alike T Q' (x >>= f) (y >>= g) := by
  intro s t hst
  obtain ⟨hout, hst'⟩ := hxy s t hst
  rw [bind_apply, bind_apply]
  rcases hx : x s with ⟨e | a, s'⟩
  · rcases hy : y t with ⟨e' | b, t'⟩
    · rw [hx, hy] at hout hst'
      cases hout
      exact ⟨.error e, hst'⟩
    · rw [hx, hy] at hout
      cases hout
  · rcases hy : y t with ⟨e' | b, t'⟩
    · rw [hx, hy] at hout
      cases hout
    · rw [hx, hy] at hout hst'
      cases hout with
      | ok hab => exact hfg a b hab s' t' hst'

/-- Brackets, if restoring keeps related states related. -/
theorem atomically {x : Txn σ ε α} {y : Txn σ ε β} (hxy : Alike T Q x y) {undo : σ → σ → σ}
    (hu : ∀ s s' t t', T s t → T s' t' → T (undo s s') (undo t t')) :
    Alike T Q (Txn.atomically undo x) (Txn.atomically undo y) := by
  intro s t hst
  obtain ⟨hout, hst'⟩ := hxy s t hst
  rcases hx : x s with ⟨e | a, s'⟩
  · rcases hy : y t with ⟨e' | b, t'⟩
    · rw [hx, hy] at hout hst'
      rw [atomically_of_error hx, atomically_of_error hy]
      exact ⟨hout, hu s s' t t' hst hst'⟩
    · rw [hx, hy] at hout
      cases hout
  · rcases hy : y t with ⟨e' | b, t'⟩
    · rw [hx, hy] at hout
      cases hout
    · rw [hx, hy] at hout hst'
      rw [atomically_of_ok hx, atomically_of_ok hy]
      exact ⟨hout, hst'⟩

/-- Calls one after the other. -/
theorem each {f : γ → Txn σ ε α} {g : γ → Txn σ ε β} {xs : List γ} (h : ∀ x ∈ xs, Alike T Q (f x) (g x)) {s t : σ}
    (hst : T s t) :
    List.Forall₂ (SameOutcome Q)
    (Txn.each f xs s).1 (Txn.each g xs t).1 ∧ T (Txn.each f xs s).2 (Txn.each g xs t).2 := by
  induction xs generalizing s t with
  | nil => exact ⟨.nil, hst⟩
  | cons x xs ih =>
    obtain ⟨hout, hst'⟩ := h x (List.mem_cons_self ..) s t hst
    obtain ⟨hrest, hlast⟩ := ih (fun y hy => h y (List.mem_cons_of_mem _ hy)) hst'
    exact ⟨.cons hout hrest, hlast⟩

end Alike

end Txn

end Transact
