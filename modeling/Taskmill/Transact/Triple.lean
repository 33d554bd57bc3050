import Taskmill.Transact.Txn

/-!
# Triples with two ends

A caller that goes on after an error sees the state that the failed part has left, so a triple here says what holds at
both ends: `Q` of the result and the state of a successful run, `E` of the error and the state of a failed one.
-/

namespace Transact

variable {σ ε α β : Type}

namespace Txn

/-- If `P` holds before, then `Q` holds after a successful run of `x` and `E` after a failed one. -/
def Triple (P : σ → Prop) (x : Txn σ ε α) (Q : α → σ → Prop) (E : ε → σ → Prop) : Prop :=
  ∀ s, P s → (∀ a s', x s = (.ok a, s') → Q a s') ∧ ∀ e s', x s = (.error e, s') → E e s'

namespace Triple

variable {P : σ → Prop} {x : Txn σ ε α} {Q : α → σ → Prop} {E : ε → σ → Prop}

/-- The ends of a run that succeeds. -/
theorem ends_ok {a : α} {s' : σ} (h : Q a s') : (∀ b t, ((.ok a, s') : Except ε α × σ) = (.ok b, t) → Q b t) ∧
    ∀ e t, ((.ok a, s') : Except ε α × σ) = (.error e, t) → E e t := by
  refine ⟨fun b t hb => ?_, fun e t he => ?_⟩
  · cases hb
    exact h
  · cases he

/-- The ends of a run that fails. -/
theorem ends_error {e : ε} {s' : σ} (h : E e s') : (∀ b t, ((.error e, s') : Except ε α × σ) = (.ok b, t) → Q b t) ∧
    ∀ e' t, ((.error e, s') : Except ε α × σ) = (.error e', t) → E e' t := by
  refine ⟨fun b t hb => ?_, fun e' t he => ?_⟩
  · cases hb
  · cases he
    exact h

theorem pure {a : α} (h : ∀ s, P s → Q a s) : Triple P (Pure.pure a : Txn σ ε α) Q E := by
  intro s hs
  exact ends_ok (h s hs)

theorem modify {f : σ → σ} {Q : Unit → σ → Prop} (h : ∀ s, P s → Q () (f s)) :
    Triple P (Txn.modify f : Txn σ ε Unit) Q E := by
  intro s hs
  exact ends_ok (h s hs)

theorem ofExcept {r : Except ε α} (hok : ∀ a, r = .ok a → ∀ s, P s → Q a s)
    (herr : ∀ e, r = .error e → ∀ s, P s → E e s) :
    Triple P (Txn.ofExcept r : Txn σ ε α) Q E := by
  intro s hs
  cases hr : r with
  | ok a => exact ends_ok (hok a hr s hs)
  | error e => exact ends_error (herr e hr s hs)

/-- Reading the state and computing something from it. -/
theorem map_get {g : σ → β} {Q : β → σ → Prop} (h : ∀ s, P s → Q (g s) s) :
    Triple P (g <$> Txn.get : Txn σ ε β) Q E := by
  intro s hs
  exact ends_ok (h s hs)

theorem bind {f : α → Txn σ ε β} {Q' : β → σ → Prop} (hx : Triple P x Q E) (hf : ∀ a, Triple (Q a) (f a) Q' E) :
    Triple P (x >>= f) Q' E := by
  intro s hs
  refine ⟨fun b s' hb => ?_, fun e s' he => ?_⟩
  · obtain ⟨a, s₁, h₁, h₂⟩ := bind_ok hb
    exact (hf a s₁ ((hx s hs).1 a s₁ h₁)).1 b s' h₂
  · rcases bind_error he with h | ⟨a, s₁, h₁, h₂⟩
    · exact (hx s hs).2 e s' h
    · exact (hf a s₁ ((hx s hs).1 a s₁ h₁)).2 e s' h₂

/-- Two ways to go on that agree on the states reached so far. -/
theorem bind_congr {y : Txn σ ε α} {f g : α → Txn σ ε β} (hx : Triple P x Q E) {s : σ} (hs : P s) (hxy : x s = y s)
    (hfg : ∀ a s', Q a s' → f a s' = g a s') : (x >>= f) s = (y >>= g) s := by
  rw [bind_apply, bind_apply, ← hxy]
  split
  · rename_i a s' h
    exact hfg a s' ((hx s hs).1 a s' h)
  · rfl

/-- A result is computed at the end. -/
theorem bind_pure {I : σ → Prop} {g : α → β} (hx : Triple P x (fun _ => I) E) :
    Triple P (x >>= fun a => Pure.pure (g a)) (fun _ => I) E := hx.bind fun _ => .pure fun _ h => h

/-- The state is read first. -/
theorem get_bind {f : σ → Txn σ ε β} {Q : β → σ → Prop} (hf : ∀ t, Triple P (f t) Q E) :
    Triple P (Txn.get >>= f) Q E := fun s hs => hf s s hs

theorem conseq {P' : σ → Prop} {Q' : α → σ → Prop} {E' : ε → σ → Prop} (h : Triple P x Q E) (hp : ∀ s, P' s → P s)
    (hq : ∀ a s, Q a s → Q' a s) (he : ∀ e s, E e s → E' e s) : Triple P' x Q' E' :=
  fun s hs => ⟨fun a s' hx => hq a s' ((h s (hp s hs)).1 a s' hx), fun e s' hx => he e s' ((h s (hp s hs)).2 e s' hx)⟩

/-- A run that is known to succeed. -/
theorem of_ok {f : σ → α} {g : σ → σ} (hx : ∀ s, P s → x s = (.ok (f s), g s)) (h : ∀ s, P s → Q (f s) (g s)) :
    Triple P x Q E := by
  intro s hs
  rw [hx s hs]
  exact ends_ok (h s hs)

/-- An invariant that every round keeps is kept by the loop. -/
theorem mapList {I : σ → Prop} {f : α → Txn σ ε β} {xs : List α} (hf : ∀ x ∈ xs, Triple I (f x) (fun _ => I) E) :
    Triple I (Txn.mapList f xs) (fun _ => I) E := by
  induction xs with
  | nil => exact .pure fun _ h => h
  | cons x xs ih =>
    have hhead := hf x List.mem_cons_self
    have hrest := ih fun y hy => hf y (List.mem_cons_of_mem _ hy)
    exact hhead.bind fun _ => hrest.bind fun _ => .pure fun _ h => h

/-- A bracket restores the state after an error. -/
theorem atomically {undo : σ → σ → σ} {E' : ε → σ → Prop} (hx : Triple P x Q E)
    (hu : ∀ s e s', P s → E e s' → E' e (undo s s')) : Triple P (Txn.atomically undo x) Q E' := by
  intro s hs
  rcases atomically_cases undo x s with ⟨a, s', hok, he⟩ | ⟨e, s', herr, he⟩
  · rw [he]
    exact ends_ok ((hx s hs).1 a s' hok)
  · rw [he]
    exact ends_error (hu s e s' hs ((hx s hs).2 e s' herr))

/-- What holds of the state at either end. -/
theorem state {I : σ → Prop} (h : Triple P x (fun _ => I) fun _ => I) {s : σ} (hs : P s) : I (x s).2 := by
  rcases hx : x s with ⟨e | a, s'⟩
  · exact (h s hs).2 e s' hx
  · exact (h s hs).1 a s' hx

end Triple

end Txn

end Transact
