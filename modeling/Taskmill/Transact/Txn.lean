import Mathlib.Logic.Basic

/-!
# Statement sequences over a state

A `Txn σ ε α` runs statements one after the other on a state `σ`.  A statement that fails stops the sequence with an
error of type `ε`, but what the statements before it did is still there: undoing it is the business of
`atomically`, the transaction bracket, which restores the state on an error and keeps it on success.

`Txn.Ensures P x Q` is the partial-correctness triple of the successful runs, `Txn.Always R x` relates the states
before and after every run, failed ones included.
-/

namespace Transact

/-- Statements that read and write a state `σ`, return an `α` or stop with an error. -/
def Txn (σ ε α : Type) := σ → Except ε α × σ

namespace Txn

variable {σ ε α β : Type}

instance : Monad (Txn σ ε) where
  pure a := fun s => (.ok a, s)
  bind x f := fun s =>
    match x s with
    | (.ok a, s') => f a s'
    | (.error e, s') => (.error e, s')

/-- Read the state. -/
def get : Txn σ ε σ := fun s => (.ok s, s)

/-- A statement that cannot fail. -/
def modify (f : σ → σ) : Txn σ ε Unit := fun s => (.ok (), f s)

/-- Stop with an error. -/
def throw (e : ε) : Txn σ ε α := fun s => (.error e, s)

/-- Lift a check that does not touch the state. -/
def ofExcept (r : Except ε α) : Txn σ ε α := fun s => (r, s)

/-- The transaction bracket: on an error the state is restored by `undo before after`. -/
def atomically (undo : σ → σ → σ) (x : Txn σ ε α) : Txn σ ε α := fun s =>
  match x s with
  | (.ok a, s') => (.ok a, s')
  | (.error e, s') => (.error e, undo s s')

@[simp] theorem pure_apply (a : α) (s : σ) : (pure a : Txn σ ε α) s = (.ok a, s) := rfl

theorem bind_apply (x : Txn σ ε α) (f : α → Txn σ ε β) (s : σ) :
    (x >>= f) s =
      match x s with
      | (.ok a, s') => f a s'
      | (.error e, s') => (.error e, s') := rfl

@[simp] theorem get_apply (s : σ) : (get : Txn σ ε σ) s = (.ok s, s) := rfl

@[simp] theorem modify_apply (f : σ → σ) (s : σ) : (modify f : Txn σ ε Unit) s = (.ok (), f s) := rfl

@[simp] theorem throw_apply (e : ε) (s : σ) : (throw e : Txn σ ε α) s = (.error e, s) := rfl

@[simp] theorem ofExcept_apply (r : Except ε α) (s : σ) : (ofExcept r : Txn σ ε α) s = (r, s) := rfl

theorem bind_of_ok {x : Txn σ ε α} {f : α → Txn σ ε β} {s s' : σ} {a : α} (h : x s = (.ok a, s')) :
    (x >>= f) s = f a s' := by
  rw [bind_apply, h]

theorem bind_of_error {x : Txn σ ε α} {f : α → Txn σ ε β} {s s' : σ} {e : ε} (h : x s = (.error e, s')) :
    (x >>= f) s = (.error e, s') := by
  rw [bind_apply, h]

@[simp] theorem get_bind_apply (f : σ → Txn σ ε β) (s : σ) : (get >>= f) s = f s s := rfl

@[simp] theorem modify_bind_apply (g : σ → σ) (f : Unit → Txn σ ε β) (s : σ) :
    (modify g >>= f) s = f () (g s) := rfl

@[simp] theorem throw_bind_apply (e : ε) (f : α → Txn σ ε β) (s : σ) :
    ((throw e : Txn σ ε α) >>= f) s = (.error e, s) := rfl

@[simp] theorem pure_bind_apply (a : α) (f : α → Txn σ ε β) (s : σ) :
    ((pure a : Txn σ ε α) >>= f) s = f a s := rfl

/-- What has ended well has not failed. -/
theorem ok_ne_error {a : α} {e : ε} {s s' : σ} : ((.ok a, s) : Except ε α × σ) ≠ (.error e, s') := by
  intro h
  cases congrArg Prod.fst h

/-- A successful sequence splits into its successful parts. -/
theorem bind_ok {x : Txn σ ε α} {f : α → Txn σ ε β} {s s'' : σ} {b : β} (h : (x >>= f) s = (.ok b, s'')) :
    ∃ a s', x s = (.ok a, s') ∧ f a s' = (.ok b, s'') := by
  rw [bind_apply] at h
  split at h
  · exact ⟨_, _, ‹_›, h⟩
  · cases h

/-- A failed sequence failed in its first part, or in the rest after the first part succeeded. -/
theorem bind_error {x : Txn σ ε α} {f : α → Txn σ ε β} {s s'' : σ} {e : ε} (h : (x >>= f) s = (.error e, s'')) :
    x s = (.error e, s'') ∨ ∃ a s', x s = (.ok a, s') ∧ f a s' = (.error e, s'') := by
  rw [bind_apply] at h
  split at h
  · exact .inr ⟨_, _, ‹_›, h⟩
  · cases h
    exact .inl ‹_›

/-- What holds of the state that a sequence leaves, whether it fails in its first part, in the rest, or not at all. -/
theorem bind_state {I : σ → Prop} {x : Txn σ ε α} {f : α → Txn σ ε β} {s : σ}
    (hx : ∀ e s', x s = (.error e, s') → I s') (hf : ∀ a s', x s = (.ok a, s') → I (f a s').2) :
    I ((x >>= f) s).2 := by
  rw [bind_apply]
  split
  · exact hf _ _ ‹_›
  · exact hx _ _ ‹_›

/-- A computed result does not change the state that is left. -/
theorem bind_pure_state (x : Txn σ ε α) (g : α → β) (s : σ) : ((x >>= fun a => pure (g a)) s).2 = (x s).2 := by
  rw [bind_apply]
  split
  · rename_i heq
    rw [heq]
    rfl
  · rename_i heq
    rw [heq]

theorem atomically_of_ok {undo : σ → σ → σ} {x : Txn σ ε α} {s s' : σ} {a : α} (h : x s = (.ok a, s')) :
    atomically undo x s = (.ok a, s') := by
  simp only [atomically, h]

theorem atomically_of_error {undo : σ → σ → σ} {x : Txn σ ε α} {s s' : σ} {e : ε} (h : x s = (.error e, s')) :
    atomically undo x s = (.error e, undo s s') := by
  simp only [atomically, h]

/-- The state after a bracket is that of a successful run, or the restored one. -/
theorem atomically_cases (undo : σ → σ → σ) (x : Txn σ ε α) (s : σ) :
    (∃ a s', x s = (.ok a, s') ∧ atomically undo x s = (.ok a, s')) ∨
    (∃ e s', x s = (.error e, s') ∧ atomically undo x s = (.error e, undo s s')) := by
  rcases h : x s with ⟨_ | a, s'⟩
  · exact .inr ⟨_, _, rfl, atomically_of_error h⟩
  · exact .inl ⟨_, _, rfl, atomically_of_ok h⟩

/-! ### Relations between the state before and after -/

/-- Every run of `x`, failed or not, relates the state it starts from to the state it leaves. -/
def Always (R : σ → σ → Prop) (x : Txn σ ε α) : Prop := ∀ s, R s (x s).2

namespace Always

variable {R : σ → σ → Prop} {x : Txn σ ε α}

theorem pure (hr : ∀ s, R s s) (a : α) : Always R (Pure.pure a : Txn σ ε α) := fun s => hr s

theorem throw (hr : ∀ s, R s s) (e : ε) : Always R (Txn.throw e : Txn σ ε α) := fun s => hr s

theorem ofExcept (hr : ∀ s, R s s) (r : Except ε α) : Always R (Txn.ofExcept r : Txn σ ε α) := fun s => hr s

theorem get (hr : ∀ s, R s s) : Always R (Txn.get : Txn σ ε σ) := fun s => hr s

theorem modify {f : σ → σ} (hf : ∀ s, R s (f s)) : Always R (Txn.modify f : Txn σ ε Unit) := hf

theorem bind (ht : ∀ a b c, R a b → R b c → R a c) (hx : Always R x) {f : α → Txn σ ε β}
    (hf : ∀ a, Always R (f a)) : Always R (x >>= f) := by
  intro s
  have h := hx s
  rw [bind_apply]
  split
  · rename_i a s' heq
    rw [heq] at h
    exact ht _ _ _ h (hf a s')
  · rename_i e s' heq
    rw [heq] at h
    exact h

theorem atomically (hx : Always R x) {undo : σ → σ → σ} (hu : ∀ s s', R s s' → R s (undo s s')) :
    Always R (Txn.atomically undo x) := by
  intro s
  have h := hx s
  rcases atomically_cases undo x s with ⟨a, s', hok, he⟩ | ⟨e, s', herr, he⟩
  · rw [he]; rw [hok] at h; exact h
  · rw [he]; rw [herr] at h; exact hu s s' h

end Always

/-! ### Triples of the successful runs -/

/-- If `P` holds before a successful run of `x`, then `Q` holds of its result and the state after it. -/
def Ensures (P : σ → Prop) (x : Txn σ ε α) (Q : α → σ → Prop) : Prop :=
  ∀ s, P s → ∀ a s', x s = (.ok a, s') → Q a s'

namespace Ensures

variable {P : σ → Prop} {x : Txn σ ε α} {Q : α → σ → Prop}

theorem pure {a : α} (h : ∀ s, P s → Q a s) : Ensures P (Pure.pure a : Txn σ ε α) Q := by
  intro s hs b s' hb
  obtain ⟨rfl, rfl⟩ : a = b ∧ s = s' := by simpa using hb
  exact h s hs

theorem modify {f : σ → σ} {Q : Unit → σ → Prop} (h : ∀ s, P s → Q () (f s)) :
    Ensures P (Txn.modify f : Txn σ ε Unit) Q := by
  intro s hs b s' hb
  obtain rfl : f s = s' := by simpa using hb
  exact h s hs

theorem get {Q : σ → σ → Prop} (h : ∀ s, P s → Q s s) : Ensures P (Txn.get : Txn σ ε σ) Q := by
  intro s hs b s' hb
  obtain ⟨rfl, rfl⟩ : s = b ∧ s = s' := by simpa using hb
  exact h s hs

theorem ofExcept {r : Except ε α} (h : ∀ a, r = .ok a → ∀ s, P s → Q a s) :
    Ensures P (Txn.ofExcept r : Txn σ ε α) Q := by
  intro s hs a s' hb
  obtain ⟨hr, rfl⟩ : r = .ok a ∧ s = s' := by simpa using hb
  exact h a hr s hs

/-- Reading the state and computing something from it. -/
theorem map_get {g : σ → β} {Q : β → σ → Prop} (h : ∀ s, P s → Q (g s) s) :
    Ensures P (g <$> Txn.get : Txn σ ε β) Q := by
  intro s hs b s' hb
  obtain ⟨rfl, rfl⟩ : g s = b ∧ s = s' := by
    cases hb
    exact ⟨rfl, rfl⟩
  exact h s hs

theorem throw {e : ε} : Ensures P (Txn.throw e : Txn σ ε α) Q := by
  intro s _ b s' hb
  simp at hb

theorem bind {f : α → Txn σ ε β} {Q' : β → σ → Prop} (hx : Ensures P x Q)
    (hf : ∀ a, Ensures (Q a) (f a) Q') : Ensures P (x >>= f) Q' := by
  intro s hs b s'' hb
  obtain ⟨a, s', h₁, h₂⟩ := bind_ok hb
  exact hf a s' (hx s hs a s' h₁) b s'' h₂

theorem conseq {P' : σ → Prop} {Q' : α → σ → Prop} (h : Ensures P x Q) (hp : ∀ s, P' s → P s)
    (hq : ∀ a s, Q a s → Q' a s) : Ensures P' x Q' :=
  fun s hs a s' hx => hq a s' (h s (hp s hs) a s' hx)

/-- A bracket keeps an invariant that its body keeps when it succeeds and that restoring keeps. -/
theorem atomically {I : σ → Prop} (hx : Ensures I x fun _ => I) {undo : σ → σ → σ}
    (hu : ∀ s s', I s → I (undo s s')) {s : σ} (hs : I s) : I (Txn.atomically undo x s).2 := by
  rcases atomically_cases undo x s with ⟨a, s', hok, he⟩ | ⟨e, s', _, he⟩
  · rw [he]; exact hx s hs a s' hok
  · rw [he]; exact hu s s' hs

end Ensures

/-- From a state with `P` the run succeeds, and `Q` holds of its result and the state after it. -/
def Total (P : σ → Prop) (x : Txn σ ε α) (Q : α → σ → Prop) : Prop :=
  ∀ s, P s → ∃ a s', x s = (.ok a, s') ∧ Q a s'

namespace Total

variable {P : σ → Prop} {x : Txn σ ε α} {Q : α → σ → Prop}

theorem pure {a : α} (h : ∀ s, P s → Q a s) : Total P (Pure.pure a : Txn σ ε α) Q :=
  fun s hs => ⟨a, s, rfl, h s hs⟩

theorem modify {f : σ → σ} {Q : Unit → σ → Prop} (h : ∀ s, P s → Q () (f s)) :
    Total P (Txn.modify f : Txn σ ε Unit) Q :=
  fun s hs => ⟨(), f s, rfl, h s hs⟩

theorem map_get {g : σ → β} {Q : β → σ → Prop} (h : ∀ s, P s → Q (g s) s) :
    Total P (g <$> Txn.get : Txn σ ε β) Q :=
  fun s hs => ⟨g s, s, rfl, h s hs⟩

theorem bind {f : α → Txn σ ε β} {Q' : β → σ → Prop} (hx : Total P x Q) (hf : ∀ a, Total (Q a) (f a) Q') :
    Total P (x >>= f) Q' := by
  intro s hs
  obtain ⟨a, s₁, h₁, hq⟩ := hx s hs
  obtain ⟨b, s₂, h₂, hq'⟩ := hf a s₁ hq
  exact ⟨b, s₂, (bind_of_ok h₁).trans h₂, hq'⟩

end Total

/-! ### Loops -/

/-- `for x in xs`: the results in order, stopping at the first error. -/
def mapList (f : α → Txn σ ε β) : List α → Txn σ ε (List β)
  | [] => pure []
  | x :: xs => do
    let y ← f x
    let ys ← mapList f xs
    pure (y :: ys)

theorem Always.mapList {R : σ → σ → Prop} (hr : ∀ s, R s s) (ht : ∀ a b c, R a b → R b c → R a c)
    {f : α → Txn σ ε β} (hf : ∀ x, Always R (f x)) (xs : List α) : Always R (Txn.mapList f xs) := by
  induction xs with
  | nil => exact Always.pure hr _
  | cons x xs ih => exact (hf x).bind ht fun y => ih.bind ht fun ys => Always.pure hr _

/-- An invariant kept by every round is kept by the loop. -/
theorem Ensures.mapList {I : σ → Prop} {f : α → Txn σ ε β} {xs : List α}
    (hf : ∀ x ∈ xs, Ensures I (f x) fun _ => I) : Ensures I (Txn.mapList f xs) fun _ => I := by
  induction xs with
  | nil => exact Ensures.pure fun _ h => h
  | cons x xs ih =>
    refine (hf x (List.mem_cons_self ..)).bind fun y => ?_
    exact (ih fun z hz => hf z (List.mem_cons_of_mem _ hz)).bind fun ys => Ensures.pure fun _ h => h

/-- The error of a loop is the error of one of its rounds. -/
theorem mapList_error {f : α → Txn σ ε β} {xs : List α} {s s' : σ} {e : ε} (h : Txn.mapList f xs s = (.error e, s')) :
    ∃ x ∈ xs, ∃ s₁, f x s₁ = (.error e, s') := by
  induction xs generalizing s with
  | nil => cases h
  | cons x xs ih =>
    rcases bind_error h with h | ⟨y, s₁, _, h⟩
    · exact ⟨x, List.mem_cons_self .., s, h⟩
    · rcases bind_error h with h | ⟨ys, s₂, _, h⟩
      · obtain ⟨z, hz, s₃, hz'⟩ := ih h
        exact ⟨z, List.mem_cons_of_mem _ hz, s₃, hz'⟩
      · cases h

/-- In a loop that succeeds every round succeeds. -/
theorem mapList_ok {f : α → Txn σ ε β} {xs : List α} {s s' : σ} {ys : List β}
    (h : Txn.mapList f xs s = (.ok ys, s')) :
    ∀ x ∈ xs, ∃ y s₁ s₂, f x s₁ = (.ok y, s₂) := by
  induction xs generalizing s s' ys with
  | nil => exact fun x hx => absurd hx List.not_mem_nil
  | cons x xs ih =>
    obtain ⟨y, s₁, h₁, h⟩ := bind_ok h
    obtain ⟨ys', s₂, h₂, _⟩ := bind_ok h
    intro z hz
    rcases List.mem_cons.1 hz with rfl | hz
    · exact ⟨y, s, s₁, h₁⟩
    · exact ih h₂ z hz

/-- Two loop bodies that agree while an invariant holds, which the body keeps, give the same loop. -/
theorem mapList_congr {I : σ → Prop} {f g : α → Txn σ ε β} {xs : List α} (hfg : ∀ x ∈ xs, ∀ s, I s → f x s = g x s)
    (hI : ∀ x ∈ xs, Ensures I (f x) fun _ => I) {s : σ} (hs : I s) : Txn.mapList f xs s = Txn.mapList g xs s := by
  induction xs generalizing s with
  | nil => rfl
  | cons x xs ih =>
    rw [Txn.mapList, Txn.mapList, bind_apply, bind_apply, ← hfg x (List.mem_cons_self ..) s hs]
    split
    · rename_i a s₁ heq
      have hs₁ := hI x (List.mem_cons_self ..) s hs a s₁ heq
      rw [bind_apply, bind_apply, ih (fun y hy => hfg y (List.mem_cons_of_mem _ hy))
        (fun y hy => hI y (List.mem_cons_of_mem _ hy)) hs₁]
    · rfl

/-- The calls in order, each on its own: an error is a result like any other. -/
def each (f : α → Txn σ ε β) : List α → σ → List (Except ε β) × σ
  | [], s => ([], s)
  | x :: xs, s =>
    let (r, s₁) := f x s
    let (rs, s₂) := each f xs s₁
    (r :: rs, s₂)

/-- A loop over two lists that succeeds is a loop over the first and one over the second. -/
theorem mapList_append_ok {f : α → Txn σ ε β} {xs ys : List α} {s s' : σ} {rs : List β}
    (h : mapList f (xs ++ ys) s = (.ok rs, s')) :
    ∃ rs₁ s₁ rs₂, mapList f xs s = (.ok rs₁, s₁) ∧ mapList f ys s₁ = (.ok rs₂, s') ∧ rs = rs₁ ++ rs₂ := by
  induction xs generalizing s rs with
  | nil => exact ⟨[], s, rs, rfl, h, rfl⟩
  | cons x xs ih =>
    rw [List.cons_append, mapList] at h
    obtain ⟨y, s₁, h₁, h⟩ := bind_ok h
    obtain ⟨rs', s₂, h₂, h⟩ := bind_ok h
    cases h
    obtain ⟨rs₁, s₃, rs₂, hx, hy, rfl⟩ := ih h₂
    refine ⟨y :: rs₁, s₃, rs₂, ?_, hy, rfl⟩
    rw [mapList, bind_of_ok h₁, bind_of_ok hx]
    rfl

theorem mapList_append_of_ok {f : α → Txn σ ε β} {xs ys : List α} {s s₁ s₂ : σ} {rs₁ rs₂ : List β}
    (hx : mapList f xs s = (.ok rs₁, s₁)) (hy : mapList f ys s₁ = (.ok rs₂, s₂)) :
    mapList f (xs ++ ys) s = (.ok (rs₁ ++ rs₂), s₂) := by
  induction xs generalizing s rs₁ with
  | nil =>
    cases hx
    exact hy
  | cons x xs ih =>
    obtain ⟨y, s', h₁, hx⟩ := bind_ok hx
    obtain ⟨rs, s'', h₂, hx⟩ := bind_ok hx
    cases hx
    rw [List.cons_append, mapList, bind_of_ok h₁, bind_of_ok (ih h₂)]
    rfl

theorem mapList_map {γ : Type} (f : α → Txn σ ε β) (g : γ → α) (xs : List γ) :
    mapList f (xs.map g) = mapList (fun x => f (g x)) xs := by
  induction xs with
  | nil => rfl
  | cons x xs ih => rw [List.map_cons, mapList, mapList, ih]

/-- A loop that passes over some elements. -/
theorem mapList_filter_ok {γ : Type} {f : α → Txn σ ε (List γ)} {p : α → Bool} {xs : List α} {s s' : σ}
    {ys : List (List γ)} (h : Txn.mapList f (xs.filter p) s = (.ok ys, s')) :
    ∃ zs, Txn.mapList (fun x => if p x = true then f x else pure []) xs s = (.ok zs, s') ∧
      zs.flatten = ys.flatten := by
  induction xs generalizing s ys with
  | nil => exact ⟨ys, h, rfl⟩
  | cons x xs ih =>
    rw [List.filter_cons] at h
    by_cases hp : p x = true
    · rw [if_pos hp] at h
      obtain ⟨y, s₁, hfirst, h⟩ := bind_ok h
      obtain ⟨ys', s₂, hrest, h⟩ := bind_ok h
      cases h
      obtain ⟨zs, hloop, hzs⟩ := ih hrest
      refine ⟨y :: zs, ?_, by rw [List.flatten_cons, List.flatten_cons, hzs]⟩
      rw [mapList, if_pos hp, bind_of_ok hfirst, bind_of_ok hloop]
      rfl
    · rw [if_neg hp] at h
      obtain ⟨zs, hloop, hzs⟩ := ih h
      refine ⟨[] :: zs, ?_, by rw [List.flatten_cons, List.nil_append, hzs]⟩
      rw [mapList, if_neg hp, pure_bind_apply, bind_of_ok hloop]
      rfl

theorem each_map {γ : Type} (f : α → Txn σ ε β) (g : γ → α) (xs : List γ) (s : σ) :
    each f (xs.map g) s = each (fun x => f (g x)) xs s := by
  induction xs generalizing s with
  | nil => rfl
  | cons x xs ih => simp only [List.map_cons, each, ih]

theorem each_congr {f g : α → Txn σ ε β} {xs : List α} (h : ∀ x ∈ xs, f x = g x) (s : σ) :
    each f xs s = each g xs s := by
  induction xs generalizing s with
  | nil => rfl
  | cons x xs ih => simp only [each, h x (List.mem_cons_self ..), ih fun y hy => h y (List.mem_cons_of_mem _ hy)]

/-- Calls that do on their own what the rounds of a loop do: the loop succeeds with their results, or stops at an
error that one of them returns. -/
theorem each_mapList {I : σ → Prop} {f g : α → Txn σ ε β}
    (hok : ∀ x s a s', I s → f x s = (.ok a, s') → g x s = (.ok a, s') ∧ I s')
    (herr : ∀ x s e s', I s → f x s = (.error e, s') → ∃ s'', g x s = (.error e, s'')) (xs : List α)
    {s : σ} (hs : I s) :
    (∃ as, Txn.mapList f xs s = (.ok as, (each g xs s).2) ∧ (each g xs s).1 = as.map .ok) ∨
    ((∃ e s', Txn.mapList f xs s = (.error e, s')) ∧ ∃ e, .error e ∈ (each g xs s).1) := by
  induction xs generalizing s with
  | nil => exact .inl ⟨[], rfl, rfl⟩
  | cons x xs ih =>
    rcases hx : f x s with ⟨e | a, s₁⟩
    · obtain ⟨s'', hg⟩ := herr x s e s₁ hs hx
      refine .inr ⟨⟨e, s₁, bind_of_error hx⟩, e, ?_⟩
      rw [each, hg]
      exact List.mem_cons_self ..
    · obtain ⟨hg, hs₁⟩ := hok x s a s₁ hs hx
      rw [Txn.mapList, bind_of_ok hx, each, hg]
      rcases ih hs₁ with ⟨as, hm, hr⟩ | ⟨⟨e, s', hm⟩, e', hr⟩
      · refine .inl ⟨a :: as, ?_, ?_⟩
        · rw [bind_of_ok hm]
          rfl
        · dsimp only
          rw [hr]
          rfl
      · exact .inr ⟨⟨e, s', bind_of_error hm⟩, e', List.mem_cons_of_mem _ hr⟩

theorem Total.mapList {I : σ → Prop} {f : α → Txn σ ε β} (hf : ∀ x, Total I (f x) fun _ => I) (xs : List α) :
    Total I (Txn.mapList f xs) fun _ => I := by
  induction xs with
  | nil => exact Total.pure fun _ h => h
  | cons x xs ih => exact (hf x).bind fun y => ih.bind fun ys => Total.pure fun _ h => h

end Txn

end Transact
