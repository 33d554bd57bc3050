import Taskmill.Transact.Txn

/-!
# Runs of a transition system

States reached from the initial ones by steps that each meet a guard on the state before the step.  With the trivial
guard these are all reachable states; a stronger guard restricts the runs.
-/

namespace Transact

variable {σ α : Type}

/-- `Runs init step guard s`: some run leads to `s`, and every step `a` of it, taken in `s'`, had `guard s' a`. -/
inductive Runs (init : σ → Prop) (step : σ → α → σ) (guard : σ → α → Prop) : σ → Prop
  | start {s : σ} (h : init s) : Runs init step guard s
  | next {s : σ} (h : Runs init step guard s) (a : α) (ha : guard s a) : Runs init step guard (step s a)

variable {init : σ → Prop} {step : σ → α → σ} {guard : σ → α → Prop} {s : σ}

/-- What holds initially and is kept by every guarded step holds in every state of a run. -/
theorem Runs.invariant {I : σ → Prop} (h : Runs init step guard s) (h₀ : ∀ s, init s → I s)
    (hstep : ∀ s a, I s → guard s a → I (step s a)) : I s := by
  induction h with
  | start h => exact h₀ _ h
  | next _ a ha ih => exact hstep _ a ih ha

theorem Runs.mono {guard' : σ → α → Prop} (h : Runs init step guard s) (hg : ∀ s a, guard s a → guard' s a) :
    Runs init step guard' s := by
  induction h with
  | start h => exact .start h
  | next _ a ha ih => exact .next ih a (hg _ a ha)

/-- Every step of a list of steps meets the guard in the state in which it is taken. -/
def Along (step : σ → α → σ) (guard : σ → α → Prop) : σ → List α → Prop
  | _, [] => True
  | s, a :: as => guard s a ∧ Along step guard (step s a) as

theorem Along.mono {guard' : σ → α → Prop} (hg : ∀ s a, guard s a → guard' s a) {as : List α}
    (h : Along step guard s as) : Along step guard' s as := by
  induction as generalizing s with
  | nil => trivial
  | cons a as ih => exact ⟨hg s a h.1, ih h.2⟩

theorem Along.of_mem {as : List α} (hg : ∀ s, ∀ a ∈ as, guard s a) : Along step guard s as := by
  induction as generalizing s with
  | nil => trivial
  | cons a as ih => exact ⟨hg s a (List.mem_cons_self ..), ih fun s b hb => hg s b (List.mem_cons_of_mem _ hb)⟩

theorem Along.of_forall (hg : ∀ s a, guard s a) {as : List α} : Along step guard s as :=
  Along.of_mem fun s a _ => hg s a

/-- The guard in the states of the run, by the number of steps taken. -/
theorem Along.iff_getElem {as : List α} :
    Along step guard s as ↔ ∀ n a, as[n]? = some a → guard ((as.take n).foldl step s) a := by
  induction as generalizing s with
  | nil => exact iff_of_true trivial fun n a h => absurd h (by simp)
  | cons a as ih =>
    rw [Along, ih]
    constructor
    · rintro ⟨hfirst, hrest⟩ n b hb
      cases n with
      | zero =>
        obtain rfl : a = b := by simpa using hb
        exact hfirst
      | succ n => exact hrest n b (by simpa using hb)
    · intro h
      exact ⟨h 0 a rfl, fun n b hb => h (n + 1) b (by simpa using hb)⟩

/-- A run can be continued by a list of guarded steps. -/
theorem Runs.list (h : Runs init step guard s) (as : List α) (ha : Along step guard s as) :
    Runs init step guard (as.foldl step s) := by
  induction as generalizing s with
  | nil => exact h
  | cons a as ih => exact ih (.next h a ha.1) ha.2

/-- If the failure of a round is a condition on the state before it, a loop fails unless every round escapes it. -/
theorem Txn.mapList_fails_iff {ε α β : Type} {f : α → Txn σ ε β} {fails : σ → α → Prop}
    (hf : ∀ x s, (∃ e s', f x s = (.error e, s')) ↔ fails s x) (xs : List α) (s : σ) :
    (∃ e s', Txn.mapList f xs s = (.error e, s')) ↔ ¬ Along (fun s x => (f x s).2) (fun s x => ¬ fails s x) s xs := by
  induction xs generalizing s with
  | nil => simp [Txn.mapList, Along]
  | cons x xs ih =>
    rcases hx : f x s with ⟨e | y, s₁⟩
    · have hfails : fails s x := (hf x s).1 ⟨e, s₁, hx⟩
      constructor
      · exact fun _ h => h.1 hfails
      · exact fun _ => ⟨e, s₁, Txn.bind_of_error hx⟩
    · have hok : ¬ fails s x := by
        intro h
        obtain ⟨e, s', herr⟩ := (hf x s).2 h
        rw [hx] at herr
        cases herr
      have hrest : (∃ e s', Txn.mapList f (x :: xs) s = (.error e, s')) ↔
          ∃ e s', Txn.mapList f xs s₁ = (.error e, s') := by
        rw [Txn.mapList, Txn.bind_of_ok hx]
        constructor
        · rintro ⟨e, s', h⟩
          rcases Txn.bind_error h with h | ⟨ys, s₂, _, h⟩
          · exact ⟨e, s', h⟩
          · cases h
        · rintro ⟨e, s', h⟩
          exact ⟨e, s', Txn.bind_of_error h⟩
      have hnext : (f x s).2 = s₁ := by rw [hx]
      rw [hrest, ih, Along, hnext]
      simp [hok]

/-! ### Marks -/

/-- Some step has set the mark, and none has cleared it since. -/
def Standing (sets clears : α → Prop) (as : List α) : Prop :=
  ∃ before a after, as = before ++ a :: after ∧ sets a ∧ ∀ b ∈ after, ¬ clears b

theorem Standing.nil {sets clears : α → Prop} : ¬ Standing sets clears [] := by
  rintro ⟨before, a, after, h, _⟩
  simp at h

/-- The last step sets the mark, or leaves it standing. -/
theorem Standing.concat_iff {sets clears : α → Prop} {as : List α} {a : α} :
    Standing sets clears (as ++ [a]) ↔ sets a ∨ (Standing sets clears as ∧ ¬ clears a) := by
  constructor
  · rintro ⟨before, b, after, h, hsets, hclear⟩
    rcases List.eq_nil_or_concat after with rfl | ⟨after, c, rfl⟩
    · have hlast := (List.append_inj' h rfl).2
      obtain rfl : a = b := by simpa using hlast
      exact .inl hsets
    · rw [List.concat_eq_append, ← List.cons_append, ← List.append_assoc] at h
      obtain ⟨rfl, hlast⟩ := List.append_inj' h rfl
      obtain rfl : a = c := by simpa using hlast
      refine .inr ⟨⟨before, b, after, rfl, hsets, fun x hx => hclear x ?_⟩, hclear a ?_⟩
      · simp [hx]
      · simp
  · rintro (hsets | ⟨⟨before, b, after, rfl, hsets, hclear⟩, ha⟩)
    · exact ⟨as, a, [], rfl, hsets, fun b hb => absurd hb List.not_mem_nil⟩
    · refine ⟨before, b, after ++ [a], by simp, hsets, fun x hx => ?_⟩
      rcases List.mem_append.1 hx with hx | hx
      · exact hclear x hx
      · rw [List.mem_singleton.1 hx]
        exact ha

end Transact
