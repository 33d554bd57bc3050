import Mathlib.Data.List.Basic

/-!
# Event logs

Logs are lists of events, the newest first.  Some events acquire a resource and some release it; the log is
`Exclusive` if nothing is acquired while it is held, and then a release lies between any two acquisitions.
-/

namespace Transact

variable {ε : Type} {acquire release : ε → Bool} {new log : List ε}

/-- The newest event that acquires or releases acquires. -/
def held (acquire release : ε → Bool) : List ε → Bool
  | [] => false
  | e :: log => acquire e || (!release e && held acquire release log)

/-- Nothing is acquired while it is held. -/
def Exclusive (acquire release : ε → Bool) : List ε → Prop
  | [] => True
  | e :: log => (acquire e = true → held acquire release log = false) ∧ Exclusive acquire release log

theorem held_append_of_neutral (ha : ∀ e ∈ new, acquire e = false) (hr : ∀ e ∈ new, release e = false) :
    held acquire release (new ++ log) = held acquire release log := by
  induction new with
  | nil => rfl
  | cons e new ih =>
    rw [List.cons_append, held, ha e (List.mem_cons_self ..), hr e (List.mem_cons_self ..)]
    rw [ih (fun x hx => ha x (List.mem_cons_of_mem _ hx)) fun x hx => hr x (List.mem_cons_of_mem _ hx)]
    rfl

theorem held_append_of_release (ha : ∀ e ∈ new, acquire e = false) {e : ε} (he : e ∈ new) (hr : release e = true) :
    held acquire release (new ++ log) = false := by
  induction new with
  | nil => cases he
  | cons x new ih =>
    rw [List.cons_append, held, ha x (List.mem_cons_self ..), Bool.false_or]
    rcases List.mem_cons.1 he with rfl | he
    · simp [hr]
    · simp [ih (fun y hy => ha y (List.mem_cons_of_mem _ hy)) he]

/-- What is held after an acquisition has been released since. -/
theorem release_of_not_held {e : ε} (he : acquire e = true) (h : held acquire release (new ++ e :: log) = false) :
    ∃ x ∈ new, release x = true := by
  induction new with
  | nil => simp [held, he] at h
  | cons x new ih =>
    rw [List.cons_append, held, Bool.or_eq_false_iff] at h
    cases hx : release x with
    | true => exact ⟨x, List.mem_cons_self .., hx⟩
    | false =>
      obtain ⟨y, hy, hrel⟩ := ih (by simpa [hx] using h.2)
      exact ⟨y, List.mem_cons_of_mem _ hy, hrel⟩

theorem Exclusive.release_between {later between earlier : List ε} {e e' : ε}
    (h : Exclusive acquire release (later ++ e' :: (between ++ e :: earlier))) (he : acquire e = true)
    (he' : acquire e' = true) : ∃ x ∈ between, release x = true := by
  induction later with
  | nil => exact release_of_not_held he (h.1 he')
  | cons x later ih => exact ih h.2

theorem Exclusive.append_of_neutral (h : Exclusive acquire release log) (ha : ∀ e ∈ new, acquire e = false) :
    Exclusive acquire release (new ++ log) := by
  induction new with
  | nil => exact h
  | cons e new ih =>
    refine ⟨fun he => ?_, ih fun x hx => ha x (List.mem_cons_of_mem _ hx)⟩
    rw [ha e (List.mem_cons_self ..)] at he
    cases he

/-- Several events at once, at most one of which acquires what is free. -/
theorem Exclusive.append_once (h : Exclusive acquire release log) (honce : new.countP acquire ≤ 1)
    (hfree : 0 < new.countP acquire → held acquire release log = false) (hr : ∀ e ∈ new, release e = false) :
    Exclusive acquire release (new ++ log) := by
  induction new with
  | nil => exact h
  | cons e new ih =>
    have hr' : ∀ x ∈ new, release x = false := fun x hx => hr x (List.mem_cons_of_mem _ hx)
    rw [List.countP_cons] at honce hfree
    refine ⟨fun he => ?_, ih (by omega) (fun hpos => hfree (by omega)) hr'⟩
    rw [if_pos he] at honce hfree
    have hnone : ∀ x ∈ new, acquire x = false := by
      intro x hx
      simpa using List.countP_eq_zero.1 (show new.countP acquire = 0 by omega) x hx
    have hsame : held acquire release (new ++ log) = held acquire release log := held_append_of_neutral hnone hr'
    exact hsame.trans (hfree (by omega))

end Transact
