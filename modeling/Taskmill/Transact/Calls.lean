import Mathlib.Data.List.Basic

/-!
# Calls under way

The calls under way are a list, and a step of a call replaces it at its place or, when it returns, removes it.  What
is true of another call of the list is not affected.
-/

namespace Transact

variable {α : Type} {calls : List α} {i : Nat} {old : α}

theorem mem_set_of_ne {x : α} (new : α) (hi : calls[i]? = some old) (hx : x ∈ calls) (hne : x ≠ old) :
    x ∈ calls.set i new := by
  obtain ⟨j, hj⟩ := List.mem_iff_getElem?.1 hx
  have hij : i ≠ j := by
    rintro rfl
    rw [hi] at hj
    exact hne (Option.some.inj hj).symm
  refine List.mem_iff_getElem?.2 ⟨j, ?_⟩
  rw [List.getElem?_set_ne hij]
  exact hj

theorem mem_set_self (new : α) (hi : calls[i]? = some old) : new ∈ calls.set i new := by
  obtain ⟨hlt, _⟩ := List.getElem?_eq_some_iff.1 hi
  exact List.mem_set hlt new

theorem mem_eraseIdx_of_ne {x : α} (hi : calls[i]? = some old) (hx : x ∈ calls) (hne : x ≠ old) :
    x ∈ calls.eraseIdx i := by
  obtain ⟨j, hj⟩ := List.mem_iff_getElem?.1 hx
  refine List.mem_eraseIdx_iff_getElem?.2 ⟨j, ?_, hj⟩
  rintro rfl
  rw [hi] at hj
  exact hne (Option.some.inj hj).symm

end Transact
