import Mathlib.Data.Int.Order.Basic

/-!
# Row ids without `AUTOINCREMENT`

An `INTEGER PRIMARY KEY` column gets one more than the largest id in the table, or `1` in an empty table.  The id is
fresh for the rows that are there, but an id is handed out again once the rows with the largest ids are gone.
-/

namespace Transact

/-- The id that SQLite gives to the next row of a table with the ids `ids`. -/
def nextRowid (ids : List Int) : Int := (ids.max?.map (· + 1)).getD 1

theorem lt_nextRowid {ids : List Int} {i : Int} (h : i ∈ ids) : i < nextRowid ids := by
  obtain ⟨m, hm⟩ : ∃ m, ids.max? = some m := by
    cases hmax : ids.max? with
    | none => simp [List.max?_eq_none_iff.1 hmax] at h
    | some m => exact ⟨m, rfl⟩
  have hle : i ≤ m := (List.max?_eq_some_iff.1 hm).2 i h
  simp only [nextRowid, hm, Option.map_some, Option.getD_some]
  omega

theorem nextRowid_not_mem (ids : List Int) : nextRowid ids ∉ ids :=
  fun h => Int.lt_irrefl _ (lt_nextRowid h)

end Transact
