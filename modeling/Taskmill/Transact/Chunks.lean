import Taskmill.Transact.Txn
import Mathlib.Data.List.Basic

/-!
# Loops over chunks

`List.toChunks n` cuts a list into full chunks and a last one (`toChunks_spec`).  A loop that calls a function at
some of its elements only, and has a fixed result for the others, leaves what the calls leave on their own
(`mapList_picked`).
-/

namespace Transact

section Chunks

variable {α β : Type} {n : Nat}

private theorem toChunks_go_spec (xs : List α) (acc₁ : Array α) (acc₂ : Array (List α)) (hpos : 0 < acc₁.size)
    (hle : acc₁.size ≤ n) (hfull : ∀ chunk ∈ acc₂.toList, chunk.length = n) :
    ∃ full last, List.toChunks.go n xs acc₁ acc₂ = full ++ [last] ∧ (∀ chunk ∈ full, chunk.length = n) ∧
      0 < last.length ∧ last.length ≤ n ∧
      (full ++ [last]).flatten = acc₂.toList.flatten ++ acc₁.toList ++ xs := by
  induction xs generalizing acc₁ acc₂ with
  | nil =>
    refine ⟨acc₂.toList, acc₁.toList, ?_, hfull, hpos, hle, ?_⟩
    · rw [List.toChunks.go, Array.toList_push]
    · simp
  | cons x xs ih =>
    rw [List.toChunks.go]
    split
    · rename_i hsize
      have hlength : acc₁.toList.length = n := by simpa using hsize
      have hpush : ∀ chunk ∈ (acc₂.push acc₁.toList).toList, chunk.length = n := by
        intro chunk hchunk
        rw [Array.toList_push, List.mem_append, List.mem_singleton] at hchunk
        rcases hchunk with hchunk | rfl
        · exact hfull chunk hchunk
        · exact hlength
      obtain ⟨full, last, hgo, hall, hlast, hmax, hflat⟩ := ih ((Array.mkEmpty n).push x) (acc₂.push acc₁.toList)
        Nat.zero_lt_one (Nat.le_trans hpos hle) hpush
      exact ⟨full, last, hgo, hall, hlast, hmax, by simpa using hflat⟩
    · rename_i hsize
      have hlt : acc₁.size < n := by
        have hne : acc₁.size ≠ n := by simpa using hsize
        omega
      have hpushed : (acc₁.push x).size ≤ n := by
        rw [Array.size_push]
        omega
      obtain ⟨full, last, hgo, hall, hlast, hmax, hflat⟩ := ih (acc₁.push x) acc₂ (by simp) hpushed hfull
      exact ⟨full, last, hgo, hall, hlast, hmax, by simpa using hflat⟩

/-- All chunks but the last one are full, and none is empty. -/
theorem toChunks_spec (hn : 0 < n) {xs : List α} (hne : xs ≠ []) :
    ∃ full last, xs.toChunks n = full ++ [last] ∧ (∀ chunk ∈ full, chunk.length = n) ∧ 0 < last.length ∧
      last.length ≤ n ∧
      (full ++ [last]).flatten = xs := by
  obtain ⟨m, rfl⟩ : ∃ m, n = m + 1 := ⟨n - 1, by omega⟩
  cases xs with
  | nil => exact absurd rfl hne
  | cons x xs =>
    have h := toChunks_go_spec (n := m + 1) xs #[x] #[] Nat.zero_lt_one (Nat.le_add_left 1 m) (by simp)
    simpa [List.toChunks] using h

private theorem toChunks_go_map (f : α → β) (xs : List α) (acc₁ : Array α) (acc₂ : Array (List α)) :
    List.toChunks.go n (xs.map f) (acc₁.map f)
    (acc₂.map (List.map f)) = (List.toChunks.go n xs acc₁ acc₂).map (List.map f) := by
  induction xs generalizing acc₁ acc₂ with
  | nil => simp [List.toChunks.go]
  | cons x xs ih =>
    rw [List.map_cons, List.toChunks.go, List.toChunks.go, Array.size_map]
    split
    · have h := ih #[x] (acc₂.push acc₁.toList)
      simpa using h
    · have h := ih (acc₁.push x) acc₂
      simpa using h

theorem toChunks_map (hn : 0 < n) (f : α → β) (xs : List α) :
    (xs.map f).toChunks n = (xs.toChunks n).map (List.map f) := by
  obtain ⟨m, rfl⟩ : ∃ m, n = m + 1 := ⟨n - 1, by omega⟩
  cases xs with
  | nil => simp [List.toChunks]
  | cons x xs =>
    have h := toChunks_go_map (n := m + 1) f xs #[x] #[]
    simpa [List.toChunks] using h

theorem flatten_toChunks (hn : 0 < n) (xs : List α) : (xs.toChunks n).flatten = xs := by
  cases xs with
  | nil => simp [List.toChunks]
  | cons x xs =>
    obtain ⟨full, last, hchunks, -, -, -, hflat⟩ := toChunks_spec hn (List.cons_ne_nil x xs)
    rw [hchunks, hflat]

end Chunks

namespace Txn

variable {σ ε α β : Type} {p : α → Bool} {d : β}

/-- The results of a loop that has the fixed result `d` where `p` fails, and those of the calls that it makes. -/
inductive Picked (p : α → Bool) (d : β) : List α → List β → List β → Prop
  | nil : Picked p d [] [] []
  | skip {x : α} {xs : List α} {bs cs : List β} (hx : p x = false) (rest : Picked p d xs bs cs) :
    Picked p d (x :: xs) (d :: bs) cs
  | call {x : α} {xs : List α} {b : β} {bs cs : List β} (hx : p x = true) (rest : Picked p d xs bs cs) :
    Picked p d (x :: xs) (b :: bs) (b :: cs)

namespace Picked

variable {xs : List α} {bs cs : List β}

theorem length (h : Picked p d xs bs cs) : bs.length = xs.length := by
  induction h with
  | nil => rfl
  | skip _ _ ih => rw [List.length_cons, List.length_cons, ih]
  | call _ _ ih => rw [List.length_cons, List.length_cons, ih]

theorem skipped (h : Picked p d xs bs cs) {i : Nat} {x : α} (hi : xs[i]? = some x) (hx : p x = false) :
    bs[i]? = some d := by
  induction h generalizing i with
  | nil => cases hi
  | skip hy _ ih =>
    cases i with
    | zero => rfl
    | succ i => exact ih hi
  | call hy _ ih =>
    cases i with
    | zero =>
      cases hi
      rw [hx] at hy
      cases hy
    | succ i => exact ih hi

/-- The results of the calls, in the order of the calls. -/
theorem called (h : Picked p d xs bs cs) : ((xs.zip bs).filter fun y => p y.1).map Prod.snd = cs := by
  induction h with
  | nil => rfl
  | skip hx _ ih => simp [hx, ih]
  | call hx _ ih => simp [hx, ih]

end Picked

theorem length_mapList {f : α → Txn σ ε β} {xs : List α} {s s' : σ} {ys : List β}
    (h : mapList f xs s = (.ok ys, s')) : ys.length = xs.length := by
  induction xs generalizing s ys with
  | nil =>
    cases h
    rfl
  | cons x xs ih =>
    obtain ⟨y, s₁, _, h⟩ := bind_ok h
    obtain ⟨ys', s₂, hxs, h⟩ := bind_ok h
    cases h
    rw [List.length_cons, List.length_cons, ih hxs]

/-- A loop that succeeds leaves what its calls leave one by one. -/
theorem mapList_picked {I : σ → Prop} {f g : α → Txn σ ε β} {xs : List α}
    (hskip : ∀ x ∈ xs, p x = false → f x = pure d)
    (hcall : ∀ x ∈ xs, ∀ s b s', p x = true → I s → f x s = (.ok b, s') → g x s = (.ok b, s') ∧ I s') {s s' : σ}
    {bs : List β} (hs : I s) (h : Txn.mapList f xs s = (.ok bs, s')) :
    ∃ cs, each g (xs.filter p) s = (cs.map .ok, s') ∧ Picked p d xs bs cs := by
  induction xs generalizing s bs with
  | nil =>
    cases h
    exact ⟨[], rfl, .nil⟩
  | cons x xs ih =>
    obtain ⟨b, s₁, hx, h⟩ := bind_ok h
    obtain ⟨bs', s₂, hxs, h⟩ := bind_ok h
    cases h
    have hskip' : ∀ y ∈ xs, p y = false → f y = pure d := fun y hy => hskip y (List.mem_cons_of_mem _ hy)
    have hcall' : ∀ y ∈ xs, ∀ s b s', p y = true → I s → f y s = (.ok b, s') → g y s = (.ok b, s') ∧ I s' :=
      fun y hy => hcall y (List.mem_cons_of_mem _ hy)
    cases hp : p x with
    | false =>
      rw [hskip x List.mem_cons_self hp] at hx
      cases hx
      obtain ⟨cs, heach, hpicked⟩ := ih hskip' hcall' hs hxs
      exact ⟨cs, by rwa [List.filter_cons_of_neg (by simp [hp])], .skip hp hpicked⟩
    | true =>
      obtain ⟨hg, hs₁⟩ := hcall x List.mem_cons_self s b s₁ hp hs hx
      obtain ⟨cs, heach, hpicked⟩ := ih hskip' hcall' hs₁ hxs
      refine ⟨b :: cs, ?_, .call hp hpicked⟩
      rw [List.filter_cons_of_pos hp, each, hg]
      dsimp only
      rw [heach]
      rfl

end Txn

end Transact
