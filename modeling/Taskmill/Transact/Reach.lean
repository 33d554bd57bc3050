import Mathlib.Data.List.Dedup
import Mathlib.Data.List.Perm.Subperm
import Mathlib.Logic.Relation

/-!
# Walking a finite edge table

`reached edges seeds` is what the recursive common table expression

    WITH RECURSIVE r(id) AS (VALUES seeds UNION SELECT e.2 FROM edges e JOIN r ON e.1 = r.id)

selects: a queue of rows to expand and the set of rows ever queued; an expanded row queues those of its successors
that were not queued before.  `cteLoop` is that loop with a bound on its rounds; `cteLoop_terminates` gives a bound
that is always enough, and `mem_reached` says that the selected rows are the ones reachable from a seed.

The second part is about cycles: if new edges all leave one node `t`, every new cycle runs through `t` by a new edge.
-/

namespace Transact

/-- One step along an edge of the table. -/
def Edge {α : Type} (edges : List (α × α)) (x y : α) : Prop := (x, y) ∈ edges

/-- No node reaches itself along one or more edges. -/
def Acyclic {α : Type} (edges : List (α × α)) : Prop := ∀ x, ¬ Relation.TransGen (Edge edges) x x

section Query

variable {α : Type} [DecidableEq α]

/-- The successors of `x` in an edge table. -/
def successors (edges : List (α × α)) (x : α) : List α :=
  (edges.filter fun e => e.1 = x).map Prod.snd

/-- The rows of `xs` that were never queued, each once. -/
def unseen (seen xs : List α) : List α := (xs.filter fun x => x ∉ seen).dedup

/-- The loop of a recursive query with `UNION`: expand the head of the queue, remember what was ever queued. -/
def cteLoop (edges : List (α × α)) : Nat → List α → List α → Option (List α)
  | _, [], seen => some seen
  | 0, _ :: _, _ => none
  | n + 1, x :: queue, seen =>
    cteLoop edges n (queue ++ unseen seen (successors edges x)) (seen ++ unseen seen (successors edges x))

/-- The rows selected by the recursive query. -/
def reached (edges : List (α × α)) (seeds : List α) : List α :=
  (cteLoop edges (seeds.length + edges.length) seeds.dedup seeds.dedup).getD []

theorem mem_successors {edges : List (α × α)} {x y : α} : y ∈ successors edges x ↔ Edge edges x y := by
  simp [successors, Edge]

theorem mem_unseen {seen xs : List α} {x : α} : x ∈ unseen seen xs ↔ x ∈ xs ∧ x ∉ seen := by
  simp [unseen]

/-! ### The loop ends -/

/-- The rows a query can still queue. -/
private def fresh (edges : List (α × α)) (seen : List α) : List α := unseen seen (edges.map Prod.snd)

private theorem fresh_length_step (edges : List (α × α)) (seen : List α) (x : α) :
    (unseen seen (successors edges x)).length +
      (fresh edges (seen ++ unseen seen (successors edges x))).length ≤ (fresh edges seen).length := by
  rw [← List.length_append]
  apply List.Subperm.length_le
  apply List.subperm_of_subset
  · rw [List.nodup_append]
    refine ⟨List.nodup_dedup _, List.nodup_dedup _, ?_⟩
    rintro a ha b hb rfl
    rw [fresh, mem_unseen, List.mem_append] at hb
    exact hb.2 (.inr ha)
  · intro y hy
    rw [fresh, mem_unseen, List.mem_map]
    rcases List.mem_append.1 hy with h | h
    · rw [mem_unseen, mem_successors] at h
      exact ⟨⟨(x, y), h.1, rfl⟩, h.2⟩
    · rw [fresh, mem_unseen, List.mem_map, List.mem_append] at h
      exact ⟨h.1, fun hs => h.2 (.inl hs)⟩

private theorem cteLoop_isSome (edges : List (α × α)) :
    ∀ (n : Nat) (queue seen : List α), queue.length + (fresh edges seen).length ≤ n →
      (cteLoop edges n queue seen).isSome := by
  intro n
  induction n with
  | zero =>
    intro queue seen h
    cases queue with
    | nil => simp [cteLoop]
    | cons x queue => simp at h
  | succ n ih =>
    intro queue seen h
    cases queue with
    | nil => simp [cteLoop]
    | cons x queue =>
      rw [cteLoop]
      apply ih
      have := fresh_length_step edges seen x
      simp only [List.length_append, List.length_cons] at h ⊢
      omega

/-- On every finite edge table the query ends within as many rounds as there are seeds and edges. -/
theorem cteLoop_terminates (edges : List (α × α)) (seeds : List α) :
    (cteLoop edges (seeds.length + edges.length) seeds.dedup seeds.dedup).isSome := by
  apply cteLoop_isSome
  have h₁ : seeds.dedup.length ≤ seeds.length := (List.dedup_sublist seeds).length_le
  have h₂ : (fresh edges seeds.dedup).length ≤ edges.length := by
    have h₃ := (List.dedup_sublist ((edges.map Prod.snd).filter fun x => x ∉ seeds.dedup)).length_le
    have h₄ := (List.filter_sublist (l := edges.map Prod.snd) (p := fun x => decide (x ∉ seeds.dedup))).length_le
    rw [List.length_map] at h₄
    exact Nat.le_trans h₃ h₄
  omega

/-! ### The loop computes reachability -/

private theorem cteLoop_sound (edges : List (α × α)) (P : α → Prop) (hP : ∀ x y, P x → Edge edges x y → P y) :
    ∀ (n : Nat) (queue seen result : List α), (∀ x ∈ queue, P x) → (∀ x ∈ seen, P x) →
      cteLoop edges n queue seen = some result → ∀ x ∈ result, P x := by
  intro n
  induction n with
  | zero =>
    intro queue seen result _ hs h
    cases queue with
    | nil => simp only [cteLoop, Option.some.injEq] at h; subst h; exact hs
    | cons x queue => simp [cteLoop] at h
  | succ n ih =>
    intro queue seen result hq hs h
    cases queue with
    | nil => simp only [cteLoop, Option.some.injEq] at h; subst h; exact hs
    | cons x queue =>
      rw [cteLoop] at h
      have hnew : ∀ y ∈ unseen seen (successors edges x), P y := by
        intro y hy
        rw [mem_unseen, mem_successors] at hy
        exact hP x y (hq x (List.mem_cons_self ..)) hy.1
      refine ih _ _ _ ?_ ?_ h
      · intro y hy
        rcases List.mem_append.1 hy with hy | hy
        · exact hq y (List.mem_cons_of_mem _ hy)
        · exact hnew y hy
      · intro y hy
        rcases List.mem_append.1 hy with hy | hy
        · exact hs y hy
        · exact hnew y hy

/-- A queued row that was expanded has all its successors among the rows ever queued. -/
private def Closed (edges : List (α × α)) (queue seen : List α) : Prop :=
  (∀ x ∈ queue, x ∈ seen) ∧ ∀ x ∈ seen, x ∉ queue → ∀ y, Edge edges x y → y ∈ seen

private theorem Closed.step {edges : List (α × α)} {x : α} {queue seen : List α}
    (h : Closed edges (x :: queue) seen) :
    Closed edges (queue ++ unseen seen (successors edges x)) (seen ++ unseen seen (successors edges x)) := by
  constructor
  · intro y hy
    rcases List.mem_append.1 hy with hy | hy
    · exact List.mem_append_left _ (h.1 y (List.mem_cons_of_mem _ hy))
    · exact List.mem_append_right _ hy
  · intro y hy hyq z hz
    rw [List.mem_append, not_or] at hyq
    rcases List.mem_append.1 hy with hy | hy
    · by_cases hyx : y = x
      · subst hyx
        by_cases hzs : z ∈ seen
        · exact List.mem_append_left _ hzs
        · exact List.mem_append_right _ (mem_unseen.2 ⟨mem_successors.2 hz, hzs⟩)
      · refine List.mem_append_left _ (h.2 y hy ?_ z hz)
        rw [List.mem_cons, not_or]
        exact ⟨hyx, hyq.1⟩
    · exact absurd hy hyq.2

private theorem cteLoop_closed (edges : List (α × α)) :
    ∀ (n : Nat) (queue seen result : List α), Closed edges queue seen →
      cteLoop edges n queue seen = some result → Closed edges [] result ∧ ∀ x ∈ seen, x ∈ result := by
  intro n
  induction n with
  | zero =>
    intro queue seen result hc h
    cases queue with
    | nil => simp only [cteLoop, Option.some.injEq] at h; subst h; exact ⟨hc, fun _ hx => hx⟩
    | cons x queue => simp [cteLoop] at h
  | succ n ih =>
    intro queue seen result hc h
    cases queue with
    | nil => simp only [cteLoop, Option.some.injEq] at h; subst h; exact ⟨hc, fun _ hx => hx⟩
    | cons x queue =>
      rw [cteLoop] at h
      obtain ⟨h₁, h₂⟩ := ih _ _ _ hc.step h
      exact ⟨h₁, fun y hy => h₂ y (List.mem_append_left _ hy)⟩

/-- The query selects exactly the rows reachable from a seed. -/
theorem mem_reached {edges : List (α × α)} {seeds : List α} {t : α} :
    t ∈ reached edges seeds ↔ ∃ d ∈ seeds, Relation.ReflTransGen (Edge edges) d t := by
  obtain ⟨result, hr⟩ := Option.isSome_iff_exists.1 (cteLoop_terminates edges seeds)
  have he : reached edges seeds = result := by rw [reached, hr]; rfl
  rw [he]
  constructor
  · refine cteLoop_sound edges (fun x => ∃ d ∈ seeds, Relation.ReflTransGen (Edge edges) d x) ?_ _ _ _ _ ?_ ?_ hr t
    · rintro x y ⟨d, hd, hx⟩ hxy
      exact ⟨d, hd, hx.tail hxy⟩
    · exact fun x hx => ⟨x, List.mem_dedup.1 hx, .refl⟩
    · exact fun x hx => ⟨x, List.mem_dedup.1 hx, .refl⟩
  · have hc : Closed edges seeds.dedup seeds.dedup := ⟨fun _ h => h, fun _ h hn => absurd h hn⟩
    obtain ⟨h₁, h₂⟩ := cteLoop_closed edges _ _ _ _ hc hr
    rintro ⟨d, hd, hdt⟩
    induction hdt with
    | refl => exact h₂ d (List.mem_dedup.2 hd)
    | tail _ hxy ih => exact h₁.2 _ ih (by simp) _ hxy

end Query

/-! ### Cycles -/

section Cycles

variable {α : Type}

theorem Acyclic.mono {edges edges' : List (α × α)} (h : Acyclic edges) (hs : ∀ e ∈ edges', e ∈ edges) :
    Acyclic edges' :=
  fun x hx => h x (Relation.TransGen.mono (fun _ _ hab => hs _ hab) x x hx)

theorem acyclic_nil : Acyclic ([] : List (α × α)) := by
  intro x hx
  obtain ⟨y, hxy, _⟩ := Relation.TransGen.head'_iff.1 hx
  simp [Edge] at hxy

/-- Along edges, either no new edge is used or the walk passes through `t`. -/
private theorem transGen_append {edges new : List (α × α)} {t : α} (hnew : ∀ e ∈ new, e.1 = t) {x y : α}
    (h : Relation.TransGen (Edge (edges ++ new)) x y) :
    Relation.TransGen (Edge edges) x y ∨
      Relation.ReflTransGen (Edge (edges ++ new)) x t ∧
        ∃ e ∈ new, Relation.ReflTransGen (Edge (edges ++ new)) e.2 y := by
  induction h with
  | single hxy =>
    rcases List.mem_append.1 hxy with hxy | hxy
    · exact .inl (.single hxy)
    · have := hnew _ hxy
      simp only at this
      subst this
      exact .inr ⟨.refl, _, hxy, .refl⟩
  | tail hxz hzy ih =>
    rcases List.mem_append.1 hzy with hold | hzy'
    · rcases ih with ih | ⟨hxt, e, he, hey⟩
      · exact .inl (ih.tail hold)
      · exact .inr ⟨hxt, e, he, hey.tail hzy⟩
    · have := hnew _ hzy'
      simp only at this
      subst this
      exact .inr ⟨hxz.to_reflTransGen, _, hzy', .refl⟩

/-- Edges that leave `t` are of no use on the way to `t`. -/
theorem reflTransGen_of_append {edges new : List (α × α)} {t : α} (hnew : ∀ e ∈ new, e.1 = t) {x : α}
    (h : Relation.ReflTransGen (Edge (edges ++ new)) x t) : Relation.ReflTransGen (Edge edges) x t := by
  induction h using Relation.ReflTransGen.head_induction_on with
  | refl => exact .refl
  | head hxy _ ih =>
    rcases List.mem_append.1 hxy with hold | hxy
    · exact .head hold ih
    · have := hnew _ hxy
      simp only at this
      subst this
      exact .refl

/-- New edges that all leave `t` close no cycle unless one of them leads back to `t`. -/
theorem Acyclic.append {edges new : List (α × α)} {t : α} (h : Acyclic edges) (hnew : ∀ e ∈ new, e.1 = t)
    (hback : ∀ e ∈ new, ¬ Relation.ReflTransGen (Edge (edges ++ new)) e.2 t) : Acyclic (edges ++ new) := by
  intro x hx
  rcases transGen_append hnew hx with hx | ⟨hxt, e, he, hex⟩
  · exact h x hx
  · exact hback e he (hex.trans hxt)

end Cycles

end Transact
