import Taskmill.Transact.Txn

/-!
# Callers of statement sequences

A caller has a larger state than the statements it runs (`zoom`), and may go on after an error (`attempt`, `ifOk`).
-/

namespace Transact

variable {σ τ ε α β : Type}

namespace Txn

/-- Statements on a part of the state. -/
def zoom (get : τ → σ) (set : σ → τ → τ) (x : Txn σ ε α) : Txn τ ε α := fun t => ((x (get t)).1, set (x (get t)).2 t)

/-- `let _ = x`: the error is dropped. -/
def attempt (x : Txn σ ε α) : Txn σ ε Unit := fun s => (.ok (), (x s).2)

/-- `if let Ok(a) = x { f a }` -/
def ifOk (x : Txn σ ε α) (f : α → Txn σ ε Unit) : Txn σ ε Unit := fun s =>
  match x s with
  | (.ok a, s') => f a s'
  | (.error _, s') => (.ok (), s')

section Zoom

variable {get : τ → σ} {set : σ → τ → τ}

theorem zoom_ok {x : Txn σ ε α} {t t' : τ} {a : α} (h : zoom get set x t = (.ok a, t')) :
    x (get t) = (.ok a, (x (get t)).2) ∧ t' = set (x (get t)).2 t := by
  obtain ⟨hresult, hstate⟩ := Prod.mk.inj h
  exact ⟨Prod.ext hresult rfl, hstate.symm⟩

/-- A relation between the parts holds between the wholes. -/
theorem Always.zoom {R : σ → σ → Prop} {x : Txn σ ε α} (hset : ∀ s t, get (set s t) = s) (hx : Always R x) :
    Always (fun t t' => R (get t) (get t')) (Txn.zoom get set x) := by
  intro t
  show R (get t) (get (set (x (get t)).2 t))
  rw [hset]
  exact hx (get t)

/-- What the statements ensure of the part. -/
theorem Total.zoom {P : σ → Prop} {Q : α → σ → Prop} {x : Txn σ ε α} (hset : ∀ s t, get (set s t) = s)
    (hx : Total P x Q) :
    Total (fun t => P (get t)) (Txn.zoom get set x) fun a t => Q a (get t) := by
  intro t ht
  obtain ⟨a, s, hok, hq⟩ := hx (get t) ht
  refine ⟨a, set s t, ?_, ?_⟩
  · unfold Txn.zoom
    rw [hok]
  · show Q a (get (set s t))
    rw [hset]
    exact hq

end Zoom

/-- A bracket around statements that succeed. -/
theorem Total.atomically {P : σ → Prop} {Q : α → σ → Prop} {x : Txn σ ε α} {undo : σ → σ → σ} (hx : Total P x Q) :
    Total P (Txn.atomically undo x) Q := by
  intro s hs
  obtain ⟨a, s', hok, hq⟩ := hx s hs
  exact ⟨a, s', atomically_of_ok hok, hq⟩

/-- What holds after statements that succeed holds after the attempt. -/
theorem Total.attempt {P Q : σ → Prop} {x : Txn σ ε α} (hx : Total P x fun _ => Q) :
    Total P (Txn.attempt x) fun _ => Q := by
  intro s hs
  obtain ⟨a, s', hok, hq⟩ := hx s hs
  refine ⟨(), s', ?_, hq⟩
  unfold Txn.attempt
  rw [hok]

theorem Always.attempt {R : σ → σ → Prop} {x : Txn σ ε α} (hx : Always R x) : Always R (Txn.attempt x) := hx

theorem Always.ifOk {R : σ → σ → Prop} {x : Txn σ ε α} {f : α → Txn σ ε Unit} (ht : ∀ a b c, R a b → R b c → R a c)
    (hx : Always R x) (hf : ∀ a, Always R (f a)) : Always R (Txn.ifOk x f) := by
  intro s
  have h := hx s
  unfold Txn.ifOk
  rcases hrun : x s with ⟨_ | a, s'⟩
  · rw [hrun] at h
    exact h
  · rw [hrun] at h
    exact ht _ _ _ h (hf a s')

theorem ifOk_of_ok {x : Txn σ ε α} {f : α → Txn σ ε Unit} {s s' : σ} {a : α} (h : x s = (.ok a, s')) :
    ifOk x f s = f a s' := by
  unfold ifOk
  rw [h]

end Txn

end Transact
