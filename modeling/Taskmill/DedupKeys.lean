import Taskmill.Requeue

/-!
# Dedup keys and task types

`generate_dedup_key` hashes the task type, a colon and the payload or the explicit key.  The type is part of what is
hashed, but nothing says where it ends: `media::thumb` with the key `hd:p.jpg` and `media::thumb:hd` with the key
`p.jpg` are hashed as the same bytes.  Two types share a key if and only if one of them goes on after the other with
a colon (`keys_apart_iff`).
-/

namespace Taskmill

open Transact

/-- The bytes of a task type. -/
def typeBytes (taskType : String) : List UInt8 := taskType.toUTF8.data.toList

/-- The row has a key of its own type. -/
def TaskRow.Keyed (sha256 : List UInt8 → String) (r : TaskRow) : Prop :=
  ∃ x, r.key = sha256 (dedupKeyBytes r.taskType x)

/-- The records that come back with a step have the type and the key of a row that the store has had. -/
def Served.ReturnsTyped (σ : Served) (a : Action) : Prop :=
  ∀ task ∈ a.completes, ∃ r ∈ σ.rows, r.taskType = task.taskType ∧ r.key = task.key

/-- The types `t₁` and `t₂` never share a dedup key. -/
structure KeysApart (t₁ t₂ : String) : Prop where
  /-- what is hashed -/
  bytes : ∀ x₁ x₂, dedupKeyBytes t₁ x₁ ≠ dedupKeyBytes t₂ x₂
  /-- A submission of the first type does not deduplicate, upgrade, requeue or supersede a task of the second. -/
  rows : ∀ sha256, Function.Injective sha256 → ∀ σ : Served,
    Runs (fun σ => σ.store.Fresh ∧ σ.rows = []) (Served.exec sha256) Served.ReturnsTyped σ →
    ∀ sub : TaskSubmission, sub.taskType = t₁ → ∀ skipRequeue now, ∀ r ∈ σ.store.tasks, r.taskType = t₂ →
      sub.effectiveKey sha256 ≠ r.key ∧ r ∈ (submitOne sha256 sub skipRequeue now σ.store).2.tasks

/-! ### What is hashed -/

/-- Two lists that are cut at a separator: the first parts are equal, or one goes on after the other with the
separator. -/
theorem eq_or_prefix_of_separated {α : Type} {c : α} {x y p q : List α} (h : x ++ [c] ++ p = y ++ [c] ++ q) :
    x = y ∨ x ++ [c] <+: y ∨ y ++ [c] <+: x := by
  rw [List.append_assoc, List.append_assoc, List.append_eq_append_iff] at h
  rcases h with ⟨more, hy, htail⟩ | ⟨more, hx, htail⟩
  · cases more with
    | nil => simp [hy]
    | cons d more =>
      have hd : c = d := by
        simp only [List.cons_append, List.cons.injEq] at htail
        exact htail.1
      right; left
      exact ⟨more, by simp [hy, hd]⟩
  · cases more with
    | nil => simp [hx]
    | cons d more =>
      have hd : c = d := by
        simp only [List.cons_append, List.cons.injEq] at htail
        exact htail.1
      right; right
      exact ⟨more, by simp [hx, hd]⟩

theorem typeBytes_injective {t₁ t₂ : String} (h : typeBytes t₁ = typeBytes t₂) : t₁ = t₂ := by
  have hbytes : t₁.toUTF8 = t₂.toUTF8 := by
    apply ByteArray.ext
    exact Array.toList_inj.1 h
  exact String.toByteArray_inj.1 hbytes

/-- A type that goes on after another one with a colon shares a key with it. -/
private theorem bytes_collide {t₁ t₂ : String} (h : typeBytes t₁ ++ [58] <+: typeBytes t₂) :
    ∃ x₁ x₂, dedupKeyBytes t₁ x₁ = dedupKeyBytes t₂ x₂ := by
  obtain ⟨more, hmore⟩ := h
  refine ⟨some (more ++ [58]), none, ?_⟩
  calc dedupKeyBytes t₁ (some (more ++ [58]))
      = typeBytes t₁ ++ [58] ++ (more ++ [58]) := rfl
    _ = typeBytes t₁ ++ [58] ++ more ++ [58] := by simp
    _ = typeBytes t₂ ++ [58] := by rw [hmore]
    _ = dedupKeyBytes t₂ none := by simp [dedupKeyBytes, typeBytes]

theorem dedupKeyBytes_ne {t₁ t₂ : String} (hne : t₁ ≠ t₂) (h₁ : ¬ typeBytes t₁ ++ [58] <+: typeBytes t₂)
    (h₂ : ¬ typeBytes t₂ ++ [58] <+: typeBytes t₁) (x₁ x₂ : Option (List UInt8)) :
    dedupKeyBytes t₁ x₁ ≠ dedupKeyBytes t₂ x₂ := by
  intro h
  rcases eq_or_prefix_of_separated h with heq | hpre | hpre
  · exact hne (typeBytes_injective heq)
  · exact h₁ hpre
  · exact h₂ hpre

/-! ### Keys of rows -/

section Keyed

variable {sha256 : List UInt8 → String} {s : Store}

theorem TaskSubmission.effectiveKey_eq (sub : TaskSubmission) :
    ∃ x, sub.effectiveKey sha256 = sha256 (dedupKeyBytes sub.taskType x) := by
  unfold TaskSubmission.effectiveKey
  split
  · exact ⟨_, rfl⟩
  · exact ⟨_, rfl⟩

/-- Type and key of a row stay together. -/
private theorem keyed_of_same {r r' : TaskRow} (hr : r.Keyed sha256) (htype : r'.taskType = r.taskType)
    (hkey : r'.key = r.key) :
    r'.Keyed sha256 := by
  obtain ⟨x, hx⟩ := hr
  refine ⟨x, ?_⟩
  rw [hkey, htype, hx]

private theorem keyed_submission {sub : TaskSubmission} {now : Int} (hs : s.Rows (TaskRow.Keyed sha256)) :
    sub.KeepsRows sha256 (TaskRow.Keyed sha256) now s where
  pending _ _ := sub.effectiveKey_eq
  paused _ _ := sub.effectiveKey_eq
  blocked := sub.effectiveKey_eq
  upgraded r hr _ _ _ := keyed_of_same (hs r hr) rfl rfl
  requeued r hr _ _ := keyed_of_same (hs r hr) rfl rfl
  superseded _ r hr _ _ := keyed_of_same (hs r hr) rfl rfl
  replaced _ _ _ _ _ := sub.effectiveKey_eq

private theorem keyed_completion {tasks : List TaskRecord} {now : Int} (h : ∀ task ∈ tasks, task.Keyed sha256) :
    CompletionKeepsRows (TaskRow.Keyed sha256) tasks now s where
  reset r hr _ _ _ _ := keyed_of_same hr rfl rfl
  next task htask interval _ id inst _ := by
    split
    · exact keyed_of_same (h task htask) rfl rfl
    · exact keyed_of_same (h task htask) rfl rfl

private theorem keyed_freeing (now : Int) : FreeingKeepsRows (TaskRow.Keyed sha256) now s := by
  intro r hr _
  rw [Store.freeRow]
  split
  · exact keyed_of_same hr rfl rfl
  · exact keyed_of_same hr rfl rfl

private theorem keyed_exec (hschema : s.Schema) (hs : s.Rows (TaskRow.Keyed sha256)) (a : Action)
    (hrec : ∀ task ∈ a.completes, task.Keyed sha256) : (a.exec sha256 s).Rows (TaskRow.Keyed sha256) := by
  refine a.rows_exec sha256 hschema hs ?_
  cases a with
  | update u =>
    intro r hr _
    have hsame : (u.change r).taskType = r.taskType ∧ (u.change r).key = r.key := by
      cases u <;> exact ⟨rfl, rfl⟩
    exact keyed_of_same (hs r hr) hsame.1 hsame.2
  | submitDirect sub now => exact keyed_submission hs
  | processSubmitBatch skipRequeue batch =>
    exact .of_forall fun σ m hσ => ⟨keyed_submission hσ.rows, fun _ => m.1.effectiveKey_eq⟩
  | submitChunk skipRequeue last now chunk => exact .of_forall fun σ item hσ _ => keyed_submission hσ.rows
  | claimTask id now => exact fun r hr _ _ => keyed_of_same (hs r hr) rfl rfl
  | popById id now => exact fun r hr _ _ => keyed_of_same (hs r hr) rfl rfl
  | popNextBatch limit aging now => exact fun r hr _ => keyed_of_same (hs r hr) rfl rfl
  | complete id metrics now =>
    refine fun row hrow => keyed_completion fun task htask => ?_
    rw [List.mem_singleton.1 htask]
    exact hs row (List.mem_of_find?_eq_some hrow)
  | completeWithRecord task metrics now => exact keyed_completion hrec
  | completeBatch items now => exact ⟨keyed_completion hrec, keyed_freeing now⟩
  | resolveDependents id now => exact keyed_freeing now
  | failDependents id now => exact keyed_freeing now
  | fail id error retryable maxRetries metrics backoff now =>
    exact fun r hr _ => keyed_of_same (hs r (List.mem_of_find?_eq_some hr)) rfl rfl
  | failWithRecord task error retryable maxRetries metrics backoff now =>
    exact fun _ r hr _ => keyed_of_same (hs r hr) rfl rfl
  | recoverRunning now =>
    exact ⟨fun r hr _ => keyed_of_same (hs r hr) rfl rfl, fun r hr _ _ => keyed_of_same (hs r hr) rfl rfl,
      fun r hr _ _ _ => keyed_of_same (hs r hr) rfl rfl⟩
  | _ => trivial

/-- In every run the rows have keys of their types. -/
theorem served_keyed {σ : Served}
    (h : Runs (fun σ => σ.store.Fresh ∧ σ.rows = []) (Served.exec sha256) Served.ReturnsTyped σ) :
    σ.store.Schema ∧ σ.store.Rows (TaskRow.Keyed sha256) := by
  have hinv : σ.store.Schema ∧ σ.store.Rows (TaskRow.Keyed sha256) ∧ ∀ r ∈ σ.rows, r.Keyed sha256 := by
    refine h.invariant (I := fun σ => σ.store.Schema ∧ σ.store.Rows (TaskRow.Keyed sha256) ∧
      ∀ r ∈ σ.rows, r.Keyed sha256) (fun σ hσ => ⟨hσ.1.schema, fun r hr => ?_, fun r hr => ?_⟩) fun σ a hσ ha => ?_
    · rw [hσ.1.tasks] at hr
      cases hr
    · rw [hσ.2] at hr
      cases hr
    · obtain ⟨hschema, hnow, hpast⟩ := hσ
      have hstep : (a.exec sha256 σ.store).Rows (TaskRow.Keyed sha256) := by
        refine keyed_exec hschema hnow a fun task htask => ?_
        obtain ⟨r, hr, htype, hkey⟩ := ha task htask
        exact keyed_of_same (hpast r hr) htype.symm hkey.symm
      refine ⟨hschema.steps (a.steps sha256 σ.store), hstep, fun r hr => ?_⟩
      rcases List.mem_append.1 hr with hr | hr
      · exact hpast r hr
      · exact hstep r hr
  exact ⟨hinv.1, hinv.2.1⟩

end Keyed

/-- Two types never share a dedup key if and only if neither goes on after the other with a colon. -/
theorem keys_apart_iff (t₁ t₂ : String) (hne : t₁ ≠ t₂) :
    KeysApart t₁ t₂ ↔ ¬ typeBytes t₁ ++ [58] <+: typeBytes t₂ ∧ ¬ typeBytes t₂ ++ [58] <+: typeBytes t₁ := by
  constructor
  · intro h
    refine ⟨fun hpre => ?_, fun hpre => ?_⟩
    · obtain ⟨x₁, x₂, heq⟩ := bytes_collide hpre
      exact h.bytes x₁ x₂ heq
    · obtain ⟨x₂, x₁, heq⟩ := bytes_collide hpre
      exact h.bytes x₁ x₂ heq.symm
  · rintro ⟨h₁, h₂⟩
    refine ⟨dedupKeyBytes_ne hne h₁ h₂, fun sha256 hinj σ hσ sub hsub skipRequeue now r hr htype => ?_⟩
    obtain ⟨hschema, hkeyed⟩ := served_keyed hσ
    have hkey : sub.effectiveKey sha256 ≠ r.key := by
      obtain ⟨x₁, hx₁⟩ : ∃ x, sub.effectiveKey sha256 = sha256 (dedupKeyBytes sub.taskType x) := sub.effectiveKey_eq
      obtain ⟨x₂, hx₂⟩ := hkeyed r hr
      rw [hx₁, hx₂, hsub, htype]
      intro heq
      exact dedupKeyBytes_ne hne h₁ h₂ x₁ x₂ (hinj heq)
    exact ⟨hkey, submitOne_other hschema hr hkey skipRequeue⟩

/-- One type in two domains. -/
theorem domains_keys_apart : "media::thumb" ≠ "cdn::thumb" ∧ KeysApart "media::thumb" "cdn::thumb" :=
  ⟨by decide, (keys_apart_iff "media::thumb" "cdn::thumb" (by decide)).2 ⟨by decide, by decide⟩⟩

/-- Two types of one domain, the key of one of them with a colon. -/
theorem colon_keys_collide : ¬ ∀ t₁ t₂ : String, t₁ ≠ t₂ → KeysApart t₁ t₂ := by
  intro h
  have hapart := h "media::thumb" "media::thumb:hd" (by decide)
  exact hapart.bytes (some "hd:p.jpg".toUTF8.data.toList) (some "p.jpg".toUTF8.data.toList) (by decide)

end Taskmill
