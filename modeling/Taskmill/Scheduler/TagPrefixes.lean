import Taskmill.Scheduler.ModuleScope
import Taskmill.Text.LetterCase

/-!
# Tag key prefixes

The queries for a prefix of a tag key (`src/store/query/tags.rs`) escape the wildcards in it and test `key LIKE ?
ESCAPE '\'`.  The only wildcard of the escaped pattern is the `%` at its end, so it matches the keys that start with
the prefix up to the case of ASCII letters (`likeEscape_escapeLikePrefix`).

Hence the test is exact for the prefixes without an ASCII letter, and for those that are longer than any tag key;
the keys in the database have passed `validate_tags`.
-/

namespace Taskmill

open Transact

/-! ### The pattern -/

/-- `text LIKE pattern ESCAPE esc`: the character after `esc` stands for itself. -/
def likeEscape (esc : Char) : List Char → List Char → Bool
  | [], text => text.isEmpty
  | x :: pattern, text =>
    if x = '%' then text.tails.any (likeEscape esc pattern)
    else if x = esc then
      match pattern, text with
      | y :: pattern, c :: text => y.toLower == c.toLower && likeEscape esc pattern text
      | _, _ => false
    else
      match text with
      | [] => false
      | c :: text => (x = '_' || x.toLower == c.toLower) && likeEscape esc pattern text

/-- The loop of `escape_like_prefix`. -/
def escapeWildcards : List Char → List Char
  | [] => []
  | ch :: rest =>
    if ch = '%' ∨ ch = '_' ∨ ch = '\\' then '\\' :: ch :: escapeWildcards rest else ch :: escapeWildcards rest

/-- `escape_like_prefix` -/
def escapeLikePrefix (keyPrefix : String) : String := String.ofList (escapeWildcards keyPrefix.toList ++ ['%'])

/-- `key LIKE ? ESCAPE '\'` with the escaped prefix. -/
def likeKeyPrefix (keyPrefix key : String) : Bool := likeEscape '\\' (escapeLikePrefix keyPrefix).toList key.toList

/-- `key.starts_with(prefix)` -/
def hasKeyPrefix (keyPrefix key : String) : Bool := keyPrefix.toList.isPrefixOf key.toList

/-! ### The queries, for a selection of keys -/

/-- `tag_keys_by_prefix` -/
def Store.tagKeysByPrefix (s : Store) (sel : String → Bool) : List String :=
  ((s.taskTags.map (·.2.1)).filter sel).dedup.insertionSort (· ≤ ·)

/-- `task_ids_by_tag_key_prefix` -/
def Store.taskIdsByTagKeyPrefix (s : Store) (sel : String → Bool) (status : Option TaskStatus) : List Int :=
  (s.tasks.filter fun r => s.taskTags.any (fun tag => tag.1 == r.id && sel tag.2.1) && r.hasStatus status).map (·.id)

/-- `count_by_tag_key_prefix` -/
def Store.countByTagKeyPrefix (s : Store) (sel : String → Bool) (status : Option TaskStatus) : Nat :=
  (s.tasks.filter fun r => s.taskTags.any (fun tag => tag.1 == r.id && sel tag.2.1) && r.hasStatus status).length

/-- `cancel_by_tag_key_prefix` -/
def cancelByTagKeyPrefix (sel : String → Bool) (now : Int) : Sched (List Int) := do
  let ids ← onStore ((fun s => s.taskIdsByTagKeyPrefix sel none) <$> Txn.get)
  let cancelled ← Txn.mapList (fun id => do
    let found ← cancel id now
    pure (if found then [id] else [])) ids
  pure cancelled.flatten

/-! ### Exactness -/

/-- `validate_tags` accepts the key. -/
def StorableKey (key : String) : Prop := key.utf8ByteSize ≤ maxTagKeyLen

def Store.KeysStorable (s : Store) : Prop := ∀ tag ∈ s.taskTags, StorableKey tag.2.1

/-- The pattern matches the keys with the prefix, and the queries and the cancellation select by it. -/
structure PrefixExact (keyPrefix : String) : Prop where
  pattern : ∀ key, StorableKey key → likeKeyPrefix keyPrefix key = hasKeyPrefix keyPrefix key
  keys : ∀ s : Store, s.KeysStorable →
    s.tagKeysByPrefix (likeKeyPrefix keyPrefix) = s.tagKeysByPrefix (hasKeyPrefix keyPrefix)
  ids : ∀ (s : Store) (status : Option TaskStatus), s.KeysStorable →
    s.taskIdsByTagKeyPrefix (likeKeyPrefix keyPrefix) status = s.taskIdsByTagKeyPrefix (hasKeyPrefix keyPrefix) status
  count : ∀ (s : Store) (status : Option TaskStatus), s.KeysStorable →
    s.countByTagKeyPrefix (likeKeyPrefix keyPrefix) status = s.countByTagKeyPrefix (hasKeyPrefix keyPrefix) status
  cancels : ∀ (σ : Control) (now : Int), σ.store.KeysStorable →
    cancelByTagKeyPrefix (likeKeyPrefix keyPrefix) now σ = cancelByTagKeyPrefix (hasKeyPrefix keyPrefix) now σ

/-! ### What the pattern matches -/

section Escape

variable {c x : Char} {p text : List Char}

private theorem likeEscape_escaped (pattern : List Char) :
    likeEscape '\\' ('\\' :: c :: pattern) text =
      match text with
      | [] => false
      | d :: text => c.toLower == d.toLower && likeEscape '\\' pattern text := by
  rw [likeEscape.eq_def]
  simp only [if_neg (show ¬ '\\' = '%' by decide), if_true]
  cases text with
  | nil => rfl
  | cons d text => rfl

private theorem likeEscape_plain (h : ¬ (c = '%' ∨ c = '_' ∨ c = '\\')) (pattern : List Char) :
    likeEscape '\\' (c :: pattern) text =
      match text with
      | [] => false
      | d :: text => c.toLower == d.toLower && likeEscape '\\' pattern text := by
  rw [not_or, not_or] at h
  rw [likeEscape.eq_def]
  simp only [h.1, h.2.1, h.2.2, if_false]
  cases text with
  | nil => rfl
  | cons d text => simp

/-- The escaped prefix matches what starts with the prefix up to case. -/
private theorem likeEscape_prefix (p text : List Char) :
    likeEscape '\\' (escapeWildcards p ++ ['%']) text = (p.map Char.toLower).isPrefixOf (text.map Char.toLower) := by
  induction p generalizing text with
  | nil =>
    have hall : text.tails.any (likeEscape '\\' []) = true := by
      rw [List.any_eq_true]
      exact ⟨[], by simp, rfl⟩
    rw [escapeWildcards, List.nil_append, likeEscape.eq_def]
    simp only [if_true]
    exact hall
  | cons c p ih =>
    have hstep : likeEscape '\\' (escapeWildcards (c :: p) ++ ['%']) text =
        match text with
        | [] => false
        | d :: text => c.toLower == d.toLower && likeEscape '\\' (escapeWildcards p ++ ['%']) text := by
      rw [escapeWildcards]
      split
      · exact likeEscape_escaped _
      · exact likeEscape_plain ‹_› _
    rw [hstep]
    cases text with
    | nil => rfl
    | cons d text => rw [List.map_cons, List.map_cons, List.isPrefixOf_cons_cons, ← ih]

theorem likeEscape_escapeLikePrefix (keyPrefix key : String) :
    likeKeyPrefix keyPrefix key = likeEscaped keyPrefix key := by
  rw [likeKeyPrefix, escapeLikePrefix, String.toList_ofList, likeEscape_prefix, likeEscaped]

end Escape

/-! ### The selections -/

section Selections

variable {s : Store} {sel sel' : String → Bool}

private theorem any_tag_congr (h : ∀ tag ∈ s.taskTags, sel tag.2.1 = sel' tag.2.1) (r : TaskRow) :
    s.taskTags.any (fun tag => tag.1 == r.id && sel tag.2.1) =
      s.taskTags.any (fun tag => tag.1 == r.id && sel' tag.2.1) := by
  rw [Bool.eq_iff_iff, List.any_eq_true, List.any_eq_true]
  constructor
  · rintro ⟨tag, htag, hsel⟩
    exact ⟨tag, htag, h tag htag ▸ hsel⟩
  · rintro ⟨tag, htag, hsel⟩
    exact ⟨tag, htag, (h tag htag).symm ▸ hsel⟩

private theorem selected_congr (h : ∀ tag ∈ s.taskTags, sel tag.2.1 = sel' tag.2.1) (status : Option TaskStatus) :
    (s.tasks.filter fun r => s.taskTags.any (fun tag => tag.1 == r.id && sel tag.2.1) && r.hasStatus status) =
      s.tasks.filter fun r => s.taskTags.any (fun tag => tag.1 == r.id && sel' tag.2.1) && r.hasStatus status :=
  List.filter_congr fun r _ => by rw [any_tag_congr h r]

private theorem keys_congr (h : ∀ tag ∈ s.taskTags, sel tag.2.1 = sel' tag.2.1) :
    s.tagKeysByPrefix sel = s.tagKeysByPrefix sel' := by
  have hkeys : (s.taskTags.map (·.2.1)).filter sel = (s.taskTags.map (·.2.1)).filter sel' := by
    refine List.filter_congr fun key hkey => ?_
    obtain ⟨tag, htag, rfl⟩ := List.mem_map.1 hkey
    exact h tag htag
  rw [Store.tagKeysByPrefix, hkeys, Store.tagKeysByPrefix]

private theorem ids_congr (h : ∀ tag ∈ s.taskTags, sel tag.2.1 = sel' tag.2.1) (status : Option TaskStatus) :
    s.taskIdsByTagKeyPrefix sel status = s.taskIdsByTagKeyPrefix sel' status := by
  rw [Store.taskIdsByTagKeyPrefix, selected_congr h, Store.taskIdsByTagKeyPrefix]

private theorem count_congr (h : ∀ tag ∈ s.taskTags, sel tag.2.1 = sel' tag.2.1) (status : Option TaskStatus) :
    s.countByTagKeyPrefix sel status = s.countByTagKeyPrefix sel' status := by
  rw [Store.countByTagKeyPrefix, selected_congr h, Store.countByTagKeyPrefix]

/-- The cancellation depends on the selected ids only. -/
private theorem cancels_congr {σ : Control} (now : Int) (h : ∀ tag ∈ σ.store.taskTags, sel tag.2.1 = sel' tag.2.1) :
    cancelByTagKeyPrefix sel now σ = cancelByTagKeyPrefix sel' now σ := by
  have hread (f : String → Bool) : (onStore ((fun s => s.taskIdsByTagKeyPrefix f none) <$> Txn.get) :
    Sched (List Int)) σ =
      (.ok (σ.store.taskIdsByTagKeyPrefix f none), σ) := rfl
  rw [cancelByTagKeyPrefix, cancelByTagKeyPrefix, Txn.bind_of_ok (hread sel),
    Txn.bind_of_ok (hread sel'), ids_congr h]

end Selections

/-- Prefix matching is exact if and only if the prefix has no ASCII letter or is longer than any tag key. -/
theorem prefix_exact_iff (keyPrefix : String) :
    PrefixExact keyPrefix ↔ (∀ c ∈ keyPrefix.toList, c.isAlpha = false) ∨ maxTagKeyLen < keyPrefix.utf8ByteSize := by
  have hsize : ∀ key : String, key.utf8ByteSize = (key.toList.map Char.utf8Size).sum := by
    intro key
    rw [← Text.utf8ByteSize_ofList, String.ofList_toList]
  constructor
  · intro h
    by_contra hnot
    rw [not_or, not_lt] at hnot
    -- the prefix in the other case is a key that is selected
    have hkey : StorableKey (String.ofList (keyPrefix.toList.map Text.otherCase)) := by
      rw [StorableKey, Text.utf8ByteSize_ofList, List.map_map]
      have hsame : keyPrefix.toList.map (Char.utf8Size ∘ Text.otherCase) = keyPrefix.toList.map Char.utf8Size :=
        List.map_congr_left fun c _ => Text.utf8Size_otherCase c
      rw [hsame, ← hsize]
      exact hnot.2
    have hexact := h.pattern _ hkey
    rw [likeEscape_escapeLikePrefix, likeEscaped, hasKeyPrefix, String.toList_ofList,
      Text.isPrefixOf_toLower_otherCase] at hexact
    exact hnot.1 (Text.isPrefixOf_otherCase.1 hexact.symm)
  · intro h
    have hpattern : ∀ key, StorableKey key → likeKeyPrefix keyPrefix key = hasKeyPrefix keyPrefix key := by
      intro key hkey
      rw [likeEscape_escapeLikePrefix, likeEscaped, hasKeyPrefix]
      rcases h with hletters | hlong
      · exact Text.isPrefixOf_toLower hletters
      · have hshort : (key.toList.map Char.utf8Size).sum < (keyPrefix.toList.map Char.utf8Size).sum := by
          rw [← hsize, ← hsize]
          exact Nat.lt_of_le_of_lt hkey hlong
        have hlower : (keyPrefix.toList.map Char.toLower).isPrefixOf (key.toList.map Char.toLower) = false := by
          by_contra hpre
          have hle := Text.utf8_le_of_isPrefixOf_toLower (Bool.of_not_eq_false hpre)
          omega
        have hexact : keyPrefix.toList.isPrefixOf key.toList = false := by
          by_contra hpre
          obtain ⟨rest, hrest⟩ := List.isPrefixOf_iff_prefix.1 (Bool.of_not_eq_false hpre)
          rw [← hrest, List.map_append, List.sum_append] at hshort
          omega
        rw [hlower, hexact]
    have hsel : ∀ s : Store, s.KeysStorable → ∀ tag ∈ s.taskTags,
        likeKeyPrefix keyPrefix tag.2.1 = hasKeyPrefix keyPrefix tag.2.1 :=
          fun s hs tag htag => hpattern _ (hs tag htag)
    exact
      { pattern := hpattern
        keys := fun s hs => keys_congr (hsel s hs)
        ids := fun s status hs => ids_congr (hsel s hs) status
        count := fun s status hs => count_congr (hsel s hs) status
        cancels := fun σ now hs => cancels_congr now (hsel σ.store hs) }

/-- The prefix `id.` selects a task whose only tag key is `ID.`. -/
theorem other_case_selected : ¬ ∀ keyPrefix : String, PrefixExact keyPrefix := by
  intro h
  have hids := (h "id.").ids
    (execAll sampleSha256 openMemory [.submitDirect
      { TaskSubmission.new "a" with tags := ⟨[("ID.", "7")], by simp⟩ } 0]) none
    (by unfold Store.KeysStorable StorableKey; decide +kernel)
  revert hids
  decide +kernel

end Taskmill
