import Taskmill.SubmitCases
import Taskmill.Transact.Chunks
import Mathlib.Data.List.AList
import Mathlib.Data.List.Induction

/-!
# Batches of submissions

`submit_batch` (`src/store/submit/mod.rs`) with its bookkeeping: the last position of every key is found first, the
position of a submission is computed from the number of results so far, and every `submit_one` reads the clock.
`submitBatch` is the same with a clock that stands still (`submitBatch_eq`).

A batch that succeeds leaves what the last submissions of all keys leave if they are submitted one by one; a batch
that fails leaves what they leave up to the chunk that fails.
-/

namespace Taskmill

open Transact

namespace SubmitBatch

variable (sha256 : List UInt8 → String)

/-- `last_occurrence` -/
def lastOccurrence (subs : List TaskSubmission) : AList fun _ : String => Nat :=
  subs.zipIdx.foldl (fun m x => m.insert (x.1.effectiveKey sha256) x.2) ∅

/-- The body of the loop: `clock` is the reading at a position. -/
def position (skipRequeue : Bool) (last : AList fun _ : String => Nat) (clock : Nat → Int)
    (x : TaskSubmission × Nat) : Sql SubmitOutcome :=
  if last.lookup (x.1.effectiveKey sha256) =
    some x.2 then submitOne sha256 x.1 skipRequeue (clock x.2) else pure .duplicate

/-- The loop over the submissions of a chunk and their indices in it. -/
def positions (skipRequeue : Bool) (last : AList fun _ : String => Nat) (clock : Nat → Int) (chunkOffset : Nat) :
    List (TaskSubmission × Nat) → List SubmitOutcome → Sql (List SubmitOutcome)
  | [], results => pure results
  | (sub, i) :: rest, results => do
    let outcome ← position sha256 skipRequeue last clock (sub, chunkOffset + i)
    positions skipRequeue last clock chunkOffset rest (results ++ [outcome])

/-- The loop over the chunks, each in a transaction. -/
def chunks (skipRequeue : Bool) (last : AList fun _ : String => Nat) (clock : Nat → Int) :
    List (List TaskSubmission) → List SubmitOutcome → Sql (List SubmitOutcome)
  | [], results => pure results
  | chunk :: rest, results => do
    let results ← transaction (positions sha256 skipRequeue last clock results.length chunk.zipIdx results)
    chunks skipRequeue last clock rest results

/-- `submit_batch` -/
def run (clock : Nat → Int) (subs : List TaskSubmission) : Sql (List SubmitOutcome) := do
  let _ ← Txn.mapList (fun sub => Txn.ofExcept sub.prevalidate) subs
  let skipRequeue ← (fun s => !s.hasRunning) <$> Txn.get
  chunks sha256 skipRequeue (lastOccurrence sha256 subs) clock (subs.toChunks batchChunkSize) []

end SubmitBatch

/-! ### What it is compared with -/

/-- A later position has the same key. -/
def repeatedLater (sha256 : List UInt8 → String) (subs : List TaskSubmission) (x : TaskSubmission × Nat) : Bool :=
  ((subs.drop (x.2 + 1)).map (·.effectiveKey sha256)).contains (x.1.effectiveKey sha256)

/-- The last submissions of all keys and their positions, in the order of the batch. -/
def lastSubmissions (sha256 : List UInt8 → String) (subs : List TaskSubmission) : List (TaskSubmission × Nat) :=
  subs.zipIdx.filter fun x => !repeatedLater sha256 subs x

/-- Submissions one by one. -/
def submitEachAlone (sha256 : List UInt8 → String) (clock : Nat → Int)
    (items : List (TaskSubmission × Nat)) (s : Store) :
    List (Except StoreError SubmitOutcome) × Store :=
  Txn.each (fun x => submitDirect sha256 x.1 (clock x.2)) items s

/-- The tables are the same; the flags may differ. -/
def Store.KeepsTables (s s' : Store) : Prop := s.rollback s' = s'

/-! ### Positions -/

section Positions

variable {sha256 : List UInt8 → String}

private theorem lastOccurrence_append (subs : List TaskSubmission) (sub : TaskSubmission) :
    SubmitBatch.lastOccurrence sha256 (subs ++ [sub]) =
      (SubmitBatch.lastOccurrence sha256 subs).insert (sub.effectiveKey sha256) subs.length := by
  unfold SubmitBatch.lastOccurrence
  rw [List.zipIdx_append, List.foldl_append]
  simp

/-- The map holds the last position of every key. -/
private theorem lookup_lastOccurrence (subs : List TaskSubmission) (key : String) (i : Nat) :
    (SubmitBatch.lastOccurrence sha256 subs).lookup key = some i ↔
      (subs.map (·.effectiveKey sha256))[i]? = some key ∧ key ∉ (subs.map (·.effectiveKey sha256)).drop (i + 1) := by
  induction subs using List.reverseRecOn with
  | nil => simp [SubmitBatch.lastOccurrence]
  | append_singleton subs sub ih =>
    rw [lastOccurrence_append, List.map_append, List.map_singleton]
    have hlen : (subs.map (·.effectiveKey sha256)).length = subs.length := List.length_map _
    by_cases hkey : key = sub.effectiveKey sha256
    · subst hkey
      rw [AList.lookup_insert]
      constructor
      · intro h
        obtain rfl := Option.some.inj h
        rw [List.drop_eq_nil_of_le (by simp)]
        simp
      · rintro ⟨hi, hlater⟩
        rcases Nat.lt_trichotomy i subs.length with hlt | rfl | hgt
        · rw [List.drop_append_of_le_length (by omega)] at hlater
          simp at hlater
        · rfl
        · rw [List.getElem?_eq_none (by simp; omega)] at hi
          cases hi
    · rw [AList.lookup_insert_ne hkey, ih]
      rcases Nat.lt_or_ge i subs.length with hlt | hge
      · rw [List.getElem?_append_left (by omega), List.drop_append_of_le_length (by omega)]
        simp [hkey]
      · rw [List.getElem?_eq_none (by omega), List.getElem?_append_right (by omega)]
        simp only [reduceCtorEq, false_and, false_iff, not_and]
        intro hi
        rw [List.getElem?_singleton] at hi
        split at hi
        · exact absurd (Option.some.inj hi).symm hkey
        · cases hi

/-- A position is submitted if and only if it is the last one with its key. -/
private theorem last_iff {subs : List TaskSubmission} {x : TaskSubmission × Nat} (sha256 : List UInt8 → String)
    (hx : x ∈ subs.zipIdx) :
    (SubmitBatch.lastOccurrence sha256 subs).lookup (x.1.effectiveKey sha256) = some x.2 ↔
      repeatedLater sha256 subs x = false := by
  have hi : subs[x.2]? = some x.1 := List.mem_zipIdx_iff_getElem?.1 hx
  rw [lookup_lastOccurrence, List.getElem?_map, hi, Option.map_some, repeatedLater, List.map_drop]
  simp

end Positions

/-! ### The loops -/

section Loops

variable {sha256 : List UInt8 → String} {skipRequeue : Bool} {last : AList fun _ : String => Nat} {clock : Nat → Int}

/-- A chunk adds the results of its positions. -/
private theorem positions_apply (sha256 : List UInt8 → String) (skipRequeue : Bool)
    (last : AList fun _ : String => Nat) (clock : Nat → Int) (offset i : Nat) (chunk : List TaskSubmission)
    (results : List SubmitOutcome) (s : Store) :
    SubmitBatch.positions sha256 skipRequeue last clock offset (chunk.zipIdx i) results s =
      match Txn.mapList (SubmitBatch.position sha256 skipRequeue last clock) (chunk.zipIdx (offset + i)) s with
      | (.ok outcomes, s') => (.ok (results ++ outcomes), s')
      | (.error e, s') => (.error e, s') := by
  induction chunk generalizing i results s with
  | nil =>
    show (Except.ok results, s) = (Except.ok (results ++ []), s)
    rw [List.append_nil]
  | cons sub chunk ih =>
    rw [List.zipIdx_cons, List.zipIdx_cons, SubmitBatch.positions, Txn.mapList, Txn.bind_apply, Txn.bind_apply]
    rcases SubmitBatch.position sha256 skipRequeue last clock (sub, offset + i) s with ⟨e | outcome, s₁⟩
    · rfl
    · dsimp only
      rw [ih, Txn.bind_apply, Nat.add_assoc]
      rcases Txn.mapList (SubmitBatch.position sha256 skipRequeue last clock)
          (chunk.zipIdx (offset + (i + 1))) s₁ with
        ⟨e | outcomes, s₂⟩
      · rfl
      · show (Except.ok (results ++ [outcome] ++ outcomes), s₂) = (Except.ok (results ++ outcome :: outcomes), s₂)
        rw [List.append_assoc, List.singleton_append]

/-- The chunks that have been committed, and the one that fails if there is one. -/
private theorem chunks_cases (sha256 : List UInt8 → String) (skipRequeue : Bool) (last : AList fun _ : String => Nat)
    (clock : Nat → Int) (rest : List (List TaskSubmission)) (results : List SubmitOutcome) (s : Store) :
    (∃ outcomes s', SubmitBatch.chunks sha256 skipRequeue last clock rest results s =
      (.ok (results ++ outcomes), s') ∧
      Txn.mapList (SubmitBatch.position sha256 skipRequeue last clock) (rest.flatten.zipIdx results.length) s =
        (.ok outcomes, s')) ∨
    ∃ e s' done chunk later outcomes s₁ s₂, SubmitBatch.chunks sha256 skipRequeue last clock rest results s =
      (.error e, s') ∧
      rest = done ++ chunk :: later ∧ s₁.KeepsTables s' ∧
      Txn.mapList (SubmitBatch.position sha256 skipRequeue last clock) (done.flatten.zipIdx results.length) s =
        (.ok outcomes, s₁) ∧
      Txn.mapList (SubmitBatch.position sha256 skipRequeue last clock)
        (chunk.zipIdx (results.length + done.flatten.length)) s₁ = (.error e, s₂) := by
  induction rest generalizing results s with
  | nil => exact .inl ⟨[], s, by rw [List.append_nil]; rfl, rfl⟩
  | cons chunk rest ih =>
    have hpositions : SubmitBatch.positions sha256 skipRequeue last clock results.length chunk.zipIdx results s = _ :=
      positions_apply sha256 skipRequeue last clock results.length 0 chunk results s
    rw [Nat.add_zero] at hpositions
    rw [SubmitBatch.chunks, Txn.bind_apply]
    rcases hchunk : Txn.mapList (SubmitBatch.position sha256 skipRequeue last clock)
        (chunk.zipIdx results.length) s with
      ⟨e | outcomes, s₁⟩
    · rw [hchunk] at hpositions
      have htx : transaction (SubmitBatch.positions sha256 skipRequeue last clock results.length
        chunk.zipIdx results) s =
          (.error e, s.rollback s₁) := Txn.atomically_of_error hpositions
      rw [htx]
      exact .inr ⟨e, _, [], chunk, rest, [], s, s₁, rfl, rfl, rfl, rfl, hchunk⟩
    · rw [hchunk] at hpositions
      have htx : transaction (SubmitBatch.positions sha256 skipRequeue last clock results.length
        chunk.zipIdx results) s =
          (.ok (results ++ outcomes), s₁) := Txn.atomically_of_ok hpositions
      have hlength : (results ++ outcomes).length = results.length + chunk.length := by
        rw [List.length_append, Txn.length_mapList hchunk, List.length_zipIdx]
      rw [htx]
      dsimp only
      rcases ih (results ++ outcomes) s₁ with ⟨more, s', hrest, hloop⟩ |
        ⟨e, s', done, failing, later, more, s₂, s₃, hrest, rfl, htables, hloop, hfailing⟩
      · refine .inl ⟨outcomes ++ more, s', by rw [hrest, List.append_assoc], ?_⟩
        rw [List.flatten_cons, List.zipIdx_append]
        exact Txn.mapList_append_of_ok hchunk (by rwa [← hlength])
      · refine .inr ⟨e, s', chunk :: done, failing, later, outcomes ++ more, s₂, s₃, hrest, rfl, htables, ?_, ?_⟩
        · rw [List.flatten_cons, List.zipIdx_append]
          exact Txn.mapList_append_of_ok hchunk (by rwa [← hlength])
        · rwa [List.flatten_cons, List.length_append, ← Nat.add_assoc, ← hlength]

/-- What `submit_one` returns in a batch it returns on its own. -/
private theorem position_alone {running : Bool} {x : TaskSubmission × Nat} {s s' : Store}
    {outcome : SubmitOutcome} (hlast : last.lookup (x.1.effectiveKey sha256) = some x.2)
    (hrunning : s.hasRunning = running)
    (h : SubmitBatch.position sha256 (!running) last clock x s = (.ok outcome, s')) :
    submitDirect sha256 x.1 (clock x.2) s = (.ok outcome, s') ∧ s'.hasRunning = running := by
  rw [SubmitBatch.position, if_pos hlast, ← hrunning] at h
  refine ⟨Txn.atomically_of_ok h, ?_⟩
  have hflags : s.FlagsUp (submitOne sha256 x.1 (!s.hasRunning) (clock x.2) s).2 := submitOne_flags s
  rw [h] at hflags
  exact hflags.running.trans hrunning

end Loops

/-! ### Chunks and positions -/

section Batch

variable {sha256 : List UInt8 → String} {clock : Nat → Int} {subs : List TaskSubmission}

/-- The chunks before another one are full, and that one has no more submissions than they have. -/
private theorem chunks_before {done later : List (List TaskSubmission)} {chunk : List TaskSubmission}
    (h : subs.toChunks batchChunkSize = done ++ chunk :: later) :
    subs = done.flatten ++ (chunk ++ later.flatten) ∧ done.flatten.length = done.length * batchChunkSize ∧
      chunk.length ≤ batchChunkSize := by
  have hne : subs ≠ [] := by
    rintro rfl
    simp [List.toChunks] at h
  obtain ⟨full, last, hchunks, hfull, -, hlast, rfl⟩ := toChunks_spec (n := batchChunkSize) (by decide) hne
  have heq : full ++ [last] = done ++ chunk :: later := hchunks.symm.trans h
  have hsize : chunk.length ≤ batchChunkSize := by
    have hmem : chunk ∈ full ++ [last] := by simp [heq]
    rcases List.mem_append.1 hmem with hmem | hmem
    · exact (hfull chunk hmem).le
    · rwa [List.mem_singleton.1 hmem]
  have hdone : ∀ c ∈ done, c.length = batchChunkSize := by
    intro c hc
    have hpre : done <+: full := by
      have hle : done.length ≤ full.length := by
        have hlen := congrArg List.length heq
        simp at hlen
        omega
      have hpre : done <+: full ++ [last] := ⟨_, heq.symm⟩
      exact List.prefix_of_prefix_length_le hpre (List.prefix_append ..) hle
    exact hfull c (hpre.subset hc)
  have hlength : done.flatten.length = done.length * batchChunkSize := by
    rw [List.length_flatten, List.map_congr_left hdone, List.map_const', List.sum_replicate_nat]
  exact ⟨by rw [heq, List.flatten_append, List.flatten_cons], hlength, hsize⟩

/-- The positions of a prefix. -/
private theorem lastSubmissions_before (sha256 : List UInt8 → String) {front rest : List TaskSubmission}
    (h : subs = front ++ rest) :
    (lastSubmissions sha256 subs).filter (fun x => x.2 < front.length) =
      (front.zipIdx).filter fun x => !repeatedLater sha256 subs x := by
  have hfront : ((front.zipIdx.filter fun x => !repeatedLater sha256 subs x).filter fun x => x.2 < front.length) =
      front.zipIdx.filter fun x => !repeatedLater sha256 subs x := by
    rw [List.filter_eq_self]
    intro x hx
    have hi := List.snd_lt_of_mem_zipIdx (List.mem_filter.1 hx).1
    simpa using hi
  have hrest : (((rest.zipIdx front.length).filter fun x => !repeatedLater sha256 subs x).filter fun x =>
      x.2 < front.length) = [] := by
    rw [List.filter_eq_nil_iff]
    intro x hx
    have hi := List.le_snd_of_mem_zipIdx (List.mem_filter.1 hx).1
    simpa using hi
  unfold lastSubmissions
  conv_lhs => rw [h, List.zipIdx_append, List.filter_append, List.filter_append, ← h, Nat.zero_add, hfront, hrest,
    List.append_nil]

/-- The positions of the front of a batch, submitted in a loop and one by one. -/
private theorem front_alone {front rest : List TaskSubmission} (h : subs = front ++ rest) {s s' : Store}
    {results : List SubmitOutcome} (hloop : Txn.mapList
      (SubmitBatch.position sha256 (!s.hasRunning) (SubmitBatch.lastOccurrence sha256 subs) clock) front.zipIdx s =
        (.ok results, s')) :
    ∃ outcomes, submitEachAlone sha256 clock (front.zipIdx.filter fun x => !repeatedLater sha256 subs x) s =
      (outcomes.map .ok, s') ∧
        Txn.Picked (fun x => !repeatedLater sha256 subs x) .duplicate front.zipIdx results outcomes := by
  have hmem : ∀ x ∈ front.zipIdx, x ∈ subs.zipIdx := by
    intro x hx
    rw [h, List.zipIdx_append]
    exact List.mem_append_left _ hx
  refine Txn.mapList_picked (I := fun t => t.hasRunning = s.hasRunning) (fun x hx hp => ?_)
    (fun x hx t outcome t' hp ht hposition => ?_) rfl hloop
  · rw [SubmitBatch.position, if_neg]
    rw [last_iff sha256 (hmem x hx)]
    simpa using hp
  · exact position_alone ((last_iff sha256 (hmem x hx)).2 (by simpa using hp)) ht hposition

/-- The checks before the first transaction change nothing. -/
private theorem prevalidate_state (subs : List TaskSubmission) (s : Store) :
    (Txn.mapList (fun sub : TaskSubmission => (Txn.ofExcept sub.prevalidate : Sql Unit)) subs s).2 = s := by
  have h : Txn.Always (fun s s' : Store => s' = s)
      (Txn.mapList (fun sub : TaskSubmission => (Txn.ofExcept sub.prevalidate : Sql Unit)) subs) :=
    Txn.Always.mapList (R := fun s s' : Store => s' = s) (fun _ => rfl) (fun _ _ _ h₁ h₂ => h₂.trans h₁)
      (fun _ _ => rfl) subs
  exact h s

/-- A batch is refused at once, or it runs its chunks. -/
private theorem run_cases (sha256 : List UInt8 → String) (clock : Nat → Int)
    (subs : List TaskSubmission) (s : Store) :
    (∃ e, SubmitBatch.run sha256 clock subs s = (.error e, s) ∧ ∃ sub ∈ subs, sub.prevalidate = .error e) ∨
      SubmitBatch.run sha256 clock subs s = SubmitBatch.chunks sha256 (!s.hasRunning)
      (SubmitBatch.lastOccurrence sha256 subs)
        clock (subs.toChunks batchChunkSize) [] s := by
  have hstate := prevalidate_state subs s
  rcases hvalid : Txn.mapList (fun sub : TaskSubmission => (Txn.ofExcept sub.prevalidate : Sql Unit)) subs
    s with ⟨e | _, s₁⟩
  · rw [hvalid] at hstate
    obtain rfl : s₁ = s := hstate
    obtain ⟨sub, hsub, t, hcheck⟩ := Txn.mapList_error hvalid
    exact .inl ⟨e, Txn.bind_of_error hvalid, sub, hsub, congrArg Prod.fst hcheck⟩
  · rw [hvalid] at hstate
    obtain rfl : s₁ = s := hstate
    exact .inr (Txn.bind_of_ok hvalid)

end Batch

/-! ### A clock that stands still -/

private theorem position_eq {sha256 : List UInt8 → String} {skipRequeue : Bool} {now : Int}
    {subs : List TaskSubmission} {x : TaskSubmission × Nat} (hx : x ∈ subs.zipIdx) :
    SubmitBatch.position sha256 skipRequeue (SubmitBatch.lastOccurrence sha256 subs) (fun _ => now) x =
      submitItem sha256 skipRequeue (fun i key => !((subs.map (·.effectiveKey sha256)).drop (i + 1)).contains key)
      now x.swap := by
  have hlast := last_iff sha256 hx
  rw [repeatedLater, List.map_drop] at hlast
  rw [SubmitBatch.position, submitItem]
  dsimp only [Prod.swap]
  by_cases h : (SubmitBatch.lastOccurrence sha256 subs).lookup (x.1.effectiveKey sha256) = some x.2
  · rw [if_pos h, if_pos]
    rw [Bool.not_eq_true']
    exact hlast.1 h
  · rw [if_neg h, if_neg]
    rw [Bool.not_eq_true']
    exact fun hcontains => h (hlast.2 hcontains)

private theorem chunks_eq (sha256 : List UInt8 → String) (skipRequeue : Bool) (now : Int) (subs : List TaskSubmission)
    (items : List (List (TaskSubmission × Nat))) (results : List SubmitOutcome) (s : Store)
    (hindex : items.flatten = (items.flatten.map Prod.fst).zipIdx results.length)
    (hmem : ∀ x ∈ items.flatten, x ∈ subs.zipIdx) :
    SubmitBatch.chunks sha256 skipRequeue (SubmitBatch.lastOccurrence sha256 subs) (fun _ => now)
      (items.map (List.map Prod.fst)) results s =
        match Txn.mapList (submitChunk sha256 skipRequeue
          (fun i key => !((subs.map (·.effectiveKey sha256)).drop (i + 1)).contains key) now)
            (items.map (List.map Prod.swap)) s with
        | (.ok outcomes, s') => (.ok (results ++ outcomes.flatten), s')
        | (.error e, s') => (.error e, s') := by
  induction items generalizing results s with
  | nil =>
    show (Except.ok results, s) = (Except.ok (results ++ []), s)
    rw [List.append_nil]
  | cons chunk items ih =>
    rw [List.flatten_cons, List.map_append, List.zipIdx_append] at hindex
    obtain ⟨hchunk, hrest⟩ := List.append_inj hindex (by simp)
    rw [List.length_map] at hrest
    have hitems : Txn.mapList (submitItem sha256 skipRequeue
        (fun i key => !((subs.map (·.effectiveKey sha256)).drop (i + 1)).contains key) now) (chunk.map Prod.swap) s =
          Txn.mapList (SubmitBatch.position sha256 skipRequeue (SubmitBatch.lastOccurrence sha256 subs) fun _ =>
              now) chunk s := by
      rw [Txn.mapList_map]
      refine Txn.mapList_congr (I := fun _ => True) (fun x hx t _ => ?_) (fun _ _ _ _ _ _ _ => trivial) trivial
      rw [position_eq (hmem x (by simp [hx]))]
    have hpositions := positions_apply sha256 skipRequeue (SubmitBatch.lastOccurrence sha256 subs) (fun _ => now)
      results.length 0 (chunk.map Prod.fst) results s
    rw [Nat.add_zero, ← hchunk, ← hitems] at hpositions
    rw [List.map_cons, List.map_cons, SubmitBatch.chunks, Txn.mapList, Txn.bind_apply, Txn.bind_apply, submitChunk]
    rcases hloop : Txn.mapList (submitItem sha256 skipRequeue
        (fun i key => !((subs.map (·.effectiveKey sha256)).drop (i + 1)).contains key) now)
            (chunk.map Prod.swap) s with
      ⟨e | outcomes, s₁⟩
    · rw [hloop] at hpositions
      rw [transaction, transaction, Txn.atomically_of_error hpositions, Txn.atomically_of_error hloop]
    · rw [hloop] at hpositions
      have hlength : (results ++ outcomes).length = results.length + chunk.length := by
        rw [List.length_append, Txn.length_mapList hloop, List.length_map]
      rw [transaction, transaction, Txn.atomically_of_ok hpositions, Txn.atomically_of_ok hloop]
      dsimp only
      rw [ih (results ++ outcomes) s₁ (by rwa [hlength]) fun x hx => hmem x (by
        rw [List.flatten_cons]
        exact List.mem_append_right _ hx), Txn.bind_apply]
      rcases Txn.mapList (submitChunk sha256 skipRequeue
        (fun i key => !((subs.map (·.effectiveKey sha256)).drop (i + 1)).contains key) now)
            (items.map (List.map Prod.swap)) s₁ with
        ⟨e | more, s₂⟩
      · rfl
      · show (Except.ok (results ++ outcomes ++ more.flatten), s₂) =
          (Except.ok (results ++ (outcomes ++ more.flatten)), s₂)
        rw [List.append_assoc]

/-- `submitBatch` is `submit_batch` within one tick of the clock. -/
theorem submitBatch_eq (sha256 : List UInt8 → String) (subs : List TaskSubmission) (now : Int) (s : Store) :
    submitBatch sha256 subs now s = SubmitBatch.run sha256 (fun _ => now) subs s := by
  have hstate := prevalidate_state subs s
  have hitems : ((subs.zipIdx.map fun x => (x.2, x.1)).toChunks batchChunkSize) =
      (subs.zipIdx.toChunks batchChunkSize).map (List.map Prod.swap) := toChunks_map (by decide) Prod.swap subs.zipIdx
  have hsubs : subs.toChunks batchChunkSize = (subs.zipIdx.toChunks batchChunkSize).map (List.map Prod.fst) := by
    rw [← toChunks_map (by decide), List.zipIdx_map_fst]
  have hflat := flatten_toChunks (n := batchChunkSize) (by decide) subs.zipIdx
  have hindex : (subs.zipIdx.toChunks batchChunkSize).flatten =
      ((subs.zipIdx.toChunks batchChunkSize).flatten.map Prod.fst).zipIdx ([] : List SubmitOutcome).length := by
    rw [hflat, List.zipIdx_map_fst]
    rfl
  rcases hvalid : Txn.mapList (fun sub : TaskSubmission => (Txn.ofExcept sub.prevalidate : Sql Unit)) subs
    s with ⟨e | _, s₁⟩
  · exact (Txn.bind_of_error hvalid).trans (Txn.bind_of_error hvalid).symm
  · rw [hvalid] at hstate
    obtain rfl : s₁ = s := hstate
    have hchunks := chunks_eq sha256 (!s₁.hasRunning) now subs _ [] s₁ hindex
      fun x hx => by rwa [hflat] at hx
    rw [← hsubs] at hchunks
    refine (Txn.bind_of_ok hvalid).trans (Eq.trans ?_ (Txn.bind_of_ok hvalid).symm)
    refine Eq.trans ?_ hchunks.symm
    rw [← hitems]
    show (Txn.mapList _ _ >>= fun results => pure results.flatten) s₁ = _
    rw [Txn.bind_apply]
    dsimp only
    generalize Txn.mapList _ _ s₁ = loop
    rcases loop with ⟨e | outcomes, s₂⟩
    · rfl
    · rfl

/-- The chunk with the number `done` fails with the error of one of its positions, and the tables are those that the
last submissions of the chunks before it leave one by one. -/
structure SubmitBatch.Failed (sha256 : List UInt8 → String) (clock : Nat → Int)
    (subs : List TaskSubmission) (s s' : Store) (e : StoreError) (done : Nat) : Prop where
  error : ∃ x ∈ lastSubmissions sha256 subs, done * batchChunkSize ≤ x.2 ∧ x.2 < (done + 1) * batchChunkSize ∧
    ∃ t t', submitOne sha256 x.1 (!s.hasRunning) (clock x.2) t = (.error e, t')
  applied : ∃ (outcomes : List SubmitOutcome) (s₁ : Store), submitEachAlone sha256 clock
    ((lastSubmissions sha256 subs).filter fun x => x.2 < done * batchChunkSize) s = (outcomes.map .ok, s₁) ∧
      s₁.KeepsTables s'

private theorem failed_of_chunks {sha256 : List UInt8 → String} {clock : Nat → Int} {subs : List TaskSubmission}
    {s s' s₁ s₂ : Store} {e : StoreError} {done later : List (List TaskSubmission)} {chunk : List TaskSubmission}
    {results : List SubmitOutcome} (hsplit : subs.toChunks batchChunkSize = done ++ chunk :: later)
    (htables : s₁.KeepsTables s')
    (hloop : Txn.mapList (SubmitBatch.position sha256 (!s.hasRunning) (SubmitBatch.lastOccurrence sha256 subs) clock)
      done.flatten.zipIdx s = (.ok results, s₁))
    (hfailing : Txn.mapList (SubmitBatch.position sha256 (!s.hasRunning)
      (SubmitBatch.lastOccurrence sha256 subs) clock)
      (chunk.zipIdx done.flatten.length) s₁ = (.error e, s₂)) :
    SubmitBatch.Failed sha256 clock subs s s' e done.length := by
  obtain ⟨hsubs, hlength, hsize⟩ := chunks_before hsplit
  refine ⟨?_, ?_⟩
  · obtain ⟨x, hx, t, hposition⟩ := Txn.mapList_error hfailing
    have hmem : x ∈ subs.zipIdx := by
      rw [hsubs, List.zipIdx_append, List.zipIdx_append, Nat.zero_add]
      exact List.mem_append_right _ (List.mem_append_left _ hx)
    have hge := List.le_snd_of_mem_zipIdx hx
    have hlt := List.snd_lt_add_of_mem_zipIdx hx
    have hlast : (SubmitBatch.lastOccurrence sha256 subs).lookup (x.1.effectiveKey sha256) = some x.2 := by
      by_contra hnot
      rw [SubmitBatch.position, if_neg hnot] at hposition
      cases hposition
    rw [SubmitBatch.position, if_pos hlast] at hposition
    refine ⟨x, List.mem_filter.2 ⟨hmem, ?_⟩, ?_, ?_, t, s₂, hposition⟩
    · rw [(last_iff sha256 hmem).1 hlast]
      rfl
    · omega
    · rw [Nat.add_mul, Nat.one_mul]
      omega
  · obtain ⟨outcomes, halone, -⟩ := front_alone hsubs hloop
    have hfront := lastSubmissions_before sha256 hsubs
    rw [hlength] at hfront
    exact ⟨outcomes, s₁, by rwa [hfront], htables⟩

/-- A batch that succeeds has one result for each position, `Duplicate` where a later position has the same key, and
leaves the results and the store that the last submissions of all keys leave one by one.  A batch that fails has
been refused at once, or one of its chunks fails; a batch of one chunk leaves the tables as they were. -/
theorem submit_batch_last_wins (sha256 : List UInt8 → String) (clock : Nat → Int)
    (subs : List TaskSubmission) (s : Store) :
    (∀ results s', SubmitBatch.run sha256 clock subs s = (.ok results, s') →
      results.length = subs.length ∧
      (∀ i sub, subs[i]? = some sub → repeatedLater sha256 subs (sub, i) = true → results[i]? = some .duplicate) ∧
      ∃ outcomes : List SubmitOutcome, submitEachAlone sha256 clock (lastSubmissions sha256 subs) s =
        (outcomes.map .ok, s') ∧
        ((subs.zipIdx.zip results).filter fun y => !repeatedLater sha256 subs y.1).map Prod.snd = outcomes) ∧
    ∀ e s', SubmitBatch.run sha256 clock subs s = (.error e, s') →
      ((∃ sub ∈ subs, sub.prevalidate = .error e) ∧ s' = s ∨
        ∃ done, SubmitBatch.Failed sha256 clock subs s s' e done) ∧
      (subs.length ≤ batchChunkSize → s.KeepsTables s') := by
  rcases run_cases sha256 clock subs s with ⟨e, hrun, hinvalid⟩ | hrun
  · rw [hrun]
    refine ⟨fun results s' h => (by cases h), fun e s' h => ?_⟩
    cases h
    exact ⟨.inl ⟨hinvalid, rfl⟩, fun _ => rfl⟩
  · rw [hrun]
    rcases chunks_cases sha256 (!s.hasRunning) (SubmitBatch.lastOccurrence sha256 subs) clock
        (subs.toChunks batchChunkSize) [] s with
      ⟨results, s', hchunks, hloop⟩ | ⟨e, s', done, chunk, later, results, s₁, s₂, hchunks, hsplit, htables,
        hloop, hfailing⟩
    · rw [hchunks]
      refine ⟨fun results' t h => ?_, fun e t h => (by cases h)⟩
      cases h
      rw [flatten_toChunks (by decide)] at hloop
      obtain ⟨outcomes, halone, hpicked⟩ := front_alone (List.append_nil subs).symm hloop
      refine ⟨?_, fun i sub hi hlater => ?_, outcomes, halone, hpicked.called⟩
      · rw [List.nil_append, hpicked.length, List.length_zipIdx]
      · have hx : subs.zipIdx[i]? = some (sub, i) := by
          rw [List.getElem?_zipIdx, hi]
          simp
        exact hpicked.skipped hx (by simp [hlater])
    · rw [hchunks]
      refine ⟨fun results' t h => (by cases h), fun e' t h => ?_⟩
      cases h
      rw [List.length_nil, Nat.zero_add] at hfailing
      have hfailed := failed_of_chunks hsplit htables hloop hfailing
      refine ⟨.inr ⟨done.length, hfailed⟩, fun hle => ?_⟩
      -- the first chunk is the only one
      have hdone : done.length = 0 := by
        obtain ⟨x, hx, hge, -, -⟩ := hfailed.error
        have hlt := List.snd_lt_of_mem_zipIdx (List.mem_filter.1 hx).1
        unfold batchChunkSize at hge hle
        omega
      obtain rfl := List.length_eq_zero_iff.1 hdone
      cases hloop
      exact htables

end Taskmill
