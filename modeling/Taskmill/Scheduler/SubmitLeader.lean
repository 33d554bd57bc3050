import Taskmill.Transact.Calls
import Taskmill.Transact.Run
import Mathlib.Data.List.Basic

/-!
# Coalesced submissions

A caller of `TaskStore::submit` that gets the lock of the receiver drains the channel, releases the lock and writes
what it has drained together with its own submission; a caller that does not get the lock sends its submission into
the channel and waits for the answer (`src/store/submit/mod.rs`).  The run loop drains the channel, too, but only
after it has seen that the scheduler is not paused (`src/scheduler/run_loop.rs`).

A leader does not look at the channel again once it has found it empty, and a message that is sent after that is
left to the next caller or to the run loop.  The order of the messages does not matter here, so the channel is the
set of the callers whose message is in it.
-/

namespace Taskmill

open Transact

/-- Where somebody is who may drain the channel. -/
inductive Drain where
  | idle
  /-- about to take the lock -/
  | starting
  /-- has the lock and takes messages out of the channel -/
  | receiving
  /-- has found the channel empty and still has the lock -/
  | finishing
  /-- writes the batch and answers -/
  | processing
deriving DecidableEq, Repr

/-- A caller of `submit`; one that is idle has returned. -/
inductive Caller where
  | drain (d : Drain)
  /-- did not get the lock -/
  | lost
  /-- waits, and its message is in the channel -/
  | queued
  /-- waits, and its message is in the batch of a caller or of the run loop -/
  | taken (who : Option Nat)
deriving DecidableEq, Repr

structure Submits where
  callers : List Caller
  loop : Drain
  locked : Bool
  /-- there is a run loop -/
  present : Bool
  paused : Bool

namespace Submits

variable (σ : Submits)

/-- Where a caller is, or the run loop. -/
def stage : Option Nat → Option Drain
  | none => some σ.loop
  | some i =>
    match σ.callers[i]? with
    | some (.drain d) => some d
    | _ => none

def enter (who : Option Nat) (d : Drain) : Submits :=
  match who with
  | none => { σ with loop := d }
  | some i => { σ with callers := σ.callers.set i (.drain d) }

/-- Somebody drains the channel, or is about to: a caller who will find the lock free, or the run loop past its
check of the pause. -/
def Draining : Prop :=
  Caller.drain .receiving ∈ σ.callers ∨ (σ.locked = false ∧ Caller.drain .starting ∈ σ.callers) ∨
    σ.loop = .receiving ∨ σ.loop = .starting

/-- Or the run loop will come round. -/
def Drains : Prop := σ.Draining ∨ (σ.present = true ∧ σ.paused = false)

/-- A message is in the channel and nobody will drain it. -/
def Stuck : Prop := Caller.queued ∈ σ.callers ∧ ¬ σ.Drains

structure Fresh : Prop where
  callers : σ.callers = []
  loop : σ.loop = .idle
  locked : σ.locked = false

end Submits

inductive SubmitStep where
  /-- a further submission -/
  | arrive
  /-- `try_lock` of a caller -/
  | tryLock (i : Nat)
  /-- the loop has seen that the scheduler is not paused -/
  | poll
  /-- `lock` of the loop -/
  | lock
  /-- `try_recv` gives the message of caller `m` -/
  | receive (who : Option Nat) (m : Nat)
  /-- `try_recv` finds nothing -/
  | empty (who : Option Nat)
  | unlock (who : Option Nat)
  /-- `process_submit_batch`, or `submit_direct` -/
  | respond (who : Option Nat)
  /-- a caller without the lock sends its message -/
  | send (i : Nat)
  | pause
  | resume
  /-- the loop ends, after a last drain -/
  | stop

def SubmitStep.exec (σ : Submits) : SubmitStep → Submits
  | .arrive => { σ with callers := σ.callers ++ [.drain .starting] }
  | .tryLock i =>
    if σ.callers[i]? = some (.drain .starting) then
      if σ.locked then { σ with callers := σ.callers.set i .lost }
      else { σ.enter (some i) .receiving with locked := true }
    else σ
  | .poll => if σ.present = true ∧ σ.paused = false ∧ σ.loop = .idle then { σ with loop := .starting } else σ
  | .lock => if σ.loop = .starting ∧ σ.locked = false then { σ with loop := .receiving, locked := true } else σ
  | .receive who m =>
    if σ.stage who = some .receiving ∧ σ.callers[m]? = some .queued then
      { σ with callers := σ.callers.set m (.taken who) }
    else σ
  | .empty who =>
    if σ.stage who = some .receiving ∧ Caller.queued ∉ σ.callers then σ.enter who .finishing else σ
  | .unlock who => if σ.stage who = some .finishing then { σ.enter who .processing with locked := false } else σ
  | .respond who =>
    if σ.stage who = some .processing then
      let σ := σ.enter who .idle
      { σ with callers := σ.callers.map fun c => if c = .taken who then .drain .idle else c }
    else σ
  | .send i => if σ.callers[i]? = some .lost then { σ with callers := σ.callers.set i .queued } else σ
  | .pause => { σ with paused := true }
  | .resume => { σ with paused := false }
  | .stop => if σ.present = true ∧ σ.loop = .idle then { σ with present := false, loop := .starting } else σ

/-- A message is sent only when somebody will drain it, and the scheduler is paused only when the channel is empty or
somebody else drains it. -/
def SubmitStep.Attended (σ : Submits) : SubmitStep → Prop
  | .send i => σ.callers[i]? = some .lost → σ.Drains
  | .pause => Caller.queued ∈ σ.callers → σ.Draining
  | _ => True

section Steps

variable {σ : Submits} {i : Nat} {c x : Caller}

private theorem stage_some {who : Option Nat} {d : Drain} (h : σ.stage who = some d) :
    (who = none ∧ σ.loop = d) ∨ ∃ i, who = some i ∧ σ.callers[i]? = some (.drain d) := by
  cases who with
  | none => exact .inl ⟨rfl, Option.some.inj h⟩
  | some i =>
    refine .inr ⟨i, rfl, ?_⟩
    simp only [Submits.stage] at h
    split at h
    · rename_i d' hd
      rw [hd, Option.some.inj h]
    · cases h

/-- Whoever goes on from a stage in which he does not drain leaves the others alone. -/
private theorem draining_enter {who : Option Nat} {d d' : Drain} (hwho : σ.stage who = some d) (hd : d ≠ .receiving)
    (hd' : d ≠ .starting) (h : σ.Draining) : (σ.enter who d').Draining := by
  rcases stage_some hwho with ⟨rfl, hloop⟩ | ⟨i, rfl, hi⟩
  · rcases h with h | h | h | h
    · exact .inl h
    · exact .inr (.inl h)
    · exact absurd (hloop.symm.trans h) hd
    · exact absurd (hloop.symm.trans h) hd'
  · have hmem {x : Drain} (hx : Caller.drain x ∈ σ.callers) (hne : d ≠ x) :
        Caller.drain x ∈ σ.callers.set i (.drain d') :=
      mem_set_of_ne _ hi hx fun heq => hne (Caller.drain.inj heq).symm
    rcases h with h | ⟨hfree, h⟩ | h | h
    · exact .inl (hmem h hd)
    · exact .inr (.inl ⟨hfree, hmem h hd'⟩)
    · exact .inr (.inr (.inl h))
    · exact .inr (.inr (.inr h))

private theorem enter_present {who : Option Nat} {d : Drain} :
    (σ.enter who d).present = σ.present ∧ (σ.enter who d).paused = σ.paused := by
  cases who with
  | none => exact ⟨rfl, rfl⟩
  | some i => exact ⟨rfl, rfl⟩

private theorem drains_enter {who : Option Nat} {d : Drain} (d' : Drain) (hwho : σ.stage who = some d)
    (hd : d ≠ .receiving) (hd' : d ≠ .starting) (h : σ.Drains) : (σ.enter who d').Drains := by
  rcases h with h | h
  · exact .inl (draining_enter hwho hd hd' h)
  · exact .inr (by rw [enter_present.1, enter_present.2]; exact h)

/-- Nobody comes to wait by going on to another stage. -/
private theorem queued_enter {who : Option Nat} {d : Drain} (h : Caller.queued ∈ (σ.enter who d).callers) :
    Caller.queued ∈ σ.callers := by
  cases who with
  | none => exact h
  | some i =>
    rcases List.mem_or_eq_of_mem_set h with h | h
    · exact h
    · cases h

/-- Sending a message does not change who drains. -/
private theorem draining_set (c : Caller) {y : Caller} (hi : σ.callers[i]? = some y) (hy : ∀ d, y ≠ .drain d)
    (hc : ∀ d, c ≠ .drain d) : ({ σ with callers := σ.callers.set i c } : Submits).Draining ↔ σ.Draining := by
  have hmem (d : Drain) : Caller.drain d ∈ σ.callers.set i c ↔ Caller.drain d ∈ σ.callers := by
    constructor
    · intro h
      rcases List.mem_or_eq_of_mem_set h with h | h
      · exact h
      · exact absurd h.symm (hc d)
    · exact fun h => mem_set_of_ne _ hi h fun heq => hy d heq.symm
  simp only [Submits.Draining, hmem]

/-- A step that is attended strands nobody. -/
private theorem not_stuck_exec (h : ¬ σ.Stuck) {st : SubmitStep} (hst : st.Attended σ) : ¬ (st.exec σ).Stuck := by
  have hdrains (hq : Caller.queued ∈ σ.callers) : σ.Drains := by
    by_contra hno
    exact h ⟨hq, hno⟩
  rintro ⟨hq, hno⟩
  apply hno
  cases st with
  | arrive =>
    have hq : Caller.queued ∈ σ.callers := by
      rcases List.mem_append.1 hq with hq | hq
      · exact hq
      · cases List.mem_singleton.1 hq
    rcases hdrains hq with (h | ⟨hfree, h⟩ | h | h) | h
    · exact .inl (.inl (List.mem_append_left _ h))
    · exact .inl (.inr (.inl ⟨hfree, List.mem_append_left _ h⟩))
    · exact .inl (.inr (.inr (.inl h)))
    · exact .inl (.inr (.inr (.inr h)))
    · exact .inr h
  | tryLock i =>
    simp only [SubmitStep.exec] at hq ⊢
    by_cases hi : σ.callers[i]? = some (.drain .starting)
    · rw [if_pos hi] at hq ⊢
      by_cases hl : σ.locked = true
      · -- a caller who does not get the lock would not have drained
        rw [if_pos hl] at hq ⊢
        have hq : Caller.queued ∈ σ.callers := by
          rcases List.mem_or_eq_of_mem_set hq with hq | hq
          · exact hq
          · cases hq
        rcases hdrains hq with (h | ⟨hfree, _⟩ | h | h) | h
        · exact .inl (.inl (mem_set_of_ne _ hi h (by simp)))
        · rw [hl] at hfree
          cases hfree
        · exact .inl (.inr (.inr (.inl h)))
        · exact .inl (.inr (.inr (.inr h)))
        · exact .inr h
      · rw [if_neg hl]
        exact .inl (.inl (mem_set_self _ hi))
    · rw [if_neg hi] at hq ⊢
      exact hdrains hq
  | poll =>
    simp only [SubmitStep.exec] at hq ⊢
    split
    · exact .inl (.inr (.inr (.inr rfl)))
    · rename_i hno
      rw [if_neg hno] at hq
      exact hdrains hq
  | lock =>
    simp only [SubmitStep.exec] at hq ⊢
    split
    · exact .inl (.inr (.inr (.inl rfl)))
    · rename_i hno
      rw [if_neg hno] at hq
      exact hdrains hq
  | receive who m =>
    simp only [SubmitStep.exec] at hq ⊢
    by_cases hc : σ.stage who = some .receiving ∧ σ.callers[m]? = some .queued
    · rw [if_pos hc]
      refine .inl ((draining_set (.taken who) hc.2 nofun nofun).2 ?_)
      rcases stage_some hc.1 with ⟨_, hloop⟩ | ⟨i, _, hi⟩
      · exact .inr (.inr (.inl hloop))
      · exact .inl (List.mem_of_getElem? hi)
    · rw [if_neg hc] at hq ⊢
      exact hdrains hq
  | empty who =>
    simp only [SubmitStep.exec] at hq ⊢
    by_cases hc : σ.stage who = some .receiving ∧ Caller.queued ∉ σ.callers
    · rw [if_pos hc] at hq
      exact absurd (queued_enter hq) hc.2
    · rw [if_neg hc] at hq ⊢
      exact hdrains hq
  | unlock who =>
    simp only [SubmitStep.exec] at hq ⊢
    by_cases hc : σ.stage who = some .finishing
    · rw [if_pos hc] at hq ⊢
      rcases drains_enter .processing hc nofun nofun (hdrains (queued_enter hq)) with (h | ⟨_, h⟩ | h | h) | h
      · exact .inl (.inl h)
      · exact .inl (.inr (.inl ⟨rfl, h⟩))
      · exact .inl (.inr (.inr (.inl h)))
      · exact .inl (.inr (.inr (.inr h)))
      · exact .inr h
    · rw [if_neg hc] at hq ⊢
      exact hdrains hq
  | respond who =>
    simp only [SubmitStep.exec] at hq ⊢
    by_cases hc : σ.stage who = some .processing
    · rw [if_pos hc] at hq ⊢
      have hanswer {d : Drain} (hmem : Caller.drain d ∈ (σ.enter who .idle).callers) : Caller.drain d ∈
          (σ.enter who .idle).callers.map fun c => if c = .taken who then .drain .idle else c :=
        List.mem_map.2 ⟨_, hmem, if_neg nofun⟩
      have hq : Caller.queued ∈ (σ.enter who .idle).callers := by
        obtain ⟨c, hmem, heq⟩ := List.mem_map.1 hq
        split at heq
        · cases heq
        · exact heq ▸ hmem
      rcases drains_enter .idle hc nofun nofun (hdrains (queued_enter hq)) with (h | ⟨hfree, h⟩ | h | h) | h
      · exact .inl (.inl (hanswer h))
      · exact .inl (.inr (.inl ⟨hfree, hanswer h⟩))
      · exact .inl (.inr (.inr (.inl h)))
      · exact .inl (.inr (.inr (.inr h)))
      · exact .inr h
    · rw [if_neg hc] at hq ⊢
      exact hdrains hq
  | send i =>
    simp only [SubmitStep.exec] at hq ⊢
    by_cases hi : σ.callers[i]? = some .lost
    · rw [if_pos hi]
      rcases hst hi with h | h
      · exact .inl ((draining_set .queued hi nofun nofun).2 h)
      · exact .inr h
    · rw [if_neg hi] at hq ⊢
      exact hdrains hq
  | pause => exact .inl (hst hq)
  | resume =>
    rcases hdrains hq with h | h
    · exact .inl h
    · exact .inr ⟨h.1, rfl⟩
  | stop =>
    simp only [SubmitStep.exec] at hq ⊢
    split
    · exact .inl (.inr (.inr (.inr rfl)))
    · rename_i hno
      rw [if_neg hno] at hq
      exact hdrains hq

/-- A step that is not attended strands somebody. -/
private theorem stuck_exec {st : SubmitStep} (hst : ¬ st.Attended σ) : (st.exec σ).Stuck := by
  cases st with
  | send i =>
    simp only [SubmitStep.Attended, Classical.not_imp] at hst
    obtain ⟨hi, hno⟩ := hst
    simp only [SubmitStep.exec, if_pos hi]
    refine ⟨mem_set_self _ hi, fun h => hno ?_⟩
    rcases h with h | h
    · exact .inl ((draining_set .queued hi nofun nofun).1 h)
    · exact .inr h
  | pause =>
    simp only [SubmitStep.Attended, Classical.not_imp] at hst
    refine ⟨hst.1, fun h => hst.2 ?_⟩
    rcases h with h | h
    · exact h
    · cases h.2
  | _ => exact absurd trivial hst

end Steps

/-- In no state of a run a caller is stuck, if and only if every step of the run is attended. -/
theorem never_stuck_iff (σ : Submits) (hfresh : σ.Fresh) (steps : List SubmitStep) :
    (∀ n, ¬ ((steps.take n).foldl SubmitStep.exec σ).Stuck) ↔ Along SubmitStep.exec SubmitStep.Attended σ steps := by
  have hfirst : ¬ σ.Stuck := by
    rintro ⟨hq, _⟩
    rw [hfresh.callers] at hq
    cases hq
  clear hfresh
  induction steps generalizing σ with
  | nil => exact iff_of_true (fun n => by rw [List.take_nil]; exact hfirst) trivial
  | cons st steps ih =>
    rw [Along]
    constructor
    · intro hall
      have hst : st.Attended σ := by
        by_contra hno
        exact hall 1 (stuck_exec hno)
      exact ⟨hst, (ih _ (not_stuck_exec hfirst hst)).1 fun n => hall (n + 1)⟩
    · rintro ⟨hst, halong⟩ n
      cases n with
      | zero => exact hfirst
      | succ n => exact (ih _ (not_stuck_exec hfirst hst)).2 halong n

/-- Nobody has submitted anything yet. -/
def quiet (present paused : Bool) : Submits :=
  { callers := [], loop := .idle, locked := false, present, paused }

/-- The second of two callers tries the lock when the first has found the channel empty and has not released the
lock. -/
def lateSend : List SubmitStep :=
  [.arrive, .arrive, .tryLock 0, .empty (some 0), .tryLock 1, .unlock (some 0), .send 1]

/-- The first caller returns, and the run loop drains the message of the second. -/
def loopDrains : List SubmitStep :=
  [.respond (some 0), .poll, .lock, .receive none 1, .empty none, .unlock none, .respond none]

theorem lateSend_drained :
    (∀ n, ¬ (((lateSend ++ loopDrains).take n).foldl SubmitStep.exec (quiet true false)).Stuck) ∧
    ((lateSend ++ loopDrains).foldl SubmitStep.exec (quiet true false)).callers = [.drain .idle, .drain .idle] := by
  refine ⟨(never_stuck_iff _ ⟨rfl, rfl, rfl⟩ _).2 ?_, by decide⟩
  refine ⟨trivial, trivial, trivial, trivial, trivial, trivial, ?_, trivial, trivial, trivial, trivial,
    trivial, trivial, trivial, trivial⟩
  exact fun _ => .inr ⟨rfl, rfl⟩

/-- While the scheduler is paused nobody finds it. -/
theorem lateSend_stuck : ¬ ∀ (σ : Submits) (steps : List SubmitStep) (n : Nat), σ.Fresh →
    ¬ ((steps.take n).foldl SubmitStep.exec σ).Stuck := by
  intro h
  refine h (quiet true true) lateSend 7 ⟨rfl, rfl, rfl⟩ ⟨by decide, ?_⟩
  rintro ((h | ⟨_, h⟩ | h | h) | ⟨_, h⟩)
  · exact absurd h (by decide)
  · exact absurd h (by decide)
  · exact absurd h (by decide)
  · exact absurd h (by decide)
  · exact absurd h (by decide)

end Taskmill
