import Taskmill.Apportion.Pour

/-!
# Dealing out a surplus

A surplus is dealt out in two turns: first it is poured into the first few vessels that have room, then every vessel
that still has room may get one more, in any order, as long as something is left.  All of it is dealt out, or every
vessel filled, if the first turn reaches all vessels (`Dealt.sum_eq`); and what a vessel gets does not depend on its
place if each of them can have what it would get alone (`Dealt.eq_map_min`).
-/

namespace Apportion

theorem sum_zipWith_add {l l' : List Nat} (h : l.length = l'.length) :
    (List.zipWith (· + ·) l l').sum = l.sum + l'.sum :=
  (List.sum_add_sum_eq_sum_zipWith_of_length_eq l l' h).symm

theorem sum_zipWith_sub {l l' : List Nat} (h : List.Forall₂ (· ≤ ·) l' l) :
    (List.zipWith (· - ·) l l').sum = l.sum - l'.sum := by
  induction h with
  | nil => rfl
  | cons hle rest ih =>
    have hsum := List.Forall₂.sum_le_sum rest
    simp only [List.zipWith_cons_cons, List.sum_cons, ih]
    omega

/-- What the first turn gives. -/
def firstTurn (rounds surplus : Nat) (rooms : List Nat) : List Nat := pour surplus (firstVessels rounds rooms)

/-- What the first turn leaves open. -/
def openRooms (rounds surplus : Nat) (rooms : List Nat) : List Nat :=
  List.zipWith (· - ·) rooms (firstTurn rounds surplus rooms)

theorem sum_map_min_one (sizes : List Nat) : (sizes.map (min 1)).sum = sizes.countP (0 < ·) := by
  induction sizes with
  | nil => rfl
  | cons size sizes ih =>
    rw [List.map_cons, List.sum_cons, ih, List.countP_cons]
    cases size with
    | zero => simp
    | succ size => simp [Nat.add_comm]

/-- What both turns give. -/
def Dealt (rounds surplus : Nat) (rooms dealt : List Nat) : Prop :=
  ∃ bumps, dealt = List.zipWith (· + ·) (firstTurn rounds surplus rooms) bumps ∧
    List.Forall₂ (fun bump room => bump ≤ min 1 room) bumps (openRooms rounds surplus rooms) ∧
    bumps.sum = min (surplus - (firstTurn rounds surplus rooms).sum)
      ((openRooms rounds surplus rooms).map (min 1)).sum

variable {rounds surplus : Nat} {rooms dealt : List Nat}

section Turns

variable (rounds surplus : Nat) (rooms : List Nat)

theorem length_firstTurn : (firstTurn rounds surplus rooms).length = rooms.length := by
  rw [firstTurn, length_pour, length_firstVessels]

theorem sum_firstTurn : (firstTurn rounds surplus rooms).sum = min surplus (firstVessels rounds rooms).sum :=
  sum_pour ..

theorem firstTurn_le : List.Forall₂ (· ≤ ·) (firstTurn rounds surplus rooms) rooms := by
  have hfirst := firstVessels_le rounds rooms
  have hpour := pour_le surplus (firstVessels rounds rooms)
  rw [List.forall₂_iff_get] at hfirst hpour ⊢
  refine ⟨length_firstTurn .., fun i h h' => ?_⟩
  have hlen : i < (firstVessels rounds rooms).length := by rwa [length_firstVessels]
  have hle := hfirst.2 i hlen h'
  have hle' := hpour.2 i h hlen
  unfold firstTurn
  omega

theorem length_openRooms : (openRooms rounds surplus rooms).length = rooms.length := by
  rw [openRooms, List.length_zipWith, length_firstTurn, Nat.min_self]

theorem sum_openRooms : (openRooms rounds surplus rooms).sum = rooms.sum - (firstTurn rounds surplus rooms).sum :=
  sum_zipWith_sub (firstTurn_le ..)

end Turns

namespace Dealt

/-- No vessel gets more than it has room for. -/
theorem le_rooms (h : Dealt rounds surplus rooms dealt) : List.Forall₂ (· ≤ ·) dealt rooms := by
  obtain ⟨bumps, rfl, hbumps, -⟩ := h
  have hturn := firstTurn_le rounds surplus rooms
  unfold openRooms at hbumps
  generalize firstTurn rounds surplus rooms = turn at hturn hbumps
  induction hturn generalizing bumps with
  | nil => simp
  | cons hle rest ih =>
    cases hbumps with
    | cons hbump hbumps =>
      refine .cons ?_ (ih _ hbumps)
      dsimp only at hbump ⊢
      omega

theorem length (h : Dealt rounds surplus rooms dealt) : dealt.length = rooms.length := h.le_rooms.length_eq

theorem sum (h : Dealt rounds surplus rooms dealt) :
    dealt.sum = (firstTurn rounds surplus rooms).sum +
      min (surplus - (firstTurn rounds surplus rooms).sum) ((openRooms rounds surplus rooms).map (min 1)).sum := by
  obtain ⟨bumps, rfl, hbumps, hsum⟩ := h
  rw [sum_zipWith_add, hsum]
  rw [hbumps.length_eq, length_openRooms, length_firstTurn]

theorem sum_le (h : Dealt rounds surplus rooms dealt) : dealt.sum ≤ surplus := by
  have hturn : (firstTurn rounds surplus rooms).sum ≤ surplus := by
    rw [sum_firstTurn]
    exact Nat.min_le_left ..
  rw [h.sum]
  omega

private theorem sum_eq_iff_open (h : Dealt rounds surplus rooms dealt) :
    dealt.sum = min surplus rooms.sum ↔
      surplus - (firstVessels rounds rooms).sum ≤ ((openRooms rounds surplus rooms).map (min 1)).sum ∨
        ∀ room ∈ openRooms rounds surplus rooms, room ≤ 1 := by
  have hopen := sum_openRooms rounds surplus rooms
  have hturn := sum_firstTurn rounds surplus rooms
  have hle := (firstTurn_le rounds surplus rooms).sum_le_sum
  have hbumps := sum_map_min_le 1 (openRooms rounds surplus rooms)
  rw [h.sum]
  have hones : ((openRooms rounds surplus rooms).map (min 1)).sum = (openRooms rounds surplus rooms).sum ↔
      ∀ room ∈ openRooms rounds surplus rooms, room ≤ 1 := by
    constructor
    · intro heq room hroom
      have hforall : List.Forall₂ (· ≤ ·) ((openRooms rounds surplus rooms).map (min 1))
          (openRooms rounds surplus rooms) := by
        rw [List.forall₂_map_left_iff, List.forall₂_same]
        exact fun room _ => Nat.min_le_right 1 room
      have hmap := eq_of_forall₂_le hforall heq.ge
      have hone : min 1 room = id room := by
        refine List.map_inj_left.1 ?_ room hroom
        rw [hmap, List.map_id]
      rw [← hmap] at hroom
      obtain ⟨room', -, rfl⟩ := List.mem_map.1 hroom
      exact Nat.min_le_left ..
    · intro hall
      conv_rhs => rw [← List.map_id (openRooms rounds surplus rooms)]
      refine congrArg List.sum (List.map_congr_left fun room hroom => ?_)
      have hone := hall room hroom
      show min 1 room = room
      omega
  rw [← hones]
  omega

/-- Everything is dealt out, or all rooms are filled, if and only if what the first vessels leave over is no more
than one for each of the others, or these have no room for more than one. -/
theorem sum_eq_iff (h : Dealt rounds surplus rooms dealt) :
    dealt.sum = min surplus rooms.sum ↔
      surplus - (firstVessels rounds rooms).sum ≤ (laterVessels rounds rooms).countP (0 < ·) ∨
        ∀ room ∈ laterVessels rounds rooms, room ≤ 1 := by
  rw [h.sum_eq_iff_open, sum_map_min_one]
  rcases Nat.le_total (firstVessels rounds rooms).sum surplus with hle | hle
  · have hopen : openRooms rounds surplus rooms = laterVessels rounds rooms := by
      rw [openRooms, firstTurn, pour_of_sum_le hle]
      rfl
    rw [hopen]
  · have hnone : surplus - (firstVessels rounds rooms).sum = 0 := by omega
    rw [hnone]
    exact iff_of_true (.inl (Nat.zero_le _)) (.inl (Nat.zero_le _))

/-- The first turn reaches all vessels that have room. -/
theorem sum_eq (h : Dealt rounds surplus rooms dealt) (hrounds : rooms.countP (0 < ·) ≤ rounds) :
    dealt.sum = min surplus rooms.sum := by
  rw [h.sum_eq_iff_open, firstVessels_eq_self hrounds]
  have hopen := sum_openRooms rounds surplus rooms
  rw [sum_firstTurn, firstVessels_eq_self hrounds] at hopen
  rcases Nat.le_total surplus rooms.sum with hle | hle
  · left
    omega
  · right
    intro room hroom
    have hmem := List.le_sum_of_mem hroom
    omega

/-- Every vessel gets what it would get alone. -/
theorem eq_map_min (h : Dealt rounds surplus rooms dealt) (hsum : (rooms.map (min surplus)).sum ≤ surplus)
    (hrounds : surplus = 0 ∨ rooms.countP (0 < ·) ≤ rounds ∨ ∀ room ∈ rooms, room ≤ 1) :
    dealt = rooms.map (min surplus) := by
  have hle : List.Forall₂ (· ≤ ·) dealt (rooms.map (min surplus)) := by
    rw [List.forall₂_map_right_iff]
    have hrooms := h.le_rooms
    have hdealt := h.sum_le
    rw [List.forall₂_iff_get] at hrooms ⊢
    refine ⟨hrooms.1, fun i hi hi' => ?_⟩
    have hroom := hrooms.2 i hi hi'
    have hmem := List.le_sum_of_mem (List.get_mem dealt ⟨i, hi⟩)
    omega
  refine eq_of_forall₂_le hle ?_
  have hall : (rooms.map (min surplus)).sum ≤ min surplus rooms.sum := by
    have hsizes := sum_map_min_le surplus rooms
    omega
  rcases hrounds with rfl | hcount | hone
  · omega
  · rw [h.sum_eq hcount]
    exact hall
  · refine hall.trans (h.sum_eq_iff_open.2 (.inr fun room hroom => ?_)).ge
    unfold openRooms at hroom
    rw [List.mem_iff_getElem] at hroom
    obtain ⟨i, hi, rfl⟩ := hroom
    rw [List.getElem_zipWith]
    have hroom := hone _ (List.getElem_mem (l := rooms) (n := i) (by simp at hi; omega))
    omega

/-- The first vessel gets what it would get alone. -/
theorem head (h : Dealt (rounds + 1) surplus rooms dealt) {room : Nat} {rest : List Nat}
    (hrooms : rooms = room :: rest) :
    ∃ dealt', dealt = min surplus room :: dealt' := by
  subst hrooms
  obtain ⟨bumps, rfl, hbumps, hsum⟩ := h
  obtain ⟨turn, hturn⟩ : ∃ turn, firstTurn (rounds + 1) surplus (room :: rest) = min surplus room :: turn := by
    cases room with
    | zero => exact ⟨_, by rw [firstTurn, firstVessels, pour, Nat.min_zero]⟩
    | succ room => exact ⟨_, by rw [firstTurn, firstVessels, pour]⟩
  unfold openRooms at hbumps
  rw [hturn] at hbumps hsum ⊢
  cases hbumps with
  | cons hbump hrest =>
    rename_i bump bumps
    refine ⟨List.zipWith (· + ·) turn bumps, ?_⟩
    rw [List.zipWith_cons_cons]
    -- if the first vessel still has room then nothing is left
    have hzero : bump = 0 := by
      dsimp only at hbump
      simp only [List.sum_cons] at hsum
      omega
    rw [hzero, Nat.add_zero]

/-- A vessel that the first turn does not reach gets one at most. -/
theorem last {room : Nat} (h : Dealt rounds surplus (rooms ++ [room]) dealt)
    (hrounds : rounds ≤ rooms.countP (0 < ·)) :
    ∃ dealt' bump, dealt = dealt' ++ [bump] ∧ bump ≤ 1 := by
  obtain ⟨bumps, rfl, hbumps, -⟩ := h
  have hnone : rounds - rooms.countP (0 < ·) = 0 := by omega
  have hturn : firstTurn rounds surplus (rooms ++ [room]) = firstTurn rounds surplus rooms ++ [0] := by
    rw [firstTurn, firstVessels_append, hnone, firstVessels_zero, pour_append, List.length_singleton, pour_replicate]
    rfl
  have hlen : bumps.length = rooms.length + 1 := by
    rw [hbumps.length_eq, length_openRooms, List.length_append, List.length_singleton]
  obtain ⟨bumps', bump, rfl⟩ : ∃ bumps' bump, bumps = bumps' ++ [bump] := by
    rcases List.eq_nil_or_concat bumps with rfl | ⟨bumps', bump, hbump⟩
    · simp at hlen
    · exact ⟨bumps', bump, by simpa using hbump⟩
  have hlen' : (firstTurn rounds surplus rooms).length = bumps'.length := by
    rw [length_firstTurn]
    simpa using hlen.symm
  refine ⟨List.zipWith (· + ·) (firstTurn rounds surplus rooms) bumps', bump, ?_, ?_⟩
  · rw [hturn, List.zipWith_append hlen']
    simp
  · have hone : ∀ bump' ∈ bumps' ++ [bump], bump' ≤ 1 := by
      rw [List.forall₂_iff_get] at hbumps
      intro bump' hmem
      obtain ⟨i, hi, rfl⟩ := List.mem_iff_getElem.1 hmem
      exact (hbumps.2 i hi (by rwa [← hbumps.1])).trans (Nat.min_le_left ..)
    exact hone bump (by simp)

end Dealt

end Apportion
