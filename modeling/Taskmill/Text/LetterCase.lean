import Mathlib

/-!
# The case of ASCII letters

Texts are compared up to the case of ASCII letters by comparing them in lower case.  A text without letters is
compared exactly, and a text with letters differs from its copy in the other case, which is as long in UTF-8.
-/

namespace Text

variable {c x : Char} {p text : List Char}

/-! ### Letters -/

theorem isUpper_iff : c.isUpper = true ↔ 65 ≤ c.toNat ∧ c.toNat ≤ 90 := by
  simp only [Char.isUpper, decide_eq_true_eq, ge_iff_le, UInt32.le_iff_toNat_le]
  rfl

theorem isLower_iff : c.isLower = true ↔ 97 ≤ c.toNat ∧ c.toNat ≤ 122 := by
  simp only [Char.isLower, Bool.and_eq_true, decide_eq_true_eq, ge_iff_le, UInt32.le_iff_toNat_le]
  rfl

theorem isAlpha_iff : c.isAlpha = true ↔ c.isUpper = true ∨ c.isLower = true := Bool.or_eq_true _ _ ▸ Iff.rfl

theorem toNat_toLower (c : Char) : c.toLower.toNat = if c.isUpper then c.toNat + 32 else c.toNat := by
  by_cases h : c.isUpper = true
  · have hrange := isUpper_iff.1 h
    rw [if_pos h, Char.toLower]
    simp only [Char.isUpper, decide_eq_true_eq] at h
    rw [dif_pos h]
    show (c.val + _).toNat = c.val.toNat + 32
    rw [UInt32.toNat_add]
    have hle : c.val.toNat ≤ 90 := hrange.2
    show (c.val.toNat + 32) % _ = c.val.toNat + 32
    omega
  · rw [if_neg h, Char.toLower]
    simp only [Char.isUpper, decide_eq_true_eq] at h
    rw [dif_neg h]

theorem toNat_toUpper (c : Char) : c.toUpper.toNat = if c.isLower then c.toNat - 32 else c.toNat := by
  by_cases h : c.isLower = true
  · have hrange := isLower_iff.1 h
    rw [if_pos h, Char.toUpper]
    simp only [Char.isLower, Bool.and_eq_true, decide_eq_true_eq] at h
    rw [dif_pos h]
    show (c.val + ('A'.val - 'a'.val)).toNat = c.val.toNat - 32
    rw [UInt32.toNat_add]
    have hle : 97 ≤ c.val.toNat ∧ c.val.toNat ≤ 122 := hrange
    show (c.val.toNat + 4294967264) % 4294967296 = c.val.toNat - 32
    omega
  · rw [if_neg h, Char.toUpper]
    simp only [Char.isLower, Bool.and_eq_true, decide_eq_true_eq] at h
    rw [dif_neg h]

/-- The letter in the other case; what is not a letter stays. -/
def otherCase (c : Char) : Char := if c.isUpper then c.toLower else c.toUpper

theorem toLower_otherCase (c : Char) : (otherCase c).toLower = c.toLower := by
  refine Char.toNat_inj.1 ?_
  by_cases hu : c.isUpper = true
  · have hrange := isUpper_iff.1 hu
    have hlow : c.toLower.toNat = c.toNat + 32 := by rw [toNat_toLower, if_pos hu]
    have hnot : ¬ c.toLower.isUpper = true := by
      rw [isUpper_iff]
      omega
    rw [otherCase, if_pos hu, toNat_toLower c.toLower, if_neg hnot]
  · rw [otherCase, if_neg hu]
    by_cases hl : c.isLower = true
    · have hrange := isLower_iff.1 hl
      have hup : c.toUpper.toNat = c.toNat - 32 := by rw [toNat_toUpper, if_pos hl]
      have hyes : c.toUpper.isUpper = true := by
        rw [isUpper_iff]
        omega
      rw [toNat_toLower, if_pos hyes, toNat_toLower, if_neg hu]
      omega
    · have hsame : c.toUpper = c := Char.toNat_inj.1 (by rw [toNat_toUpper, if_neg hl])
      rw [hsame]

theorem otherCase_eq_self : otherCase c = c ↔ c.isAlpha = false := by
  rw [← Char.toNat_inj, ← Bool.not_eq_true, isAlpha_iff, isUpper_iff, isLower_iff, otherCase]
  split
  · rename_i hu
    rw [toNat_toLower, if_pos hu]
    have hrange := isUpper_iff.1 hu
    omega
  · rename_i hu
    rw [toNat_toUpper]
    rw [isUpper_iff] at hu
    split
    · rename_i hl
      have hrange := isLower_iff.1 hl
      omega
    · rename_i hl
      rw [isLower_iff] at hl
      omega

/-- What is not a letter has no other form. -/
theorem toLower_eq_toLower_iff (h : x.isAlpha = false) : x.toLower = c.toLower ↔ x = c := by
  rw [← Bool.not_eq_true, isAlpha_iff, not_or] at h
  refine ⟨fun heq => Char.toNat_inj.1 ?_, fun heq => heq ▸ rfl⟩
  have hnat := congrArg Char.toNat heq
  rw [toNat_toLower, if_neg h.1, toNat_toLower] at hnat
  rw [isUpper_iff, isLower_iff] at h
  split at hnat
  · rename_i hu
    have hrange := isUpper_iff.1 hu
    omega
  · exact hnat

/-! ### Length -/

theorem utf8Size_eq_one (h : c.isAlpha = true) : c.utf8Size = 1 := by
  rw [isAlpha_iff, isUpper_iff, isLower_iff] at h
  rw [Char.utf8Size_eq_one_iff, UInt32.le_iff_toNat_le]
  show c.toNat ≤ 127
  omega

theorem utf8Size_otherCase (c : Char) : (otherCase c).utf8Size = c.utf8Size := by
  cases h : c.isAlpha with
  | false => rw [otherCase_eq_self.2 h]
  | true =>
    have hother : (otherCase c).isAlpha = true := by
      rw [isAlpha_iff, isUpper_iff, isLower_iff] at h ⊢
      rw [otherCase]
      split
      · rename_i hu
        have hrange := isUpper_iff.1 hu
        rw [toNat_toLower, if_pos hu]
        omega
      · rename_i hu
        rw [isUpper_iff] at hu
        have hl : c.isLower = true := isLower_iff.2 (by omega)
        have hrange := isLower_iff.1 hl
        rw [toNat_toUpper, if_pos hl]
        omega
    rw [utf8Size_eq_one h, utf8Size_eq_one hother]

theorem utf8Size_toLower (c : Char) : c.toLower.utf8Size = c.utf8Size := by
  by_cases hu : c.isUpper = true
  · have hother : otherCase c = c.toLower := by rw [otherCase, if_pos hu]
    rw [← hother, utf8Size_otherCase]
  · have hsame : c.toLower = c := Char.toNat_inj.1 (by rw [toNat_toLower, if_neg hu])
    rw [hsame]

theorem utf8ByteSize_ofList (text : List Char) :
    (String.ofList text).utf8ByteSize = (text.map Char.utf8Size).sum := by
  induction text with
  | nil => rfl
  | cons c text ih =>
    rw [String.ofList_cons, String.utf8ByteSize_append, String.utf8ByteSize_singleton, ih,
      List.map_cons, List.sum_cons]

/-! ### Prefixes -/

/-- Without letters the comparison in lower case is exact. -/
theorem isPrefixOf_toLower (h : ∀ c ∈ p, c.isAlpha = false) :
    (p.map Char.toLower).isPrefixOf (text.map Char.toLower) = p.isPrefixOf text := by
  induction p generalizing text with
  | nil => rfl
  | cons x p ih =>
    rw [List.forall_mem_cons] at h
    cases text with
    | nil => rfl
    | cons c text =>
      have hhead : (x.toLower == c.toLower) = (x == c) := by
        rw [Bool.eq_iff_iff, beq_iff_eq, beq_iff_eq]
        exact toLower_eq_toLower_iff h.1
      rw [List.map_cons, List.map_cons, List.isPrefixOf_cons_cons, List.isPrefixOf_cons_cons, hhead, ih h.2]

/-- A text starts with its copy in the other case up to case. -/
theorem isPrefixOf_toLower_otherCase (p : List Char) :
    (p.map Char.toLower).isPrefixOf ((p.map otherCase).map Char.toLower) = true := by
  have hsame : (p.map otherCase).map Char.toLower = p.map Char.toLower := by
    rw [List.map_map]
    exact List.map_congr_left fun c _ => toLower_otherCase c
  exact List.isPrefixOf_iff_prefix.2 ⟨[], by rw [List.append_nil, hsame]⟩

/-- It does so exactly only without letters. -/
theorem isPrefixOf_otherCase : p.isPrefixOf (p.map otherCase) = true ↔ ∀ c ∈ p, c.isAlpha = false := by
  rw [List.isPrefixOf_iff_prefix]
  constructor
  · intro h c hc
    have heq : p = p.map otherCase := h.eq_of_length (by rw [List.length_map])
    have hall : p.map otherCase = p.map id := by rw [List.map_id, ← heq]
    exact otherCase_eq_self.1 (List.map_inj_left.1 hall c hc)
  · intro h
    have heq : p.map otherCase = p := by
      conv_rhs => rw [← List.map_id p]
      exact List.map_congr_left fun c hc => otherCase_eq_self.2 (h c hc)
    exact ⟨[], by rw [List.append_nil, heq]⟩

/-- A prefix up to case is no longer than the text. -/
theorem utf8_le_of_isPrefixOf_toLower (h : (p.map Char.toLower).isPrefixOf (text.map Char.toLower) = true) :
    (p.map Char.utf8Size).sum ≤ (text.map Char.utf8Size).sum := by
  have hsize : ∀ l : List Char, (l.map Char.utf8Size).sum = ((l.map Char.toLower).map Char.utf8Size).sum := by
    intro l
    rw [List.map_map]
    exact congrArg _ (List.map_congr_left fun c _ => (utf8Size_toLower c).symm)
  obtain ⟨rest, hrest⟩ := List.isPrefixOf_iff_prefix.1 h
  rw [hsize p, hsize text, ← hrest, List.map_append, List.sum_append]
  omega

end Text
