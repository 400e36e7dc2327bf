import ByteAsm.Line
import ByteAsm.Text.UpperCase

namespace ByteAsm

namespace Byte

variable {c x : UInt8}

theorem isLetter_iff :
    isLetter c ↔ (65 ≤ c.toNat ∧ c.toNat ≤ 90) ∨ (97 ≤ c.toNat ∧ c.toNat ≤ 122) := by
  simp [isLetter, UInt8.le_iff_toNat_le, Char.toUInt8]

theorem isDigit_iff : isDigit c ↔ 48 ≤ c.toNat ∧ c.toNat ≤ 57 := by
  simp [isDigit, UInt8.le_iff_toNat_le, Char.toUInt8]

theorem isAscii_iff : isAscii c ↔ c.toNat < 128 := by
  simp [isAscii, UInt8.lt_iff_toNat_lt]

theorem toNat_upper :
    (upper c).toNat = if 97 ≤ c.toNat ∧ c.toNat ≤ 122 then c.toNat - 32 else c.toNat := by
  simp only [upper, Bool.and_eq_true, decide_eq_true_eq, UInt8.le_iff_toNat_le]
  split
  case isTrue h =>
    have hc : (32 : UInt8) ≤ c := by
      have hc : 97 ≤ c.toNat := h.left
      exact UInt8.le_iff_toNat_le.mpr (by simp; omega)
    rw [UInt8.toNat_sub_of_le _ _ hc]
    exact (if_pos h).symm
  case isFalse h => exact (if_neg h).symm

theorem upper_upper (c : UInt8) : upper (upper c) = upper c := by
  rw [← UInt8.toNat_inj, toNat_upper, toNat_upper]
  grind

theorem isAscii_upper (h : isAscii c) : isAscii (upper c) := by
  rw [isAscii_iff] at h ⊢
  rw [toNat_upper]
  grind

theorem isLetter_upper : isLetter (upper c) = isLetter c := by
  rw [Bool.eq_iff_iff, isLetter_iff, isLetter_iff, toNat_upper]
  grind

-- Only letters have a case.
theorem upper_eq_iff (hx : ¬isLetter x) : upper c = x ↔ c = x := by
  rw [isLetter_iff] at hx
  rw [←UInt8.toNat_inj, ←UInt8.toNat_inj, toNat_upper]
  grind

theorem isWord_upper : isWord (upper c) = isWord c := by
  have hu : upper c = '_'.toUInt8 ↔ c = '_'.toUInt8 := upper_eq_iff (by decide)
  rw [Bool.eq_iff_iff]
  simp only [isWord, isLetter_upper, Bool.or_eq_true, isDigit_iff, toNat_upper, beq_iff_eq, hu]
  rw [isLetter_iff]
  grind

theorem isWord_of_isLetter (h : isLetter c) : isWord c := by
  simp [isWord, h]

theorem isWord_of_isDigit (h : isDigit c) : isWord c := by
  simp [isWord, h]

theorem isAscii_of_isLetter (h : isLetter c) : isAscii c := by
  rw [isLetter_iff] at h
  rw [isAscii_iff]
  omega

theorem isAscii_of_isDigit (h : isDigit c) : isAscii c := by
  rw [isDigit_iff] at h
  rw [isAscii_iff]
  omega

theorem isAscii_of_isWord (h : isWord c) : isAscii c := by
  simp only [isWord, Bool.or_eq_true, beq_iff_eq] at h
  rcases h with (h | h) | rfl
  case inl.inl => exact isAscii_of_isLetter h
  case inl.inr => exact isAscii_of_isDigit h
  case inr => rfl

theorem not_isLetter_of_isDigit (h : isDigit c) : ¬isLetter c := by
  rw [isDigit_iff] at h
  rw [isLetter_iff]
  omega

theorem upper_of_isDigit (h : isDigit c) : upper c = c := by
  rw [isDigit_iff] at h
  rw [← UInt8.toNat_inj, toNat_upper]
  grind

theorem not_isWord_of_isBlank (h : isBlank c) : ¬isWord c := by
  simp only [isBlank, Bool.or_eq_true, beq_iff_eq] at h
  cases h <;> subst c <;> decide

-- A byte of some class is none of the bytes outside of the class.
theorem ne_of_holds {p : UInt8 → Bool} (h : p c) (hx : p x = false) : c ≠ x := by
  intro he
  rw [he, hx] at h
  exact Bool.false_ne_true h

end Byte

namespace Word

variable {c : UInt8}

theorem startsLabel_of_isLetter (h : Byte.isLetter c) : startsLabel c := by
  simp [startsLabel, h]

theorem isWord_of_startsLabel (h : startsLabel c) (hd : c ≠ '.'.toUInt8) : Byte.isWord c := by
  simp only [startsLabel, Bool.or_eq_true, beq_iff_eq] at h
  exact Byte.isWord_of_isLetter (h.resolve_left hd)

theorem isAscii_of_startsLabel (h : startsLabel c) : Byte.isAscii c := by
  simp only [startsLabel, Bool.or_eq_true, beq_iff_eq] at h
  rcases h with rfl | h
  case inl => rfl
  case inr => exact Byte.isAscii_of_isLetter h

theorem startsLabel_upper : startsLabel (Byte.upper c) = startsLabel c := by
  have hu : Byte.upper c = '.'.toUInt8 ↔ c = '.'.toUInt8 := Byte.upper_eq_iff (by decide)
  rw [Bool.eq_iff_iff]
  simp only [startsLabel, Byte.isLetter_upper, Bool.or_eq_true, beq_iff_eq, hu]

theorem isLabel_map_upper (t : Text) : isLabel (t.map Byte.upper) = isLabel t := by
  cases t
  case nil => rfl
  case cons c t =>
    simp only [List.map_cons, isLabel, startsLabel_upper, List.all_map, Function.comp_def,
      Byte.isWord_upper]

variable {name : Text}

theorem isAscii_of_isLabel (h : isLabel name) : name.isAscii := by
  cases name
  case nil => rfl
  case cons c name =>
    simp only [isLabel, Bool.and_eq_true, List.all_eq_true] at h
    refine List.all_eq_true.mpr (List.forall_mem_cons.mpr ⟨isAscii_of_startsLabel h.left, ?_⟩)
    exact fun b hb => Byte.isAscii_of_isWord (h.right b hb)

theorem not_mem_of_isLabel (h : isLabel name) (hs : ¬startsLabel c) (hw : ¬Byte.isWord c) :
    c ∉ name := by
  cases name
  case nil => exact List.not_mem_nil
  case cons b name =>
    simp only [isLabel, Bool.and_eq_true, List.all_eq_true] at h
    intro hm
    cases List.mem_cons.mp hm
    case inl he => exact hs (he ▸ h.left)
    case inr hm => exact hw (h.right c hm)

end Word

namespace Text

variable {t : Text}

theorem upper_of_isAscii (h : t.isAscii) : t.upper = t.map Byte.upper :=
  if_pos h

theorem isAscii_map_upper (h : t.isAscii) : isAscii (t.map Byte.upper) := by
  simp only [isAscii, List.all_eq_true, List.forall_mem_map] at h ⊢
  exact fun c hc => Byte.isAscii_upper (h c hc)

theorem upper_upper (h : t.isAscii) : t.upper.upper = t.upper := by
  rw [upper_of_isAscii h, upper_of_isAscii (isAscii_map_upper h), List.map_map]
  exact List.map_congr_left fun c _ => Byte.upper_upper c

end Text

end ByteAsm
