import ByteAsm.Proofs.Identifiers
import ByteAsm.Proofs.Offsets
import ByteAsm.Proofs.Quotes

namespace ByteAsm

open Abstract (Integer Referable Sign)

namespace Text

variable {t w : Text}

theorem chars_of_isAscii (h : t.isAscii) : t.chars = t.map Char.ofUInt8 := by
  have hc := chars_ofChars (t.map Char.ofUInt8)
  rwa [ofChars_map_ofUInt8 h] at hc

theorem upperChar_ofUInt8 {b : UInt8} (h : Byte.isAscii b) :
    upperChar (Char.ofUInt8 b) = Char.ofUInt8 (Byte.upper b) := by
  have hb : (Char.ofUInt8 b).toNat < 128 := Byte.isAscii_iff.mp h
  have hc : (Char.ofUInt8 b).toUInt8 = b := ofNat_toNat_ofUInt8 b
  rw [upperChar, if_pos hb, hc]
  exact Char.ofNat_toNat (Char.ofUInt8 (Byte.upper b))

-- In ASCII the characters are the bytes, so the rule for other texts holds there as well.
theorem upper_eq_ofChars (t : Text) : t.upper = ofChars (t.chars.map upperChar) := by
  by_cases h : t.isAscii
  case neg => exact if_neg h
  case pos =>
    have hm : (t.map Char.ofUInt8).map upperChar = (t.map Byte.upper).map Char.ofUInt8 := by
      rw [List.map_map, List.map_map]
      exact List.map_congr_left fun b hb => upperChar_ofUInt8 (List.all_eq_true.mp h b hb)
    rw [upper_of_isAscii h, chars_of_isAscii h, hm, ofChars_map_ofUInt8 (isAscii_map_upper h)]

-- A text whose upper case is ASCII has no stray byte at its end that could go on behind it.
theorem upper_append (h : w.upper.isAscii) (t : Text) : (w ++ t).upper = w.upper ++ t.upper := by
  have hr : replacement ∉ w.chars := by
    intro hm
    have hu : upperChar replacement = replacement := by decide +kernel
    have hb : (0xEF : UInt8) ∈ w.upper := by
      rw [upper_eq_ofChars]
      refine List.mem_flatMap.mpr ⟨replacement, hu ▸ List.mem_map_of_mem hm, by decide⟩
    exact absurd (List.all_eq_true.mp h _ hb) (by decide)
  have hc : (w ++ t).chars = w.chars ++ t.chars := by
    nth_rewrite 1 [(decodes_chars w).eq_ofChars hr]
    exact chars_ofChars_append w.chars t
  rw [upper_eq_ofChars, upper_eq_ofChars w, upper_eq_ofChars t, hc, List.map_append]
  exact List.flatMap_append

-- Signs and digits have no case.
theorem upper_of_isNumeric (h : ∀ c ∈ t, Word.isNumeric c) : t.upper = t := by
  have hc : ∀ c ∈ t, Byte.isAscii c ∧ Byte.upper c = c := by
    intro c hc
    have hn := h c hc
    simp only [Word.isNumeric, Bool.or_eq_true, beq_iff_eq] at hn
    rcases hn with (hd | rfl) | rfl
    case inl.inl => exact ⟨Byte.isAscii_of_isDigit hd, Byte.upper_of_isDigit hd⟩
    case inl.inr => decide
    case inr => decide
  have ha : t.isAscii := List.all_eq_true.mpr fun c hm => (hc c hm).left
  rw [upper_of_isAscii ha]
  exact (List.map_congr_left fun c hm => (hc c hm).right).trans (List.map_id t)

-- A text in brackets.
def inBrackets (t : Text) : Text :=
  '['.toUInt8 :: (t ++ [']'.toUInt8])

end Text

open Text (inBrackets inQuotes)

namespace Register

variable {w : Text} {r : Register}

theorem isAscii_name (r : Register) : r.name.isAscii :=
  List.all_eq_true.mpr fun c hc => Byte.isAscii_of_isLetter (r.isLetter_name c hc)

theorem upper_of_ofWord? (h : ofWord? w = some r) : w.upper = r.name := by
  unfold ofWord? at h
  have hf := List.find?_some h
  exact (eq_of_beq hf).symm

end Register

namespace Word

variable {word rest : Text} {r : Register} {o : Int}

-- A sign is part of no register and of no label.
theorem ofWord?_of_sign {s : Sign} (h : word.upper = r.name ++ s.byte :: rest) :
    Register.ofWord? word = none := by
  refine Register.ofWord?_eq_none fun r' he => ?_
  have hm : s.byte ∈ r'.name := he ▸ h ▸ List.mem_append_right _ List.mem_cons_self
  have hl := r'.isLetter_name _ hm
  cases s <;> exact absurd hl (by decide)

theorem not_isLabel_of_sign {s : Sign} (h : word.upper = r.name ++ s.byte :: rest) :
    ¬isLabel word := by
  intro hl
  rw [Text.upper_of_isAscii (isAscii_of_isLabel hl)] at h
  rw [←isLabel_map_upper, h] at hl
  refine not_mem_of_isLabel (c := s.byte) hl ?_ ?_ (List.mem_append_right _ List.mem_cons_self)
  all_goals cases s <;> decide

theorem Holds.base_le {e : UInt8} (h : Holds e r o) : e % 8 ≤ 4 := by
  have hid : r.id.toNat ≤ 4 := by cases r <;> decide
  rw [UInt8.le_iff_toNat_le, UInt8.toNat_mod]
  exact h.register ▸ hid

-- However the register is spelled, a sign and a number behind it displace it.
theorem displaces_append {w : Text} (h : w.upper = r.name) (s : Sign) (n : Integer 10) :
    Displaces (w ++ s.byte :: n.text).upper r (s.apply n.value) := by
  have hn : ∀ c ∈ s.byte :: n.text, isNumeric c :=
    List.forall_mem_cons.mpr ⟨s.isNumeric_byte, n.isNumeric_text (by decide)⟩
  rw [Text.upper_append (h ▸ r.isAscii_name), h, Text.upper_of_isNumeric hn]
  exact .mk r s n

end Word

namespace Operand

variable {raw word w : Text} {r : Register} {o : Int} {op : Operand}

theorem ofAddress_of_displaces (h : Word.Displaces word.upper r o) : ofAddress word =
    if -16 ≤ o ∧ o ≤ 15 then .ok { kind := .regaddress, value := Word.encodeOffset o r }
    else .error .offsetRange := by
  have ho := h.offset?_eq
  generalize ht : word.upper = t at h
  cases h
  case mk s n =>
    simp only [ofAddress, Word.ofWord?_of_sign ht, if_neg (Word.not_isLabel_of_sign ht), ho]
    by_cases hr : -16 ≤ s.apply n.value ∧ s.apply n.value ≤ 15
    case pos => simp only [if_pos hr]
    case neg => simp only [if_neg hr]

theorem ofAddress_of_register (h : w.upper = r.name) :
    ofAddress w = .ok { kind := .regaddress, value := r.id } := by
  rw [ofAddress, Register.ofWord?_of_upper h]

theorem encodeOffset_zero (r : Register) : Word.encodeOffset 0 r = r.id := by
  cases r <;> rfl

-- The text of an operand and what it is classified as. A word outside of brackets does not start
-- with one.
inductive Form : Text → Operand → Prop
  | absent : Form [] absent
  | register {w : Text} {r : Register} : w ≠ [] → w.head? ≠ some '['.toUInt8 →
    w.upper = r.name → Form w { kind := .register, value := r.id }
  | label {w : Text} : w ≠ [] → w.head? ≠ some '['.toUInt8 → Referable w →
    Form w { kind := .number, label := some w }
  | number {w : Text} {v : UInt8} : w ≠ [] → w.head? ≠ some '['.toUInt8 →
    Form w { kind := .number, value := v }
  | indirect {w : Text} {r : Register} : w.upper = r.name →
    Form (inBrackets w) { kind := .regaddress, value := r.id }
  | displaced {w : Text} {r : Register} {o : Int} {e : UInt8} : Word.Displaces w.upper r o →
    Word.Holds e r o → Form (inBrackets w) { kind := .regaddress, value := e }
  | reference {w : Text} : Referable w →
    Form (inBrackets w) { kind := .address, label := some w }
  | address {w : Text} {v : UInt8} : Form (inBrackets w) { kind := .address, value := v }
  | string {w : Text} {bs : List UInt8} : bs ≠ [] →
    Form (inQuotes '"' w) { kind := .numbers, values := bs }

theorem form_of_ofNumber (hn : w ≠ []) (hb : w.head? ≠ some '['.toUInt8)
    (h : ofNumber .number w = .ok op) : Form w op := by
  unfold ofNumber at h
  split at h <;> try contradiction
  split at h <;> cases h
  exact .number hn hb

theorem form_of_ofWord (hn : w ≠ []) (hb : w.head? ≠ some '['.toUInt8)
    (h : ofWord w = .ok op) : Form w op := by
  unfold ofWord at h
  split at h
  case h_1 hr =>
    cases h
    exact .register hn hb (Register.upper_of_ofWord? hr)
  case h_2 hr =>
    split at h
    case isTrue hl =>
      cases h
      exact .label hn hb (referable_iff.mpr ⟨hl, hr⟩)
    case isFalse => exact form_of_ofNumber hn hb h

theorem form_of_ofAddress (h : ofAddress w = .ok op) : Form (inBrackets w) op := by
  unfold ofAddress at h
  split at h
  case h_1 hr =>
    cases h
    exact .indirect (Register.upper_of_ofWord? hr)
  case h_2 hr =>
    split at h
    case isTrue hl =>
      cases h
      exact .reference (referable_iff.mpr ⟨hl, hr⟩)
    case isFalse =>
      split at h <;> try contradiction
      case h_1 ho =>
        cases h
        obtain ⟨r, o, hd, _, _, he⟩ := Word.offset?_eq_ok_iff.mp ho
        exact .displaced hd he
      case h_3 =>
        unfold ofNumber at h
        split at h <;> try contradiction
        split at h <;> cases h
        exact .address

theorem form_of_classify (h : classify raw = .ok op) : Form raw op := by
  cases classified h
  case absent => exact .absent
  case address h => exact form_of_ofAddress h
  case string hn h =>
    have hu := Text.units_ne_nil hn
    unfold ofString unitBytes at h
    split at h <;> cases h
    exact .string (by simpa using hu)
  case character h =>
    unfold ofCharacter at h
    split at h <;> try contradiction
    split at h <;> cases h
    exact .number (List.cons_ne_nil _ _) (by rw [List.head?_cons]; decide)
  case word hn hw =>
    cases raw
    case nil => contradiction
    case cons c rest =>
      by_cases hc : c = '['.toUInt8
      case neg => exact form_of_ofWord hn (by simpa using hc) hw
      case pos =>
        rw [hc, classify, if_pos (beq_self_eq_true _)] at h
        obtain ⟨w, _, rfl, ha⟩ := inside_bind_eq_ok h
        exact hc ▸ form_of_ofAddress ha

-- What later stages rely on: the kind follows from the text, registers are registers, and a label
-- stands alone.
structure WellFormed (raw : Text) (op : Operand) : Prop where
  none      : op.kind = .none ↔ raw = []
  register  : op.kind = .register → op.value ≤ 4
  base      : op.kind = .regaddress → op.value % 8 ≤ 4
  label     : ∀ name ∈ op.label, Referable name ∧ op.value = 0 ∧
    (op.kind = .number ∧ raw = name ∨ op.kind = .address ∧ raw = inBrackets name)
  values    : op.values ≠ [] ↔ op.kind = .numbers
  bracketed : op.kind = .address ∨ op.kind = .regaddress ↔ raw.head? = some '['.toUInt8

theorem classify_indirect (h : w.upper = r.name) :
    classify (inBrackets w) = .ok { kind := .regaddress, value := r.id } := by
  have hn : w ≠ [] := by
    rintro rfl
    cases r <;> contradiction
  rw [inBrackets, classify_bracketed hn, ofAddress_of_register h]

theorem wellFormed_of_classify (h : classify raw = .ok op) : WellFormed raw op where
  none      := by
    cases form_of_classify h <;> simp_all [absent, inBrackets, inQuotes]
  register  := by
    cases form_of_classify h <;> simp [absent]
    case register r _ _ _ => cases r <;> decide
  base      := by
    cases form_of_classify h <;> simp [absent]
    case indirect r _ => cases r <;> decide
    case displaced hb => exact hb.base_le
  label     := by
    cases form_of_classify h <;> simp [absent]
    all_goals assumption
  values    := by
    cases form_of_classify h <;> simp_all [absent]
  bracketed := by
    cases form_of_classify h <;> simp_all [absent, inBrackets, inQuotes]
    decide

theorem classify_displaced (h : w.upper = r.name) (s : Sign) (n : Integer 10) :
    classify (inBrackets (w ++ s.byte :: n.text)) =
      if -16 ≤ s.apply n.value ∧ s.apply n.value ≤ 15 then
        .ok { kind := .regaddress, value := Word.encodeOffset (s.apply n.value) r }
      else .error .offsetRange := by
  rw [inBrackets, classify_bracketed (by simp),
    ofAddress_of_displaces (Word.displaces_append h s n)]

-- The offset nought, however it is written, makes no difference to a register in brackets.
theorem classify_displaced_zero (h : w.upper = r.name) (s : Sign) {n : Integer 10}
    (hn : n.value = 0) :
    classify (inBrackets (w ++ s.byte :: n.text)) = classify (inBrackets w) := by
  have ho : s.apply n.value = 0 := by
    rw [hn]
    cases s <;> rfl
  rw [classify_displaced h, ho, classify_indirect h, encodeOffset_zero]
  rfl

-- A register in brackets is its own address, whatever its case and whether it has the offset
-- nought or none.
theorem classify_wellFormed :
    (∀ raw op, classify raw = .ok op → WellFormed raw op) ∧
    ∀ (w : Text) (r : Register), w.upper = r.name →
      classify (inBrackets w) = .ok { kind := .regaddress, value := r.id } ∧
      ∀ (s : Sign) (n : Integer 10), n.value = 0 →
        classify (inBrackets (w ++ s.byte :: n.text)) = classify (inBrackets w) := by
  refine ⟨fun _ _ => wellFormed_of_classify, fun w r h => ⟨classify_indirect h, fun s n hn => ?_⟩⟩
  exact classify_displaced_zero h s hn

-- A label whose name begins like a register with an offset, and a register whose first letter has
-- its upper case in ASCII, with an offset of two noughts.
theorem classify_wellFormed_of_brackets :
    let label := Text.ofString "SP_1"
    let register := Text.ofString "ſp"
    (∃ op, classify (inBrackets label) = .ok op ∧ WellFormed (inBrackets label) op ∧
      op.label = some label ∧ op.kind = .address) ∧
    classify (inBrackets (register ++ Text.ofString "-00")) =
      .ok { kind := .regaddress, value := 4 } := by
  intro label register
  obtain ⟨hwell, hregister⟩ := classify_wellFormed
  let zero : Abstract.Digit 10 := ⟨0, by decide, false⟩
  obtain ⟨hbare, hzero⟩ := hregister register .sp (by decide +kernel)
  have h : classify (inBrackets label) = .ok { kind := .address, label := some label } := rfl
  refine ⟨⟨_, h, hwell _ _ h, rfl, rfl⟩, ?_⟩
  exact (hzero .minus ⟨none, [zero, zero], by simp⟩ rfl).trans hbare

end Operand

end ByteAsm
