import ByteAsm.Proofs.Arguments

namespace ByteAsm

theorem Text.units_ne_nil {t : Text} (h : t ≠ []) : t.units ≠ [] := by
  have hc (c : Char) : codeUnits c ≠ [] := by
    unfold codeUnits
    split <;> simp
  cases t
  case nil => exact absurd rfl h
  case cons b t =>
    rw [units, chars, pieces, pieces.go, pieces_go_done]
    simp [hc]

namespace Operand

inductive Classified : Text → Operand → Prop
  | absent : Classified [] absent
  | address {w : Text} {op : Operand} : w ≠ [] → ofAddress w = .ok op →
    Classified ('['.toUInt8 :: (w ++ [']'.toUInt8])) op
  | string {w : Text} {op : Operand} : w ≠ [] → ofString w = .ok op →
    Classified ('"'.toUInt8 :: (w ++ ['"'.toUInt8])) op
  | character {w : Text} {op : Operand} : w ≠ [] → ofCharacter w = .ok op →
    Classified ('\''.toUInt8 :: (w ++ ['\''.toUInt8])) op
  | word {w : Text} {op : Operand} : w ≠ [] → ofWord w = .ok op → Classified w op

variable {raw word inner name : Text} {op : Operand} {kind : OperandKind}

theorem inside_eq_ok {close : UInt8} (h : inside close raw = .ok inner) :
    inner ≠ [] ∧ raw = inner ++ [close] := by
  unfold inside at h
  split at h <;> cases h
  case h_1 hd => exact ⟨List.cons_ne_nil _ _, Text.eq_of_dropEnd? hd⟩

theorem inside_bind_eq_ok {close : UInt8} {f : Text → Except Error Operand}
    (h : inside close raw >>= f = .ok op) :
    ∃ w, w ≠ [] ∧ raw = w ++ [close] ∧ f w = .ok op := by
  cases hi : inside close raw
  case error => simp [hi, bind, Except.bind] at h
  case ok w =>
    rw [hi] at h
    have ⟨hn, he⟩ := inside_eq_ok hi
    exact ⟨w, hn, he, h⟩

theorem classified (h : classify raw = .ok op) : Classified raw op := by
  unfold classify at h
  split at h
  case h_1 =>
    cases h
    exact .absent
  case h_2 c rest =>
    split at h
    case isTrue hc =>
      have ⟨w, hn, he, h⟩ := inside_bind_eq_ok h
      exact eq_of_beq hc ▸ he ▸ .address hn h
    case isFalse =>
      split at h
      case isTrue hc =>
        have ⟨w, hn, he, h⟩ := inside_bind_eq_ok h
        exact eq_of_beq hc ▸ he ▸ .string hn h
      case isFalse =>
        split at h
        case isTrue hc =>
          have ⟨w, hn, he, h⟩ := inside_bind_eq_ok h
          exact eq_of_beq hc ▸ he ▸ .character hn h
        case isFalse => exact .word (List.cons_ne_nil _ _) h

theorem referable_iff {w : Text} :
    Abstract.Referable w ↔ Word.isLabel w ∧ Register.ofWord? w = none := by
  constructor
  case mp => exact fun h => ⟨h.spelled, h.ofWord?_eq_none⟩
  case mpr =>
    intro ⟨hl, hn⟩
    refine ⟨hl, fun r hr => ?_⟩
    rw [←Text.upper_of_isAscii (Word.isAscii_of_isLabel hl)] at hr
    simp [Register.ofWord?_of_upper hr] at hn

theorem ofNumber_eq_ok (h : ofNumber kind word = .ok op) : op.kind = kind ∧ op.label = none := by
  unfold ofNumber at h
  split at h <;> try contradiction
  split at h <;> cases h
  exact ⟨rfl, rfl⟩

theorem ofWord_eq_ok (h : ofWord word = .ok op) : (op.kind = .register ∨ op.kind = .number) ∧
    ∀ name ∈ op.label, name = word ∧ Abstract.Referable name := by
  unfold ofWord at h
  split at h
  case h_1 =>
    cases h
    exact ⟨.inl rfl, nofun⟩
  case h_2 hr =>
    split at h
    case isTrue hl =>
      cases h
      refine ⟨.inr rfl, fun name hn => ?_⟩
      cases hn
      exact ⟨rfl, referable_iff.mpr ⟨hl, hr⟩⟩
    case isFalse =>
      have ⟨hk, hl⟩ := ofNumber_eq_ok h
      exact ⟨.inr hk, by simp [hl]⟩

theorem ofAddress_eq_ok (h : ofAddress word = .ok op) :
    (op.kind = .regaddress ∨ op.kind = .address) ∧
      ∀ name ∈ op.label, name = word ∧ Abstract.Referable name := by
  unfold ofAddress at h
  split at h
  case h_1 =>
    cases h
    exact ⟨.inl rfl, nofun⟩
  case h_2 hr =>
    split at h
    case isTrue hl =>
      cases h
      refine ⟨.inr rfl, fun name hn => ?_⟩
      cases hn
      exact ⟨rfl, referable_iff.mpr ⟨hl, hr⟩⟩
    case isFalse =>
      split at h <;> try contradiction
      case h_1 =>
        cases h
        exact ⟨.inl rfl, nofun⟩
      case h_3 =>
        have ⟨hk, hl⟩ := ofNumber_eq_ok h
        exact ⟨.inr hk, by simp [hl]⟩

theorem ofString_eq_ok (h : ofString inner = .ok op) :
    op.kind = .numbers ∧ op.label = none ∧ op.values = (Text.units inner).map UInt8.ofNat := by
  unfold ofString unitBytes at h
  split at h <;> cases h
  exact ⟨rfl, rfl, rfl⟩

theorem ofCharacter_eq_ok (h : ofCharacter inner = .ok op) :
    op.kind = .number ∧ op.label = none := by
  unfold ofCharacter at h
  split at h <;> try contradiction
  split at h <;> cases h
  exact ⟨rfl, rfl⟩

-- A string is never empty: there is at least a character between its quotes.
theorem values_ne_nil (h : classify raw = .ok op) (hk : op.kind = .numbers) : op.values ≠ [] := by
  cases classified h
  case absent => contradiction
  case address h => simpa [hk] using (ofAddress_eq_ok h).left
  case string hn h =>
    rw [(ofString_eq_ok h).right.right]
    simpa using Text.units_ne_nil hn
  case character h => simp [(ofCharacter_eq_ok h).left] at hk
  case word h => simpa [hk] using (ofWord_eq_ok h).left

-- Strings have no label.
theorem kind_of_label (h : classify raw = .ok op) (hl : op.label = some name) :
    op.kind ≠ .numbers := by
  cases classified h
  case absent => contradiction
  case address h => rcases (ofAddress_eq_ok h).left with hk | hk <;> simp [hk]
  case string h => simp [(ofString_eq_ok h).right.left] at hl
  case character h => simp [(ofCharacter_eq_ok h).left]
  case word h => rcases (ofWord_eq_ok h).left with hk | hk <;> simp [hk]

-- A label is the whole operand or all that its brackets hold.
theorem label_classify (h : classify raw = .ok op) (hl : op.label = some name) :
    Abstract.Referable name ∧
      (raw = name ∨ raw = '['.toUInt8 :: (name ++ [']'.toUInt8])) := by
  cases classified h
  case absent => contradiction
  case address h =>
    have ⟨he, hr⟩ := (ofAddress_eq_ok h).right name hl
    exact ⟨hr, .inr (he ▸ rfl)⟩
  case string h => simp [(ofString_eq_ok h).right.left] at hl
  case character h => simp [(ofCharacter_eq_ok h).right] at hl
  case word h =>
    have ⟨he, hr⟩ := (ofWord_eq_ok h).right name hl
    exact ⟨hr, .inl he.symm⟩

end Operand

end ByteAsm
