import ByteAsm.Operand.Classify
import ByteAsm.Proofs.Grammar
import ByteAsm.Proofs.Numbers

namespace ByteAsm

namespace Register

variable {word : Text} {r : Register}

theorem ofWord?_of_upper (h : word.upper = r.name) : ofWord? word = some r := by
  have hf : ∀ r : Register, all.find? (fun r' => r'.name == r.name) = some r := by
    intro r
    cases r <;> decide
  simp only [ofWord?, h, hf]

theorem ofWord?_eq_none (h : ∀ r : Register, word.upper ≠ r.name) : ofWord? word = none := by
  refine List.find?_eq_none.mpr fun r _ hr => ?_
  exact h r (eq_of_beq hr).symm

theorem isLetter_name (r : Register) : ∀ c ∈ r.name, Byte.isLetter c :=
  List.all_eq_true.mp (by cases r <;> decide)

end Register

-- No name of a register starts another.
theorem Word.base?_append (r : Register) (rest : Text) :
    base? (r.name ++ rest) = some (r, rest) := by
  cases r <;> rfl

-- A digit in front keeps a word apart from registers and labels.
section

variable {c : UInt8} {w : Text}

theorem Word.upper_ne_of_digit (hc : Byte.isDigit c) (hw : ∀ b ∈ w, Byte.isWord b) (r : Register)
    (rest : Text) : Text.upper (c :: w) ≠ r.name ++ rest := by
  have ha : Text.isAscii (c :: w) := by
    refine List.all_eq_true.mpr (List.forall_mem_cons.mpr ⟨Byte.isAscii_of_isDigit hc, ?_⟩)
    exact fun b hb => Byte.isAscii_of_isWord (hw b hb)
  have hn : r.name ≠ [] := by cases r <;> decide
  have hl := r.isLetter_name
  intro h
  rw [Text.upper_of_isAscii ha] at h
  cases hr : r.name
  case nil => contradiction
  case cons b name =>
    rw [hr] at h hl
    have hb : Byte.upper c = b := (List.cons.inj h).left
    have hb : Byte.isLetter (Byte.upper c) := hb ▸ hl b List.mem_cons_self
    exact Byte.not_isLetter_of_isDigit hc (by rwa [Byte.isLetter_upper] at hb)

theorem Word.not_isLabel_of_digit (hc : Byte.isDigit c) (w : Text) : ¬isLabel (c :: w) := by
  have hdot : c ≠ '.'.toUInt8 := Byte.ne_of_holds hc (by decide)
  simp [isLabel, startsLabel, hdot, Byte.not_isLetter_of_isDigit hc]

theorem Operand.ofWord_of_digit (hc : Byte.isDigit c) (hw : ∀ b ∈ w, Byte.isWord b) :
    ofWord (c :: w) = ofNumber .number (c :: w) := by
  have hr : Register.ofWord? (c :: w) = none :=
    Register.ofWord?_eq_none fun r h => Word.upper_ne_of_digit hc hw r [] (by simpa using h)
  simp only [ofWord, hr, if_neg (Word.not_isLabel_of_digit hc w)]

end

namespace Operand

theorem classify_word {c : UInt8} (rest : Text) (h : Word.startsLabel c || Byte.isDigit c) :
    classify (c :: rest) = ofWord (c :: rest) := by
  have ⟨hb, hq⟩ := Line.start_ne_bracket h
  simp only [Line.isQuote, Bool.or_eq_true, beq_iff_eq, not_or] at hq
  simp only [classify, beq_iff_eq, if_neg hb, if_neg hq.left, if_neg hq.right]

theorem inside_snoc {w : Text} (close : UInt8) (h : w ≠ []) :
    inside close (w ++ [close]) = .ok w := by
  rw [inside, Text.dropEnd?_snoc]
  cases w
  case nil => contradiction
  case cons => rfl

theorem classify_bracketed {w : Text} (h : w ≠ []) :
    classify ('['.toUInt8 :: (w ++ [']'.toUInt8])) = ofAddress w := by
  rw [classify, if_pos (beq_self_eq_true _), inside_snoc _ h]
  rfl

theorem classify_string {w : Text} (h : w ≠ []) :
    classify ('"'.toUInt8 :: (w ++ ['"'.toUInt8])) = ofString w := by
  rw [classify, if_neg (by decide), if_pos (beq_self_eq_true _), inside_snoc _ h]
  rfl

theorem classify_character {w : Text} (h : w ≠ []) :
    classify ('\''.toUInt8 :: (w ++ ['\''.toUInt8])) = ofCharacter w := by
  rw [classify, if_neg (by decide), if_neg (by decide), if_pos (beq_self_eq_true _),
    inside_snoc _ h]
  rfl

end Operand

namespace Abstract

-- A spelling of a name that is given in upper case.
structure Spelling (name : Text) where
  text  : Text
  upper : text.map Byte.upper = name

namespace Spelling

variable {name : Text}

theorem isLetter_text (s : Spelling name) (h : ∀ c ∈ name, Byte.isLetter c) :
    ∀ c ∈ s.text, Byte.isLetter c := by
  intro c hc
  have hu : Byte.isLetter (Byte.upper c) := h _ (s.upper ▸ List.mem_map_of_mem hc)
  rwa [Byte.isLetter_upper] at hu

theorem isAscii_text (s : Spelling name) (h : ∀ c ∈ name, Byte.isLetter c) : s.text.isAscii := by
  exact List.all_eq_true.mpr fun c hc => Byte.isAscii_of_isLetter (s.isLetter_text h c hc)

theorem upper_text (s : Spelling name) (h : ∀ c ∈ name, Byte.isLetter c) : s.text.upper = name := by
  rw [Text.upper_of_isAscii (s.isAscii_text h), s.upper]

theorem length_text (s : Spelling name) : s.text.length = name.length := by
  simp [←s.upper]

end Spelling

def signed (negative : Bool) (n : Nat) : Int :=
  if negative then -n else n

-- An offset from a register, which has a sign.
structure Offset where
  negative : Bool
  digits   : List (Digit 10)
  nonempty : digits ≠ []
  small    : -16 ≤ signed negative (Digit.total digits) ∧ signed negative (Digit.total digits) ≤ 15

namespace Offset

def value (o : Offset) : Int :=
  signed o.negative (Digit.total o.digits)

def sign (o : Offset) : UInt8 :=
  if o.negative then '-'.toUInt8 else '+'.toUInt8

def text (o : Offset) : Text :=
  o.sign :: o.digits.map Digit.byte

end Offset

inductive Value
  | byte (n : Number)
  | label (name : Text)

def Value.text : Value → Text
  | byte n => n.text
  | label name => name

def Value.labels : Value → List Text
  | byte _ => []
  | label name => [name]

inductive Argument
  | register (r : Register) (s : Spelling r.name)
  | indirect (r : Register) (s : Spelling r.name) (offset : Option Offset)
  | address (v : Value)
  | number (v : Value)

namespace Argument

def kind : Argument → OperandKind
  | register .. => .register
  | indirect .. => .regaddress
  | address _ => .address
  | number _ => .number

def text : Argument → Text
  | register _ s => s.text
  | indirect _ s offset => '['.toUInt8 :: (s.text ++ offset.elim [] Offset.text ++ [']'.toUInt8])
  | address v => '['.toUInt8 :: (v.text ++ [']'.toUInt8])
  | number v => v.text

-- The labels that stand for a byte, and those of them that stand in brackets.
def labels : Argument → List Text
  | register .. | indirect .. => []
  | address v | number v => v.labels

def bracketed : Argument → List Text
  | address v => v.labels
  | _ => []

end Argument

-- The operand that a value of some kind is classified as.
def Value.operand (kind : OperandKind) : Value → Operand
  | byte n => { kind, value := n.value }
  | label name => { kind, label := some name }

def Argument.operand : Argument → Operand
  | register r _ => { kind := .register, value := r.id }
  | indirect r _ offset =>
    { kind := .regaddress, value := Word.encodeOffset (offset.elim 0 Offset.value) r }
  | address v => v.operand .address
  | number v => v.operand .number

-- A name that is spelled like a label and unlike every register.
structure Referable (name : Text) : Prop where
  spelled : Word.isLabel name
  free    : ∀ r : Register, name.map Byte.upper ≠ r.name

namespace Number

variable {kind : OperandKind}

theorem upper_text_ne (n : Number) (r : Register) (rest : Text) :
    n.text.upper ≠ r.name ++ rest := by
  have ⟨c, w, he, hc, hw⟩ := n.text_eq_cons
  rw [he]
  exact Word.upper_ne_of_digit hc hw r rest

theorem ofWord?_text (n : Number) : Register.ofWord? n.text = none :=
  Register.ofWord?_eq_none fun r h => n.upper_text_ne r [] (by simpa using h)

theorem isLabel_text (n : Number) : ¬Word.isLabel n.text := by
  have ⟨c, w, he, hc, _⟩ := n.text_eq_cons
  rw [he]
  exact Word.not_isLabel_of_digit hc w

theorem offset?_text (n : Number) : Word.offset? n.text = none := by
  have hb : Word.base? n.text.upper = none := by
    refine List.findSome?_eq_none_iff.mpr fun r _ => ?_
    cases hs : Text.dropStart? r.name n.text.upper
    case none => rfl
    case some rest => exact absurd (Text.eq_of_dropStart? hs) (n.upper_text_ne r rest)
  simp only [Word.offset?, hb]

theorem ofNumber_text (n : Number) :
    Operand.ofNumber kind n.text = .ok { kind, value := n.value } := by
  have hs := n.small
  have hr : (0 : Int) ≤ Digit.total n.digits ∧ (Digit.total n.digits : Int) ≤ 255 := by omega
  simp only [Operand.ofNumber, number_text, if_pos hr, Int.toNat_natCast, value]

end Number

namespace Referable

variable {name : Text}

theorem ofWord?_eq_none (h : Referable name) : Register.ofWord? name = none := by
  refine Register.ofWord?_eq_none fun r => ?_
  rw [Text.upper_of_isAscii (Word.isAscii_of_isLabel h.spelled)]
  exact h.free r

end Referable

namespace Value

theorem ofWord_text (v : Value) (h : ∀ name ∈ v.labels, Referable name) :
    Operand.ofWord v.text = .ok (v.operand .number) := by
  cases v
  case byte n =>
    simp only [text, Operand.ofWord, n.ofWord?_text, if_neg n.isLabel_text, n.ofNumber_text,
      operand]
  case label name =>
    have h := h name List.mem_cons_self
    simp only [text, Operand.ofWord, h.ofWord?_eq_none, h.spelled, if_true, operand]

theorem ofAddress_text (v : Value) (h : ∀ name ∈ v.labels, Referable name) :
    Operand.ofAddress v.text = .ok (v.operand .address) := by
  cases v
  case byte n =>
    simp only [text, Operand.ofAddress, n.ofWord?_text, if_neg n.isLabel_text, n.offset?_text,
      n.ofNumber_text, operand]
  case label name =>
    have h := h name List.mem_cons_self
    simp only [text, Operand.ofAddress, h.ofWord?_eq_none, h.spelled, if_true, operand]

theorem text_eq_cons (v : Value) (h : ∀ name ∈ v.labels, Referable name) :
    ∃ c rest, v.text = c :: rest ∧ (Word.startsLabel c || Byte.isDigit c) ∧
      ∀ b ∈ rest, Byte.isWord b := by
  cases v
  case byte n =>
    have ⟨c, rest, he, hc, hr⟩ := n.text_eq_cons
    exact ⟨c, rest, he, by simp [hc], hr⟩
  case label name =>
    have hl := (h name List.mem_cons_self).spelled
    cases name
    case nil => contradiction
    case cons c rest =>
      simp only [Word.isLabel, Bool.and_eq_true, List.all_eq_true] at hl
      exact ⟨c, rest, rfl, by simp [hl.left], hl.right⟩

end Value

namespace Offset

theorem isDigit_digits (o : Offset) : ∀ c ∈ o.digits.map Digit.byte, Byte.isDigit c := by
  intro c hc
  have ⟨d, _, he⟩ := List.mem_map.mp hc
  exact he ▸ d.isDigit_byte (Nat.le_refl 10)

theorem sign_cases (o : Offset) : o.sign = '+'.toUInt8 ∨ o.sign = '-'.toUInt8 := by
  unfold sign
  cases o.negative
  case false => exact .inl rfl
  case true => exact .inr rfl

-- Signs and digits are ASCII without case.
theorem upper_of_mem_text (o : Offset) : ∀ c ∈ o.text, Byte.isAscii c ∧ Byte.upper c = c := by
  refine List.forall_mem_cons.mpr ⟨?_, fun c hc => ?_⟩
  case refine_1 =>
    cases o.sign_cases
    case inl h => rw [h]; decide
    case inr h => rw [h]; decide
  case refine_2 =>
    have hd := o.isDigit_digits c hc
    exact ⟨Byte.isAscii_of_isDigit hd, Byte.upper_of_isDigit hd⟩

end Offset

section

variable {r : Register} (s : Spelling r.name) (o : Offset)

theorem upper_displaced : Text.upper (s.text ++ o.text) = r.name ++ o.text := by
  have ha : Text.isAscii (s.text ++ o.text) := by
    have hs := s.isAscii_text r.isLetter_name
    simp only [Text.isAscii, List.all_append, Bool.and_eq_true] at hs ⊢
    exact ⟨hs, List.all_eq_true.mpr fun c hc => (o.upper_of_mem_text c hc).left⟩
  have ho : o.text.map Byte.upper = o.text.map id :=
    List.map_congr_left fun c hc => (o.upper_of_mem_text c hc).right
  rw [Text.upper_of_isAscii ha, List.map_append, s.upper, ho, List.map_id]

-- The sign keeps a displaced register apart from registers and labels.
theorem ofWord?_displaced : Register.ofWord? (s.text ++ o.text) = none := by
  refine Register.ofWord?_eq_none fun r' h => ?_
  rw [upper_displaced] at h
  have hm : o.sign ∈ r'.name := h ▸ List.mem_append_right _ List.mem_cons_self
  have hl := r'.isLetter_name _ hm
  cases o.sign_cases
  case inl h => exact absurd (h ▸ hl) (by decide)
  case inr h => exact absurd (h ▸ hl) (by decide)

theorem isLabel_displaced : ¬Word.isLabel (s.text ++ o.text) := by
  have hn : ¬Byte.isWord o.sign := by
    cases o.sign_cases
    case inl h => rw [h]; decide
    case inr h => rw [h]; decide
  have hs := s.length_text
  cases ht : s.text
  case nil =>
    rw [ht] at hs
    cases r <;> contradiction
  case cons c rest =>
    intro hl
    simp only [List.cons_append, Word.isLabel, Bool.and_eq_true, List.all_eq_true] at hl
    exact hn (hl.right _ (List.mem_append_right _ List.mem_cons_self))

theorem offset?_displaced :
    Word.offset? (s.text ++ o.text) = some (.ok (Word.encodeOffset o.value r)) := by
  have hsmall := o.small
  have hvalue : o.value = signed o.negative (Digit.total o.digits) := rfl
  have ht : Digit.total o.digits < 0x8000000000000000 := by
    unfold signed at hsmall
    split at hsmall <;> omega
  have hr := Digit.read_bytes (by decide) o.nonempty ht
  unfold Word.offset?
  rw [upper_displaced, Word.base?_append]
  simp only [Offset.text, Offset.sign, hr]
  cases hneg : o.negative <;> simp only [hneg, signed] at hvalue hsmall
  case false =>
    simp only [Bool.false_eq_true, if_false] at hvalue hsmall ⊢
    simp only [beq_self_eq_true, if_true, Word.offset?.encode, if_pos hsmall, hvalue]
  case true =>
    simp only [if_true] at hvalue hsmall ⊢
    have hne : ('-'.toUInt8 == '+'.toUInt8) = false := by decide
    have hwrap := Numeral.wrap_of_inRange (v := -(Digit.total o.digits : Int)) ⟨by omega, by omega⟩
    simp only [hne, beq_self_eq_true, Bool.false_eq_true, if_true, if_false, Except.map, hwrap,
      Word.offset?.encode, if_pos hsmall, hvalue]

theorem ofAddress_displaced : Operand.ofAddress (s.text ++ o.text) =
    .ok { kind := .regaddress, value := Word.encodeOffset o.value r } := by
  simp only [Operand.ofAddress, ofWord?_displaced, if_neg (isLabel_displaced s o),
    offset?_displaced]

theorem ofAddress_register : Operand.ofAddress s.text =
    .ok { kind := .regaddress, value := Word.encodeOffset 0 r } := by
  have hr := Register.ofWord?_of_upper (s.upper_text r.isLetter_name)
  have hv : Word.encodeOffset 0 r = r.id := by cases r <;> rfl
  simp only [Operand.ofAddress, hr, hv]

end

namespace Argument

theorem spelling_eq_cons {r : Register} (s : Spelling r.name) :
    ∃ c rest, s.text = c :: rest ∧ Byte.isLetter c ∧ ∀ b ∈ rest, Byte.isLetter b := by
  have hl := s.isLetter_text r.isLetter_name
  have hs := s.length_text
  cases ht : s.text
  case nil =>
    rw [ht] at hs
    cases r <;> contradiction
  case cons c rest =>
    rw [ht] at hl
    have ⟨hc, hr⟩ := List.forall_mem_cons.mp hl
    exact ⟨c, rest, rfl, hc, hr⟩

-- What is written for an operand is classified as the operand.
theorem classify_text (a : Argument) (h : ∀ name ∈ a.labels, Referable name) :
    Operand.classify a.text = .ok a.operand := by
  cases a
  case register r s =>
    have hr := Register.ofWord?_of_upper (s.upper_text r.isLetter_name)
    have ⟨c, rest, he, hc, _⟩ := spelling_eq_cons s
    have hs : Word.startsLabel c || Byte.isDigit c := by
      simp [Word.startsLabel_of_isLetter hc]
    rw [he] at hr
    simp only [text, he, Operand.classify_word rest hs, Operand.ofWord, hr, operand]
  case indirect r s offset =>
    have ⟨c, rest, he, _⟩ := spelling_eq_cons s
    cases offset
    case none =>
      have hn : s.text ++ [] ≠ [] := by simp [he]
      rw [text, Option.elim_none, Operand.classify_bracketed hn, List.append_nil,
        ofAddress_register]
      rfl
    case some o =>
      have hn : s.text ++ o.text ≠ [] := by simp [he]
      rw [text, Option.elim_some, Operand.classify_bracketed hn, ofAddress_displaced]
      rfl
  case address v =>
    have ⟨c, rest, he, _⟩ := v.text_eq_cons h
    have hn : v.text ≠ [] := by simp [he]
    rw [text, Operand.classify_bracketed hn, v.ofAddress_text h]
    rfl
  case number v =>
    have ⟨c, rest, he, hc, _⟩ := v.text_eq_cons h
    have ho := v.ofWord_text h
    rw [he] at ho
    rw [text, he, Operand.classify_word rest hc, ho]
    rfl

-- The text of a value is a word. In brackets it has no dot.
theorem isWord_text {v : Value} (h : ∀ name ∈ v.labels, Referable name)
    (hb : ∀ name ∈ v.labels, name.head? ≠ some '.'.toUInt8) : ∀ c ∈ v.text, Byte.isWord c := by
  cases v
  case byte n =>
    have ⟨c, rest, he, hc, hr⟩ := n.text_eq_cons
    rw [Value.text, he]
    exact List.forall_mem_cons.mpr ⟨Byte.isWord_of_isDigit hc, hr⟩
  case label name =>
    have hl := (h name List.mem_cons_self).spelled
    have hdot := hb name List.mem_cons_self
    cases name
    case nil => contradiction
    case cons c rest =>
      simp only [Word.isLabel, Bool.and_eq_true, List.all_eq_true] at hl
      have hc : Byte.isWord c := Word.isWord_of_startsLabel hl.left fun he => hdot (he ▸ rfl)
      exact List.forall_mem_cons.mpr ⟨hc, hl.right⟩

theorem written_text (a : Argument) (h : ∀ name ∈ a.labels, Referable name)
    (hb : ∀ name ∈ a.bracketed, name.head? ≠ some '.'.toUInt8) : Operand.Written a.text := by
  cases a
  case register r s =>
    have ⟨c, rest, he, hc, hr⟩ := spelling_eq_cons s
    rw [text, he]
    exact .word (.inl (Word.startsLabel_of_isLetter hc)) fun b hb =>
      Byte.isWord_of_isLetter (hr b hb)
  case indirect r s offset =>
    have ⟨c, rest, he, _⟩ := spelling_eq_cons s
    have hw : ∀ c ∈ s.text, Byte.isWord c :=
      fun c hc => Byte.isWord_of_isLetter (s.isLetter_text r.isLetter_name c hc)
    cases offset
    case none =>
      rw [text, Option.elim_none, List.append_nil]
      exact .bracketed (by simp [he]) hw
    case some o =>
      exact .displaced (by simp [he]) hw o.sign_cases (by simp [o.nonempty]) o.isDigit_digits
  case address v =>
    have ⟨c, rest, he, _⟩ := v.text_eq_cons h
    exact .bracketed (by simp [he]) (isWord_text h hb)
  case number v =>
    have ⟨c, rest, he, hc, hr⟩ := v.text_eq_cons h
    rw [text, he]
    exact .word (by simpa using hc) hr

end Argument

end Abstract

end ByteAsm
