import ByteAsm.Proofs.Bytes

namespace ByteAsm

namespace Text

variable {p t rest : Text} {c : UInt8}

theorem dropStart?_append (p t : Text) : dropStart? p (p ++ t) = some t := by
  induction p
  case nil => rfl
  case cons c p hi => simpa [dropStart?] using hi

theorem eq_of_dropStart? (h : dropStart? p t = some rest) : t = p ++ rest := by
  induction p generalizing t
  case nil =>
    cases h
    rfl
  case cons c p hi =>
    cases t <;> simp only [dropStart?] at h <;> try contradiction
    case cons b t =>
      split at h <;> try contradiction
      case isTrue hc => rw [hi h, ←eq_of_beq hc, List.cons_append]

theorem dropStart?_eq_none (hp : c ∈ p) (ht : c ∉ t) : dropStart? p t = none := by
  cases h : dropStart? p t
  case none => rfl
  case some rest => exact absurd (eq_of_dropStart? h ▸ List.mem_append_left _ hp) ht

theorem eq_of_dropEnd? (h : dropEnd? c t = some rest) : t = rest ++ [c] := by
  unfold dropEnd? at h
  split at h <;> cases h
  case isTrue hl =>
    obtain ⟨front, he⟩ := List.getLast?_eq_some_iff.mp (eq_of_beq hl)
    simp [he]

theorem dropEnd?_snoc (c : UInt8) (t : Text) : dropEnd? c (t ++ [c]) = some t := by
  simp [dropEnd?]

theorem dropEnd?_eq_none (h : c ∉ t) : dropEnd? c t = none := by
  refine if_neg fun hl => h ?_
  exact List.mem_of_getLast? (eq_of_beq hl)

theorem dropEnd?_snoc_of_ne {b : UInt8} (h : b ≠ c) (t : Text) : dropEnd? c (t ++ [b]) = none := by
  simpa [dropEnd?] using h

end Text

namespace Numeral

-- The integers that are signed 64-bit words.
def InRange (v : Int) : Prop :=
  -0x8000000000000000 ≤ v ∧ v < 0x8000000000000000

instance (v : Int) : Decidable (InRange v) :=
  inferInstanceAs (Decidable (_ ∧ _))

theorem wrap_of_inRange {v : Int} (h : InRange v) : wrap v = v := by
  obtain ⟨hl, hu⟩ := h
  exact Int.bmod_eq_of_le (by omega) (by omega)

end Numeral

namespace Word

variable {t : Text}

-- The bytes of a decimal number: digits, and a sign in front of them.
def isNumeric (c : UInt8) : Bool :=
  Byte.isDigit c || c == '+'.toUInt8 || c == '-'.toUInt8

theorem isNumeric_of_isDigit {c : UInt8} (h : Byte.isDigit c) : isNumeric c := by
  simp [isNumeric, h]

theorem not_mem_of_numeric {c : UInt8} (h : ∀ b ∈ t, isNumeric b) (hc : ¬isNumeric c) : c ∉ t :=
  fun hm => hc (h c hm)

theorem isPlainNumber_of_digits (hn : t ≠ []) (h : ∀ c ∈ t, Byte.isDigit c) :
    isPlainNumber t := by
  cases t
  case nil => exact absurd rfl hn
  case cons c t =>
    have hc := h c List.mem_cons_self
    have hm : c ≠ '-'.toUInt8 := Byte.ne_of_holds hc (by decide)
    have hp : c ≠ '+'.toUInt8 := Byte.ne_of_holds hc (by decide)
    rw [isPlainNumber, if_neg (by simp [hm, hp])]
    exact List.all_eq_true.mpr h

theorem isNumeric_of_isPlainNumber (h : isPlainNumber t) : ∀ c ∈ t, isNumeric c := by
  cases t
  case nil => contradiction
  case cons c t =>
    rw [isPlainNumber] at h
    split at h
    case isTrue hs =>
      simp only [Bool.and_eq_true, List.all_eq_true] at h
      refine List.forall_mem_cons.mpr ⟨?_, fun b hb => isNumeric_of_isDigit (h.right b hb)⟩
      simp only [Bool.or_eq_true] at hs
      cases hs
      case inl hc => simp [isNumeric, hc]
      case inr hc => simp [isNumeric, hc]
    case isFalse => exact fun b hb => isNumeric_of_isDigit (List.all_eq_true.mp h b hb)

theorem radix?_plain (h : isPlainNumber t) : radix? t = some (t, 10) := by
  have hn := isNumeric_of_isPlainNumber h
  have hx : Text.dropStart? "0x" t = none :=
    Text.dropStart?_eq_none (c := 'x'.toUInt8) (by decide) (not_mem_of_numeric hn (by decide))
  have ho : Text.dropStart? "0o" t = none :=
    Text.dropStart?_eq_none (c := 'o'.toUInt8) (by decide) (not_mem_of_numeric hn (by decide))
  have hb := Text.dropEnd?_eq_none (not_mem_of_numeric hn (c := 'b'.toUInt8) (by decide))
  have hd := Text.dropEnd?_eq_none (not_mem_of_numeric hn (c := 'd'.toUInt8) (by decide))
  simp only [radix?, hx, ho, hb, hd, if_pos h]

-- A mark at the end counts only if there is none in front, where signs and digits alone have no
-- room for one.
theorem dropStart?_numeric_snoc {c b : UInt8} {p : Text} (h : ∀ b ∈ t, isNumeric b) (hp : c ∈ p)
    (hc : ¬isNumeric c) (hne : c ≠ b) : Text.dropStart? p (t ++ [b]) = none := by
  refine Text.dropStart?_eq_none hp fun hm => ?_
  cases List.mem_append.mp hm
  case inl hm => exact not_mem_of_numeric h hc hm
  case inr hm => exact hne (List.mem_singleton.mp hm)

theorem radix?_decimal (h : ∀ c ∈ t, isNumeric c) :
    radix? (t ++ ['d'.toUInt8]) = some (t, 10) := by
  have hx : Text.dropStart? "0x" (t ++ ['d'.toUInt8]) = none :=
    dropStart?_numeric_snoc (c := 'x'.toUInt8) h (by decide) (by decide) (by decide)
  have ho : Text.dropStart? "0o" (t ++ ['d'.toUInt8]) = none :=
    dropStart?_numeric_snoc (c := 'o'.toUInt8) h (by decide) (by decide) (by decide)
  have hb : Text.dropEnd? 'b'.toUInt8 (t ++ ['d'.toUInt8]) = none :=
    Text.dropEnd?_snoc_of_ne (by decide) t
  simp only [radix?, hx, ho, hb, Text.dropEnd?_snoc]

theorem radix?_binary (h : ∀ c ∈ t, isNumeric c) :
    radix? (t ++ ['b'.toUInt8]) = some (t, 2) := by
  have hx : Text.dropStart? "0x" (t ++ ['b'.toUInt8]) = none :=
    dropStart?_numeric_snoc (c := 'x'.toUInt8) h (by decide) (by decide) (by decide)
  have ho : Text.dropStart? "0o" (t ++ ['b'.toUInt8]) = none :=
    dropStart?_numeric_snoc (c := 'o'.toUInt8) h (by decide) (by decide) (by decide)
  simp only [radix?, hx, ho, Text.dropEnd?_snoc]

theorem radix?_hexadecimal (t : Text) : radix? (Text.ofString "0x" ++ t) = some (t, 16) := by
  simp only [radix?, Text.dropStart?_append]

theorem radix?_octal (t : Text) : radix? (Text.ofString "0o" ++ t) = some (t, 8) := by
  have hx : Text.dropStart? "0x" (Text.ofString "0o" ++ t) = none := rfl
  simp only [radix?, hx, Text.dropStart?_append]

end Word

namespace Abstract

-- A digit in a base. Digits beyond nine are letters, which have two cases.
structure Digit (base : Nat) where
  value : Nat
  small : value < base
  upper : Bool := false

namespace Digit

variable {base : Nat}

def byte (d : Digit base) : UInt8 :=
  if d.value < 10 then UInt8.ofNat ('0'.toNat + d.value)
  else UInt8.ofNat ((if d.upper then 'A' else 'a').toNat + (d.value - 10))

def total (ds : List (Digit base)) : Nat :=
  ds.foldl (fun value d => value * base + d.value) 0

theorem digit?_byte (hb : base ≤ 16) (d : Digit base) :
    Numeral.digit? base d.byte = some d.value := by
  have hd : ∀ (value : Fin 16) (upper : Bool),
      Numeral.digit? 16 (byte ⟨value, value.isLt, upper⟩) = some value.val := by decide +kernel
  have h : Numeral.digit? 16 d.byte = some d.value :=
    hd ⟨d.value, Nat.lt_of_lt_of_le d.small hb⟩ d.upper
  have ⟨hv, _⟩ := Option.filter_eq_some_iff.mp h
  exact Option.filter_eq_some_iff.mpr ⟨hv, by simpa using d.small⟩

theorem isWord_byte (hb : base ≤ 16) (d : Digit base) : Byte.isWord d.byte := by
  have hd : ∀ (value : Fin 16) (upper : Bool), Byte.isWord (byte ⟨value, value.isLt, upper⟩) := by
    decide +kernel
  exact hd ⟨d.value, Nat.lt_of_lt_of_le d.small hb⟩ d.upper

theorem isDigit_byte (hb : base ≤ 10) (d : Digit base) : Byte.isDigit d.byte := by
  have hd : ∀ (value : Fin 10) (upper : Bool), Byte.isDigit (byte ⟨value, value.isLt, upper⟩) := by
    decide +kernel
  exact hd ⟨d.value, Nat.lt_of_lt_of_le d.small hb⟩ d.upper

theorem le_foldl (ds : List (Digit base)) (value : Nat) :
    value ≤ ds.foldl (fun value d => value * base + d.value) value := by
  induction ds generalizing value
  case nil => exact Nat.le_refl _
  case cons d ds hi =>
    have hb : 1 ≤ base := Nat.lt_of_le_of_lt (Nat.zero_le _) d.small
    have hm : value * 1 ≤ value * base := Nat.mul_le_mul_left value hb
    have ht := hi (value * base + d.value)
    simp only [List.foldl_cons]
    omega

-- A value that fits is never too large on the way, since it only grows.
theorem digits_bytes (hb : base ≤ 16) (ds : List (Digit base)) (value : Nat)
    (h : ds.foldl (fun value d => value * base + d.value) value < 0x10000000000000000) :
    Numeral.digits base value (ds.map byte) =
      .ok (ds.foldl (fun value d => value * base + d.value) value) := by
  induction ds generalizing value
  case nil => rfl
  case cons d ds hi =>
    have hl := Nat.lt_of_le_of_lt (le_foldl ds (value * base + d.value)) h
    simp only [List.map_cons, Numeral.digits, digit?_byte hb, if_pos hl, List.foldl_cons]
    exact hi (value * base + d.value) h

theorem read_bytes (hb : base ≤ 16) {ds : List (Digit base)} (hn : ds ≠ [])
    (h : total ds < 0x8000000000000000) :
    Numeral.read base (ds.map byte) = .ok (total ds : Int) := by
  have hr := digits_bytes hb ds 0 (Nat.lt_trans h (by decide))
  cases ds
  case nil => contradiction
  case cons d ds =>
    have hm : d.byte ≠ '-'.toUInt8 := Byte.ne_of_holds (isWord_byte hb d) (by decide)
    have hp : d.byte ≠ '+'.toUInt8 := Byte.ne_of_holds (isWord_byte hb d) (by decide)
    have hu : Numeral.unsigned base ((d :: ds).map byte) = .ok (total (d :: ds)) := hr
    simp only [List.map_cons] at hu
    simp only [Numeral.read, List.map_cons, Numeral.readSigned, beq_iff_eq, if_neg hm, if_neg hp,
      hu, Numeral.readSigned.positive, if_pos h]

-- The byte of a digit that a library function writes, with letters in either case.
def spell (upper : Bool) (c : Char) : UInt8 :=
  if upper then Byte.upper c.toUInt8 else c.toUInt8

theorem byte_eq_spell (hb : base ≤ 16) (d : Digit base) :
    d.byte = spell d.upper d.value.digitChar := by
  have hd : ∀ (value : Fin 16) (upper : Bool),
      byte (⟨value, value.isLt, upper⟩ : Digit 16) = spell upper value.val.digitChar := by
    decide +kernel
  exact hd ⟨d.value, Nat.lt_of_lt_of_le d.small hb⟩ d.upper

-- The digits that a natural number is written with.
theorem exists_toDigits (ho : 1 < base) (hb : base ≤ 16) (upper : Bool) (n : Nat) :
    ∃ ds : List (Digit base), ds ≠ [] ∧
      ds.map byte = (Nat.toDigits base n).map (spell upper) ∧ total ds = n := by
  induction n using Nat.strongRecOn
  case ind n hi =>
    by_cases hn : n < base
    case pos =>
      refine ⟨[⟨n, hn, upper⟩], List.cons_ne_nil _ _, ?_, by simp [total]⟩
      rw [Nat.toDigits_of_lt_base hn, List.map_singleton, List.map_singleton, byte_eq_spell hb]
    case neg =>
      obtain ⟨ds, _, hd, ht⟩ := hi (n / base) (Nat.div_lt_self (by omega) ho)
      have hm : n % base < base := Nat.mod_lt n (by omega)
      refine ⟨ds ++ [⟨n % base, hm, upper⟩], by simp, ?_, ?_⟩
      case refine_1 =>
        rw [Nat.toDigits_of_base_le ho (Nat.le_of_not_lt hn), List.map_append, List.map_append, hd,
          List.map_singleton, List.map_singleton, byte_eq_spell hb]
      case refine_2 =>
        simp only [total] at ht
        rw [total, List.foldl_append, ht]
        exact Nat.div_add_mod' n base

theorem exists_natural (n : Nat) : ∃ ds : List (Digit 10), ds ≠ [] ∧
    ds.map byte = Numeral.natural n ∧ total ds = n :=
  exists_toDigits (by decide) (by decide) false n

end Digit

-- The notations: plain decimal, decimal with a mark, and three other bases.
inductive Radix
  | plain
  | decimal
  | hexadecimal
  | octal
  | binary

def Radix.base : Radix → Nat
  | plain | decimal => 10
  | hexadecimal => 16
  | octal => 8
  | binary => 2

theorem Radix.base_le : (r : Radix) → r.base ≤ 16
  | plain | decimal | hexadecimal | octal | binary => by decide

structure Number where
  radix    : Radix
  digits   : List (Digit radix.base)
  nonempty : digits ≠ []
  small    : Digit.total digits ≤ 255

namespace Number

def value (n : Number) : UInt8 :=
  UInt8.ofNat (Digit.total n.digits)

def body (n : Number) : Text :=
  n.digits.map Digit.byte

def text (n : Number) : Text :=
  match n.radix with
  | .plain => n.body
  | .decimal => n.body ++ ['d'.toUInt8]
  | .hexadecimal => Text.ofString "0x" ++ n.body
  | .octal => Text.ofString "0o" ++ n.body
  | .binary => n.body ++ ['b'.toUInt8]

theorem body_ne_nil (n : Number) : n.body ≠ [] :=
  fun h => n.nonempty (List.map_eq_nil_iff.mp h)

theorem isWord_body (n : Number) : ∀ c ∈ n.body, Byte.isWord c := by
  intro c hc
  have ⟨d, _, he⟩ := List.mem_map.mp hc
  exact he ▸ d.isWord_byte n.radix.base_le

theorem isDigit_body (n : Number) (hb : n.radix.base ≤ 10) : ∀ c ∈ n.body, Byte.isDigit c := by
  intro c hc
  have ⟨d, _, he⟩ := List.mem_map.mp hc
  exact he ▸ d.isDigit_byte hb

theorem radix?_text (n : Number) : Word.radix? n.text = some (n.body, n.radix.base) := by
  have hd := n.isDigit_body
  unfold text
  cases hr : n.radix <;> rw [hr] at hd
  case plain =>
    exact Word.radix?_plain (Word.isPlainNumber_of_digits n.body_ne_nil (hd (by decide)))
  case decimal =>
    exact Word.radix?_decimal fun c hc => Word.isNumeric_of_isDigit (hd (by decide) c hc)
  case hexadecimal => exact Word.radix?_hexadecimal n.body
  case octal => exact Word.radix?_octal n.body
  case binary =>
    exact Word.radix?_binary fun c hc => Word.isNumeric_of_isDigit (hd (by decide) c hc)

theorem number_text (n : Number) : Word.number n.text = .ok (Digit.total n.digits : Int) := by
  have hs := n.small
  have hr : Numeral.read n.radix.base n.body = .ok (Digit.total n.digits : Int) :=
    Digit.read_bytes n.radix.base_le n.nonempty (by omega)
  simp only [Word.number, radix?_text, hr]

-- A number starts with a digit and goes on with letters and digits.
theorem text_eq_cons (n : Number) :
    ∃ c rest, n.text = c :: rest ∧ Byte.isDigit c ∧ ∀ b ∈ rest, Byte.isWord b := by
  have hw := n.isWord_body
  have hd := n.isDigit_body
  have hn := n.body_ne_nil
  unfold text
  cases hb : n.body
  case nil => contradiction
  case cons c body =>
    rw [hb] at hw hd
    have ⟨_, hw'⟩ := List.forall_mem_cons.mp hw
    cases hr : n.radix <;> rw [hr] at hd
    case plain => exact ⟨c, body, rfl, hd (by decide) c List.mem_cons_self, hw'⟩
    case decimal =>
      refine ⟨c, body ++ ['d'.toUInt8], rfl, hd (by decide) c List.mem_cons_self, ?_⟩
      exact List.forall_mem_append.mpr ⟨hw', by simp; decide⟩
    case hexadecimal =>
      refine ⟨'0'.toUInt8, 'x'.toUInt8 :: c :: body, rfl, by decide, ?_⟩
      exact List.forall_mem_cons.mpr ⟨by decide, hw⟩
    case octal =>
      refine ⟨'0'.toUInt8, 'o'.toUInt8 :: c :: body, rfl, by decide, ?_⟩
      exact List.forall_mem_cons.mpr ⟨by decide, hw⟩
    case binary =>
      refine ⟨c, body ++ ['b'.toUInt8], rfl, hd (by decide) c List.mem_cons_self, ?_⟩
      exact List.forall_mem_append.mpr ⟨hw', by simp; decide⟩

theorem exists_natural {n : Nat} (h : n ≤ 255) :
    ∃ number : Number, number.text = Numeral.natural n ∧ number.value = UInt8.ofNat n := by
  obtain ⟨ds, hn, hd, ht⟩ := Digit.exists_natural n
  exact ⟨⟨.plain, ds, hn, ht ▸ h⟩, hd, congrArg UInt8.ofNat ht⟩

end Number

end Abstract

end ByteAsm
