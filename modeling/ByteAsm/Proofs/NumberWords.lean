import Mathlib.Data.Nat.Digits.Defs
import ByteAsm.Proofs.Outcome

namespace ByteAsm

open Numeral (InRange)

namespace Abstract

namespace Digit

variable {base : Nat}

-- The reader knows no digits but these.
theorem exists_of_digit? {c : UInt8} {v : Nat} (h : Numeral.digit? base c = some v) :
    ∃ d : Digit base, d.byte = c := by
  obtain ⟨hv, hs⟩ := Option.filter_eq_some_iff.mp h
  have hs : v < base := by simpa using hs
  have hbyte {n : Nat} (hn : n = c.toNat) : UInt8.ofNat n = c := hn ▸ UInt8.ofNat_toNat
  split at hv
  case isTrue hc =>
    have hv : c.toNat - 48 = v := Option.some.inj hv
    rw [Byte.isDigit_iff] at hc
    refine ⟨⟨v, hs, false⟩, ?_⟩
    rw [byte, if_pos (show v < 10 by omega)]
    exact hbyte (show 48 + v = c.toNat by omega)
  case isFalse =>
    split at hv <;> try contradiction
    case isTrue hc =>
      have hv : (Byte.upper c).toNat - 65 + 10 = v := Option.some.inj hv
      rw [Byte.isLetter_iff] at hc
      rw [Byte.toNat_upper] at hv
      refine ⟨⟨v, hs, c.toNat ≤ 90⟩, ?_⟩
      rw [byte, if_neg (show ¬v < 10 by omega)]
      by_cases hu : c.toNat ≤ 90
      case pos =>
        rw [if_neg (by omega)] at hv
        rw [if_pos (decide_eq_true hu)]
        exact hbyte (show 65 + (v - 10) = c.toNat by omega)
      case neg =>
        rw [if_pos (by omega)] at hv
        rw [if_neg (by simpa using hu)]
        exact hbyte (show 97 + (v - 10) = c.toNat by omega)

theorem exists_of_digits {t : Text} {value n : Nat} (h : Numeral.digits base value t = .ok n) :
    ∃ ds : List (Digit base), ds.map byte = t := by
  induction t generalizing value
  case nil => exact ⟨[], rfl⟩
  case cons c t hi =>
    rw [Numeral.digits] at h
    split at h <;> try contradiction
    case h_2 v hv =>
      split at h <;> try contradiction
      case isTrue =>
        obtain ⟨d, hd⟩ := exists_of_digit? hv
        obtain ⟨ds, hds⟩ := hi h
        exact ⟨d :: ds, by rw [List.map_cons, hd, hds]⟩

-- Once a value is too large it stays so, and the reader has stopped there.
theorem digits_overflow (hb : base ≤ 16) (ds : List (Digit base)) {value : Nat}
    (hv : value < 0x10000000000000000)
    (h : 0x10000000000000000 ≤ ds.foldl (fun value d => value * base + d.value) value) :
    Numeral.digits base value (ds.map byte) = .error .overflow := by
  induction ds generalizing value
  case nil => exact absurd hv (Nat.not_lt_of_le h)
  case cons d ds hi =>
    rw [List.map_cons, Numeral.digits, digit?_byte hb]
    dsimp only
    split
    case isTrue hv => exact hi hv h
    case isFalse => rfl

theorem unsigned_bytes (hb : base ≤ 16) {ds : List (Digit base)} (hn : ds ≠ []) :
    Numeral.unsigned base (ds.map byte) =
      if total ds < 0x10000000000000000 then .ok (total ds) else .error .overflow := by
  rw [Numeral.unsigned, if_neg (by simpa using hn)]
  split
  case isTrue h => exact digits_bytes hb ds 0 h
  case isFalse h => exact digits_overflow hb ds (by decide) (Nat.le_of_not_lt h)

-- Reading from left to right gives the positional value, of which the last digit is the lowest.
theorem total_eq_ofDigits (ds : List (Digit base)) :
    total ds = Nat.ofDigits base (ds.map value).reverse := by
  rw [Nat.ofDigits_eq_foldr, List.foldr_reverse, List.foldl_map, total]
  simp only [Nat.cast_id, Nat.mul_comm base, Nat.add_comm]

end Digit

inductive Sign
  | plus
  | minus

namespace Sign

def byte : Sign → UInt8
  | plus => '+'.toUInt8
  | minus => '-'.toUInt8

def apply : Sign → Int → Int
  | plus, v => v
  | minus, v => -v

theorem isNumeric_byte (s : Sign) : Word.isNumeric s.byte := by
  cases s <;> decide

end Sign

-- An integer as it is written: a sign or none, and digits.
structure Integer (base : Nat) where
  sign     : Option Sign
  digits   : List (Digit base)
  nonempty : digits ≠ []

namespace Integer

variable {base : Nat} {t : Text} {v : Int}

def text (n : Integer base) : Text :=
  (n.sign.map Sign.byte).toList ++ n.digits.map Digit.byte

def magnitude (n : Integer base) : Nat :=
  Nat.ofDigits base (n.digits.map Digit.value).reverse

def value (n : Integer base) : Int :=
  (n.sign.getD .plus).apply n.magnitude

theorem inRange_natCast (n : Nat) : InRange n ↔ n < 0x8000000000000000 := by
  unfold InRange
  omega

theorem inRange_neg (n : Nat) : InRange (-n) ↔ n ≤ 0x8000000000000000 := by
  unfold InRange
  omega

-- The magnitude is an unsigned word at first, and the sign decides how much of it fits.
theorem readSigned_positive (n : Nat) : Numeral.readSigned.positive
    (if n < 0x10000000000000000 then .ok n else .error .overflow) =
      if InRange n then .ok (n : Int) else .error .overflow := by
  simp only [inRange_natCast]
  split
  case isTrue => rfl
  case isFalse => rw [if_neg (by omega), Numeral.readSigned.positive]

theorem readSigned_negative (n : Nat) : Numeral.readSigned.negative
    (if n < 0x10000000000000000 then .ok n else .error .overflow) =
      if InRange (-n) then .ok (-n : Int) else .error .overflow := by
  simp only [inRange_neg]
  split
  case isTrue => rfl
  case isFalse => rw [if_neg (by omega), Numeral.readSigned.negative]

theorem read_text (hb : base ≤ 16) (n : Integer base) :
    Numeral.read base n.text = if InRange n.value then .ok n.value else .error .overflow := by
  obtain ⟨sign, ds, hn⟩ := n
  have hu := Digit.unsigned_bytes hb hn
  rw [Digit.total_eq_ofDigits] at hu
  cases sign
  case none =>
    cases ds
    case nil => exact absurd rfl hn
    case cons d ds =>
      have hw := d.isWord_byte hb
      have hm : d.byte ≠ '-'.toUInt8 := Byte.ne_of_holds hw (by decide)
      have hp : d.byte ≠ '+'.toUInt8 := Byte.ne_of_holds hw (by decide)
      rw [List.map_cons] at hu
      simp only [Numeral.read, text, Option.map_none, Option.toList_none, List.nil_append,
        List.map_cons, Numeral.readSigned, beq_iff_eq, if_neg hm, if_neg hp, hu]
      exact readSigned_positive _
  case some sign =>
    cases sign
    case plus => exact (congrArg Numeral.readSigned.positive hu).trans (readSigned_positive _)
    case minus => exact (congrArg Numeral.readSigned.negative hu).trans (readSigned_negative _)

theorem exists_of_unsigned {ds : Text} {m : Nat} (sign : Option Sign)
    (h : Numeral.unsigned base ds = .ok m) :
    ∃ n : Integer base, n.text = (sign.map Sign.byte).toList ++ ds := by
  rw [Numeral.unsigned] at h
  split at h <;> try contradiction
  case isFalse hn =>
    obtain ⟨digits, rfl⟩ := Digit.exists_of_digits h
    exact ⟨⟨sign, digits, by simpa using hn⟩, rfl⟩

theorem exists_of_read (h : Numeral.read base t = .ok v) : ∃ n : Integer base, n.text = t := by
  have hok {f : Except Numeral.Fault Nat → Except Numeral.Fault Int}
      (hf : ∀ fault, f (.error fault) = .error fault) {r : Except Numeral.Fault Nat}
      (h : f r = .ok v) : ∃ m, r = .ok m := by
    cases r
    case error fault => cases (hf fault).symm.trans h
    case ok m => exact ⟨m, rfl⟩
  cases t
  case nil => contradiction
  case cons c t =>
    rw [Numeral.read, Numeral.readSigned] at h
    split at h
    case isTrue hc =>
      obtain ⟨m, hm⟩ := hok (fun _ => rfl) h
      rw [eq_of_beq hc]
      exact exists_of_unsigned (some .minus) hm
    case isFalse =>
      split at h
      case isTrue hc =>
        obtain ⟨m, hm⟩ := hok (fun _ => rfl) h
        rw [eq_of_beq hc]
        exact exists_of_unsigned (some .plus) hm
      case isFalse =>
        obtain ⟨m, hm⟩ := hok (fun _ => rfl) h
        exact exists_of_unsigned none hm

theorem read_eq_ok_iff (hb : base ≤ 16) : Numeral.read base t = .ok v ↔
    ∃ n : Integer base, n.text = t ∧ n.value = v ∧ InRange v := by
  constructor
  case mp =>
    intro h
    obtain ⟨n, rfl⟩ := exists_of_read h
    rw [read_text hb] at h
    split at h <;> cases h
    case isTrue hr => exact ⟨n, rfl, rfl, hr⟩
  case mpr =>
    rintro ⟨n, rfl, rfl, hr⟩
    rw [read_text hb, if_pos hr]

theorem isNumeric_text (hb : base ≤ 10) (n : Integer base) : ∀ c ∈ n.text, Word.isNumeric c := by
  refine List.forall_mem_append.mpr ⟨fun c hc => ?_, fun c hc => ?_⟩
  case refine_1 =>
    obtain ⟨s, _, rfl⟩ := Option.map_eq_some_iff.mp (Option.mem_toList.mp hc)
    exact s.isNumeric_byte
  case refine_2 =>
    obtain ⟨d, _, rfl⟩ := List.mem_map.mp hc
    exact Word.isNumeric_of_isDigit (d.isDigit_byte hb)

theorem isPlainNumber_text (n : Integer 10) : Word.isPlainNumber n.text := by
  obtain ⟨sign, ds, hn⟩ := n
  have hd : ∀ c ∈ ds.map Digit.byte, Byte.isDigit c := by
    intro c hc
    obtain ⟨d, _, rfl⟩ := List.mem_map.mp hc
    exact d.isDigit_byte (Nat.le_refl 10)
  have hm : ds.map Digit.byte ≠ [] := by simpa using hn
  cases sign
  case none => exact Word.isPlainNumber_of_digits hm hd
  case some s =>
    have hs : s.byte == '-'.toUInt8 || s.byte == '+'.toUInt8 := by cases s <;> decide
    simp only [text, Option.map_some, Option.toList_some, List.singleton_append,
      Word.isPlainNumber, if_pos hs, Bool.and_eq_true, List.all_eq_true]
    exact ⟨by simpa using hm, hd⟩

end Integer

end Abstract

open Abstract (Integer)

namespace Word

-- The word is written for the number. Only words of the first two forms begin with their marks.
inductive Spells : Text → Int → Prop
  | hexadecimal (n : Integer 16) : Spells (Text.ofString "0x" ++ n.text) n.value
  | octal (n : Integer 8) : Spells (Text.ofString "0o" ++ n.text) n.value
  | binary (n : Integer 2) : Spells (n.text ++ ['b'.toUInt8]) n.value
  | decimal (n : Integer 10) : Spells (n.text ++ ['d'.toUInt8]) n.value
  | plain (n : Integer 10) : Spells n.text n.value

variable {word body : Text} {base : Nat} {v : Int}

theorem radix?_eq_some (h : radix? word = some (body, base)) :
    word = Text.ofString "0x" ++ body ∧ base = 16 ∨ word = Text.ofString "0o" ++ body ∧ base = 8 ∨
      word = body ++ ['b'.toUInt8] ∧ base = 2 ∨ word = body ++ ['d'.toUInt8] ∧ base = 10 ∨
      word = body ∧ base = 10 := by
  unfold radix? at h
  split at h
  case h_1 hx =>
    cases h
    exact .inl ⟨Text.eq_of_dropStart? hx, rfl⟩
  case h_2 ho _ =>
    cases h
    exact .inr (.inl ⟨Text.eq_of_dropStart? ho, rfl⟩)
  case h_3 hb _ _ =>
    cases h
    exact .inr (.inr (.inl ⟨Text.eq_of_dropEnd? hb, rfl⟩))
  case h_4 hd _ _ _ =>
    cases h
    exact .inr (.inr (.inr (.inl ⟨Text.eq_of_dropEnd? hd, rfl⟩)))
  case h_5 =>
    split at h <;> cases h
    exact .inr (.inr (.inr (.inr ⟨rfl, rfl⟩)))

theorem Spells.radix?_eq (h : Spells word v) :
    ∃ base ≤ 16, ∃ n : Integer base, radix? word = some (n.text, base) ∧ n.value = v := by
  cases h
  case hexadecimal n => exact ⟨16, by decide, n, radix?_hexadecimal _, rfl⟩
  case octal n => exact ⟨8, by decide, n, radix?_octal _, rfl⟩
  case binary n => exact ⟨2, by decide, n, radix?_binary (n.isNumeric_text (by decide)), rfl⟩
  case decimal n => exact ⟨10, by decide, n, radix?_decimal (n.isNumeric_text (by decide)), rfl⟩
  case plain n => exact ⟨10, by decide, n, radix?_plain n.isPlainNumber_text, rfl⟩

theorem Spells.number_eq (h : Spells word v) :
    number word = if InRange v then .ok v else .error .operandRange := by
  obtain ⟨base, hb, n, hr, rfl⟩ := h.radix?_eq
  by_cases hv : InRange n.value
  case pos => simp only [number, hr, n.read_text hb, if_pos hv]
  case neg => simp only [number, hr, n.read_text hb, if_neg hv]

theorem spells_of_number (h : number word = .ok v) : Spells word v := by
  unfold number at h
  split at h <;> try contradiction
  case h_2 body base hr =>
    split at h <;> cases h
    case h_1 hv =>
      have hb : base ≤ 16 := by
        have := radix?_eq_some hr
        omega
      obtain ⟨n, rfl, rfl, _⟩ := (Integer.read_eq_ok_iff hb).mp hv
      obtain ⟨rfl, rfl⟩ | ⟨rfl, rfl⟩ | ⟨rfl, rfl⟩ | ⟨rfl, rfl⟩ | ⟨rfl, rfl⟩ := radix?_eq_some hr
      · exact .hexadecimal n
      · exact .octal n
      · exact .binary n
      · exact .decimal n
      · exact .plain n

theorem number_eq_error {e : Error} (h : number word = .error e) :
    e = .notANumber word ∨ e = .operandRange := by
  unfold number at h
  split at h
  case h_1 =>
    cases h
    exact .inl rfl
  case h_2 =>
    split at h <;> cases h
    case h_2 => exact .inr rfl
    case h_3 => exact .inl rfl

theorem spells_natural (n : Nat) : Spells (Numeral.natural n) n := by
  obtain ⟨ds, hn, hd, ht⟩ := Abstract.Digit.exists_natural n
  have h := Spells.plain ⟨none, ds, hn⟩
  rw [Abstract.Digit.total_eq_ofDigits] at ht
  rwa [Integer.text, Integer.value, Integer.magnitude, ht, hd] at h

end Word

theorem Numeral.natural_eq_cons (n : Nat) :
    ∃ c w, natural n = c :: w ∧ Byte.isDigit c ∧ ∀ b ∈ w, Byte.isWord b := by
  obtain ⟨ds, hn, hd, -⟩ := Abstract.Digit.exists_natural n
  cases ds
  case nil => exact absurd rfl hn
  case cons d ds =>
    refine ⟨_, _, hd.symm, d.isDigit_byte (Nat.le_refl 10), fun b hb => ?_⟩
    obtain ⟨d, _, rfl⟩ := List.mem_map.mp hb
    exact d.isWord_byte (by decide)

theorem Operand.classify_natural {n : Nat} (h : InRange n) :
    classify (Numeral.natural n) =
      if n ≤ 255 then .ok { kind := .number, value := UInt8.ofNat n }
      else .error .operandRange := by
  have hv := (Word.spells_natural n).number_eq
  obtain ⟨c, w, he, hc, hw⟩ := Numeral.natural_eq_cons n
  rw [if_pos h, he] at hv
  rw [he, classify_word w (by simp [hc]), ofWord_of_digit hc hw, ofNumber, hv]
  by_cases hs : n ≤ 255
  case pos =>
    have hs' : (0 : Int) ≤ n ∧ (n : Int) ≤ 255 := by omega
    simp only [if_pos hs, if_pos hs', Int.toNat_natCast]
  case neg =>
    have hs' : ¬((0 : Int) ≤ n ∧ (n : Int) ≤ 255) := by omega
    simp only [if_neg hs, if_neg hs']

theorem Expansion.inRange_of_evaluate {value? : Text → Option Int} {body : Text} {n : Nat}
    (h : evaluate value? body = .ok n) : InRange n := by
  unfold evaluate at h
  split at h <;> try contradiction
  case h_2 =>
    split at h <;> cases h
    case isTrue.refl hr =>
      unfold InRange
      omega

namespace Word

-- Words of other forms are refused, and so are values that do not fit. What expansion writes for a
-- value is read back as this value.
theorem number_exactly_spells (word : Text) :
    (∀ v, number word = .ok v ↔ InRange v ∧ Spells word v) ∧
    (∀ v, Spells word v → ¬InRange v → number word = .error .operandRange) ∧
    ((∀ v, ¬Spells word v) →
      number word = .error (.notANumber word) ∨ number word = .error .operandRange) ∧
    (∀ value? body n, Expansion.evaluate value? body = .ok n → InRange n) ∧
    (∀ n : Nat, InRange n → number (Numeral.natural n) = .ok n ∧
      Operand.classify (Numeral.natural n) =
        if n ≤ 255 then .ok { kind := .number, value := UInt8.ofNat n }
        else .error .operandRange) := by
  refine ⟨fun v => ⟨fun h => ?_, fun ⟨hr, h⟩ => ?_⟩, fun v h hr => ?_, fun hn => ?_,
    fun value? body n => Expansion.inRange_of_evaluate,
    fun n hr => ⟨?_, Operand.classify_natural hr⟩⟩
  case refine_1 =>
    have hs := spells_of_number h
    rw [hs.number_eq] at h
    split at h <;> cases h
    case isTrue hr => exact ⟨hr, hs⟩
  case refine_2 => rw [h.number_eq, if_pos hr]
  case refine_3 => rw [h.number_eq, if_neg hr]
  case refine_4 =>
    cases h : number word
    case ok v => exact absurd (spells_of_number h) (hn v)
    case error e =>
      obtain rfl | rfl := number_eq_error h
      · exact .inl rfl
      · exact .inr rfl
  case refine_5 => rw [(spells_natural n).number_eq, if_pos hr]

-- The least number in hexadecimal, the one behind the greatest, marks on both sides, and a value of
-- an expression that is no byte.
theorem number_exactly_spells_of_limits :
    let least := Text.ofString "0x-8000000000000000"
    let large := Text.ofString "0x8000000000000000"
    let mixed := Text.ofString "0o1b"
    number least = .ok (-0x8000000000000000) ∧ number large = .error .operandRange ∧
      (∃ e, number mixed = .error e) ∧
      Expansion.evaluate (Expression.value? fun _ => none) (Text.ofString "255+1") = .ok 256 ∧
      number (Numeral.natural 256) = .ok 256 ∧
      Operand.classify (Numeral.natural 256) = .error .operandRange := by
  intro least large mixed
  let hex (sign : Option Abstract.Sign) : Integer 16 :=
    ⟨sign, ⟨8, by decide, false⟩ :: List.replicate 15 ⟨0, by decide, false⟩, by simp⟩
  have hleast : Spells least (-0x8000000000000000) := Spells.hexadecimal (hex (some .minus))
  have hlarge : Spells large 0x8000000000000000 := Spells.hexadecimal (hex none)
  have hmixed (v : Int) : ¬Spells mixed v := by
    intro h
    have he : number mixed = .error (.notANumber mixed) := rfl
    rw [h.number_eq] at he
    split at he <;> cases he
  have hsum : Expansion.evaluate (Expression.value? fun _ => none) (Text.ofString "255+1") =
      .ok 256 := by
    decide +kernel
  obtain ⟨hiff, _⟩ := number_exactly_spells least
  obtain ⟨_, hrange, _⟩ := number_exactly_spells large
  obtain ⟨_, _, hnone, hvalue, hnatural⟩ := number_exactly_spells mixed
  refine ⟨(hiff _).mpr ⟨by decide, hleast⟩, hrange _ hlarge (by decide), ?_, hsum,
    hnatural 256 (hvalue _ _ _ hsum)⟩
  cases hnone hmixed
  case inl h => exact ⟨_, h⟩
  case inr h => exact ⟨_, h⟩

end Word

end ByteAsm
