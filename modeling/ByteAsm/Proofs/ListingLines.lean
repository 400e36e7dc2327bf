import Mathlib.Data.List.Basic
import ByteAsm.Listing
import ByteAsm.Proofs.Classification
import ByteAsm.Proofs.Pieces

namespace ByteAsm

theorem Text.width_of_isAscii {t : Text} (h : t.isAscii) : t.width = t.length := by
  rw [width, chars_of_isAscii h, List.length_map]

theorem Word.isAscii_of_isNumeric {c : UInt8} (h : isNumeric c) : Byte.isAscii c := by
  simp only [isNumeric, Bool.or_eq_true, beq_iff_eq] at h
  rcases h with (hd | rfl) | rfl
  case inl.inl => exact Byte.isAscii_of_isDigit hd
  case inl.inr => decide
  case inr => decide

namespace Numeral

open Abstract (Digit)

-- The number that digits in base sixteen stand for.
def hexValue (t : Text) : Nat :=
  t.foldl (fun value c => value * 16 + (digit? 16 c).getD 0) 0

theorem hexValue_bytes (ds : List (Digit 16)) : hexValue (ds.map Digit.byte) = Digit.total ds := by
  rw [hexValue, List.foldl_map, Digit.total]
  congr
  funext value d
  rw [d.digit?_byte (by decide), Option.getD_some]

theorem hexValue_zeros (k : Nat) (t : Text) :
    hexValue (List.replicate k '0'.toUInt8 ++ t) = hexValue t := by
  induction k
  case zero => rfl
  case succ k hi =>
    rw [List.replicate_succ, List.cons_append]
    exact hi

theorem exists_hexNatural (n : Nat) :
    ∃ ds : List (Digit 16), ds ≠ [] ∧ ds.map Digit.byte = hexNatural n ∧ Digit.total ds = n :=
  Digit.exists_toDigits (by decide) (by decide) true n

theorem hex_natCast (n : Nat) :
    hex n = List.replicate (2 - (hexNatural n).width) '0'.toUInt8 ++ hexNatural n :=
  if_neg (Int.not_lt_of_ge (Int.natCast_nonneg n))

theorem hexValue_hex (n : Nat) : hexValue (hex n) = n := by
  obtain ⟨ds, _, hd, ht⟩ := exists_hexNatural n
  rw [hex_natCast, hexValue_zeros, ←hd, hexValue_bytes, ht]

theorem isWord_of_mem_hexNatural {n : Nat} {c : UInt8} (h : c ∈ hexNatural n) : Byte.isWord c := by
  obtain ⟨ds, _, hd, _⟩ := exists_hexNatural n
  obtain ⟨d, _, he⟩ := List.mem_map.mp (hd ▸ h)
  exact he ▸ d.isWord_byte (by decide)

theorem isWord_of_mem_hex {n : Nat} {c : UInt8} (h : c ∈ hex n) : Byte.isWord c := by
  rw [hex_natCast] at h
  cases List.mem_append.mp h
  case inl h => exact List.eq_of_mem_replicate h ▸ by decide
  case inr h => exact isWord_of_mem_hexNatural h

theorem not_mem_hex {c : UInt8} (hc : ¬Byte.isWord c) (n : Nat) : c ∉ hex n :=
  fun h => hc (isWord_of_mem_hex h)

theorem length_hex_byte (b : UInt8) : (hex b.toNat).length = 2 := by
  have ha : (hexNatural b.toNat).isAscii := List.all_eq_true.mpr fun c hc =>
    Byte.isAscii_of_isWord (isWord_of_mem_hexNatural hc)
  have hl : (hexNatural b.toNat).length ≤ 2 := by
    rw [hexNatural, List.length_map]
    exact (Nat.length_toDigits_le_iff (by decide) (by decide)).mpr b.toNat_lt
  rw [hex_natCast, List.length_append, List.length_replicate, Text.width_of_isAscii ha]
  omega

theorem isNumeric_of_mem_decimal {n : Int} {c : UInt8} (h : c ∈ decimal n) : Word.isNumeric c := by
  unfold decimal signed at h
  split at h
  case isTrue =>
    cases List.mem_cons.mp h
    case inl h => exact h ▸ by decide
    case inr h => exact Word.isNumeric_of_isDigit (isDigit_of_mem_natural h)
  case isFalse => exact Word.isNumeric_of_isDigit (isDigit_of_mem_natural h)

end Numeral

-- The first of several equal bytes tells where a text is cut.
theorem Text.append_cons_inj {c : UInt8} {s s' t t' : Text} (hs : c ∉ s) (hs' : c ∉ s')
    (h : s ++ c :: t = s' ++ c :: t') : s = s' ∧ t = t' := by
  have front {s : Text} (hs : c ∉ s) (t : Text) : (s ++ c :: t).takeWhile (· != c) = s :=
    takeWhile_append_of_stop (fun b hb => bne_iff_ne.mpr fun he => hs (he ▸ hb)) (by simp)
  have he : s = s' := by rw [←front hs t, h, front hs']
  subst he
  exact ⟨rfl, (List.cons.inj (List.append_cancel_left h)).right⟩

theorem blank_not_mem_hex (n : Nat) : ' '.toUInt8 ∉ Numeral.hex n :=
  Numeral.not_mem_hex (by decide) n

-- The first blank ends a number, however many digits it has.
theorem hex_append_inj {n m : Nat} {s t : Text}
    (h : Numeral.hex n ++ ' '.toUInt8 :: s = Numeral.hex m ++ ' '.toUInt8 :: t) :
    n = m ∧ s = t := by
  obtain ⟨hh, ht⟩ := Text.append_cons_inj (blank_not_mem_hex n) (blank_not_mem_hex m) h
  have hv := congrArg Numeral.hexValue hh
  rw [Numeral.hexValue_hex, Numeral.hexValue_hex] at hv
  exact ⟨hv, ht⟩

-- Two digits for each byte, with blanks between them.
def pairs (bytes : List UInt8) : Text :=
  Text.join (Text.ofString " ") (bytes.map fun b => Numeral.hex b.toNat)

-- The text does not go on with a pair of digits and a blank.
def NoPair (t : Text) : Prop :=
  ∀ a b rest, t = a :: b :: ' '.toUInt8 :: rest → a = ' '.toUInt8

variable {b : UInt8} {bs cs : List UInt8} {s t : Text}

theorem pairs_singleton (b : UInt8) : pairs [b] = Numeral.hex b.toNat := by
  simp [pairs, Text.join, List.intercalate]

theorem pairs_cons_cons (b c : UInt8) (bs : List UInt8) :
    pairs (b :: c :: bs) = Numeral.hex b.toNat ++ ' '.toUInt8 :: pairs (c :: bs) := by
  simp [pairs, Text.join, List.intercalate]
  rfl

-- The first pair has a blank behind it, and the other pairs or the text follow.
theorem exists_pairs_cons (b : UInt8) (bs : List UInt8) (t : Text) :
    ∃ rest, pairs (b :: bs) ++ ' '.toUInt8 :: t = Numeral.hex b.toNat ++ ' '.toUInt8 :: rest ∧
      (bs = [] ∧ rest = t ∨ bs ≠ [] ∧ rest = pairs bs ++ ' '.toUInt8 :: t) := by
  cases bs
  case nil => exact ⟨t, by rw [pairs_singleton], .inl ⟨rfl, rfl⟩⟩
  case cons c bs =>
    refine ⟨_, ?_, .inr ⟨List.cons_ne_nil _ _, rfl⟩⟩
    rw [pairs_cons_cons, List.append_assoc, List.cons_append]

theorem NoPair.ne_pairs (hs : NoPair s) (hb : bs ≠ []) : s ≠ pairs bs ++ ' '.toUInt8 :: t := by
  intro h
  cases bs
  case nil => exact hb rfl
  case cons b bs =>
    obtain ⟨rest, he, _⟩ := exists_pairs_cons b bs t
    obtain ⟨x, y, hxy⟩ := List.length_eq_two.mp (Numeral.length_hex_byte b)
    have hx : x = ' '.toUInt8 := hs x y rest (by rw [h, he, hxy]; rfl)
    exact blank_not_mem_hex b.toNat (by rw [hxy, hx]; exact List.mem_cons_self)

-- A further byte shows as two digits with a blank behind them, which nothing else looks like there.
theorem pairs_inj (hb : bs ≠ []) (hc : cs ≠ []) (hs : NoPair s) (ht : NoPair t)
    (h : pairs bs ++ ' '.toUInt8 :: s = pairs cs ++ ' '.toUInt8 :: t) : bs = cs := by
  induction bs generalizing cs
  case nil => exact absurd rfl hb
  case cons b bs hi =>
    cases cs
    case nil => exact absurd rfl hc
    case cons c cs =>
      obtain ⟨x, hx, hbs⟩ := exists_pairs_cons b bs s
      obtain ⟨y, hy, hcs⟩ := exists_pairs_cons c cs t
      rw [hx, hy] at h
      obtain ⟨he, hxy⟩ := hex_append_inj h
      cases UInt8.toNat_inj.mp he
      subst hxy
      rcases hbs with ⟨hb, hs'⟩ | ⟨hb, hs'⟩ <;> rcases hcs with ⟨hc, ht'⟩ | ⟨hc, ht'⟩
      case inl.inl => rw [hb, hc]
      case inl.inr => exact absurd (hs'.symm.trans ht') (hs.ne_pairs hc)
      case inr.inl => exact absurd (ht'.symm.trans hs') (ht.ne_pairs hb)
      case inr.inr => rw [hi hb hc (hs'.symm.trans ht')]

namespace Record

variable {r r' : Record}

-- What follows the blank behind the bytes, up to the end of the line.
def remainder (r : Record) : Text :=
  List.replicate (9 - (pairs r.bytes).width) ' '.toUInt8 ++
    (Text.padStart 4 ' ' (Numeral.decimal (Numeral.wrap (r.line + 1))) ++ Text.ofString "  " ++
      Text.padEnd 24 r.source ++ Text.ofString " ; " ++ r.description)

theorem listing_eq (r : Record) :
    r.listing = Numeral.hex r.ip ++ ' '.toUInt8 :: ' '.toUInt8 ::
      (pairs r.bytes ++ ' '.toUInt8 :: r.remainder) ++ ['\n'.toUInt8] := by
  have hc (k : Nat) (t : Text) : List.replicate k ' '.toUInt8 ++ ' '.toUInt8 :: t =
      ' '.toUInt8 :: (List.replicate k ' '.toUInt8 ++ t) := by
    rw [←List.cons_append, ←List.replicate_succ, List.replicate_succ', List.append_assoc]
    rfl
  have hb : Text.ofString "  " = [' '.toUInt8, ' '.toUInt8] := rfl
  simp only [listing, remainder, Text.padEnd, hb, List.append_assoc, List.cons_append,
    List.nil_append, hc]
  rfl

-- A number of up to three digits has a blank before it, and the third byte of others is no blank.
theorem noPair_number (n : Int) (t : Text) :
    NoPair (Text.padStart 4 ' ' (Numeral.decimal n) ++ t) := by
  have hn : ∀ c ∈ Numeral.decimal n, Word.isNumeric c := fun c => Numeral.isNumeric_of_mem_decimal
  have ha : (Numeral.decimal n).isAscii :=
    List.all_eq_true.mpr fun c hc => Word.isAscii_of_isNumeric (hn c hc)
  intro a b rest h
  rw [Text.padStart, Text.width_of_isAscii ha] at h
  cases hk : 4 - (Numeral.decimal n).length
  case succ k =>
    rw [hk, List.replicate_succ, List.cons_append] at h
    exact (List.cons.inj h).left.symm
  case zero =>
    rw [hk, List.replicate_zero, List.nil_append] at h
    have h₂ : (Numeral.decimal n ++ t)[2]? = some ' '.toUInt8 := by
      rw [h]
      rfl
    rw [List.getElem?_append_left (by omega)] at h₂
    exact absurd (hn _ (List.mem_of_getElem? h₂)) (by decide)

theorem noPair_remainder (r : Record) : NoPair r.remainder := by
  unfold remainder
  cases 9 - (pairs r.bytes).width
  case zero =>
    simp only [List.append_assoc]
    exact noPair_number _ _
  case succ k =>
    intro a b rest h
    rw [List.replicate_succ, List.cons_append] at h
    exact (List.cons.inj h).left.symm

theorem bytes_of_listing_eq (hi : 0 ≤ r.ip) (hi' : 0 ≤ r'.ip) (hb : r.bytes ≠ [])
    (hb' : r'.bytes ≠ []) (h : r.listing = r'.listing) : r.bytes = r'.bytes := by
  rw [listing_eq, listing_eq, ←Int.toNat_of_nonneg hi, ←Int.toNat_of_nonneg hi'] at h
  obtain ⟨_, h⟩ := hex_append_inj (List.append_cancel_right h)
  exact pairs_inj hb hb' r.noPair_remainder r'.noPair_remainder (List.cons.inj h).right

theorem lt_count_listing (r : Record) : 2 < r.listing.count ' '.toUInt8 := by
  rw [listing_eq]
  simp only [List.count_append, List.count_cons_self]
  omega

end Record

theorem labelListing_eq (entry : Text × Int) : labelListing entry =
    Numeral.hex entry.2 ++ ' '.toUInt8 :: ' '.toUInt8 :: entry.1 ++ ['\n'.toUInt8] := by
  simp [labelListing]
  rfl

theorem labelListing_inj {x y : Text × Int} (hx : 0 ≤ x.2) (hy : 0 ≤ y.2)
    (h : labelListing x = labelListing y) : x = y := by
  rw [labelListing_eq, labelListing_eq, ←Int.toNat_of_nonneg hx, ←Int.toNat_of_nonneg hy] at h
  obtain ⟨hn, ht⟩ := hex_append_inj (List.append_cancel_right h)
  exact Prod.ext (List.cons.inj ht).right (by omega)

theorem count_labelListing {entry : Text × Int} (hl : Word.isLabel entry.1) (ho : 0 ≤ entry.2) :
    (labelListing entry).count ' '.toUInt8 = 2 := by
  have hn : ' '.toUInt8 ∉ entry.1 := Word.not_mem_of_isLabel hl (by decide) (by decide)
  have hl : ['\n'.toUInt8].count ' '.toUInt8 = 0 := by decide
  rw [labelListing_eq, ←Int.toNat_of_nonneg ho]
  simp only [List.count_append, List.count_cons_self, List.count_eq_zero.mpr hn, hl,
    List.count_eq_zero.mpr (blank_not_mem_hex entry.2.toNat)]

end ByteAsm
