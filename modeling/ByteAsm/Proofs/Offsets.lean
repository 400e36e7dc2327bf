import ByteAsm.Proofs.NumberWords

namespace ByteAsm

open Abstract (Sign Integer)
open Numeral (InRange)

theorem Register.id_injective {r r' : Register} : r.id = r'.id → r = r' := by
  cases r <;> cases r' <;> decide

namespace Word

-- A text in upper case that adds an offset to a register.
inductive Displaces : Text → Register → Int → Prop
  | mk (r : Register) (s : Sign) (n : Integer 10) :
    Displaces (r.name ++ s.byte :: n.text) r (s.apply n.value)

-- What can be read back from a byte: the register, and the offset in two's complement.
structure Holds (e : UInt8) (r : Register) (o : Int) : Prop where
  register : e.toNat % 8 = r.id.toNat
  offset   : (BitVec.ofNat 5 (e.toNat / 8)).toInt = o

variable {word rest : Text} {r r' : Register} {o o' : Int} {e e' : UInt8}

theorem toNat_encodeOffset (o : Int) (r : Register) :
    (encodeOffset o r).toNat = (o % 32).toNat * 8 + r.id.toNat := by
  have hr : r.id.toNat < 8 := by cases r <;> decide
  have ho : (o % 32).toNat < 32 := by omega
  rw [encodeOffset, UInt8.toNat_add, UInt8.toNat_ofNat']
  omega

theorem holds_encodeOffset (r : Register) (hl : -16 ≤ o) (hu : o ≤ 15) :
    Holds (encodeOffset o r) r o := by
  have hr : r.id.toNat < 8 := by cases r <;> decide
  have hn := toNat_encodeOffset o r
  constructor
  case register => omega
  case offset =>
    have hd : (encodeOffset o r).toNat / 8 = (o % 32).toNat := by omega
    have hc : ((o % 32).toNat : Int) = o % 32 := Int.toNat_of_nonneg (by omega)
    rw [hd, BitVec.toInt_ofNat', hc]
    calc
      (o % 32).bmod (2 ^ 5) = o.bmod 32 := Int.emod_bmod o 32
      _ = o := Int.bmod_eq_of_le (by omega) (by omega)

theorem Holds.unique (h : Holds e r o) (h' : Holds e r' o') : r = r' ∧ o = o' := by
  have hid : r.id = r'.id := UInt8.toNat_inj.mp (h.register.symm.trans h'.register)
  exact ⟨Register.id_injective hid, h.offset.symm.trans h'.offset⟩

theorem Holds.byte_unique (h : Holds e r o) (h' : Holds e' r o) : e = e' := by
  have hm : e.toNat % 8 = e'.toNat % 8 := h.register.trans h'.register.symm
  have hb : BitVec.ofNat 5 (e.toNat / 8) = BitVec.ofNat 5 (e'.toNat / 8) :=
    BitVec.eq_of_toInt_eq (h.offset.trans h'.offset.symm)
  have hd := congrArg BitVec.toNat hb
  rw [BitVec.toNat_ofNat, BitVec.toNat_ofNat] at hd
  have h₁ := e.toNat_lt
  have h₂ := e'.toNat_lt
  exact UInt8.toNat_inj.mp (by omega)

theorem base?_eq_some (h : base? word = some (r, rest)) : word = r.name ++ rest := by
  obtain ⟨r', _, hd⟩ := List.exists_of_findSome?_eq_some h
  obtain ⟨rest', hs, he⟩ := Option.map_eq_some_iff.mp hd
  cases he
  exact Text.eq_of_dropStart? hs

-- The offset is a 64-bit word whatever its sign. One negative is none, and wraps.
theorem wrap_apply {v : Int} (s : Sign) (h : InRange v) :
    Numeral.wrap (s.apply v) = s.apply v ∨
      s.apply v = 0x8000000000000000 ∧ Numeral.wrap (s.apply v) = -0x8000000000000000 := by
  cases s
  case plus => exact .inl (Numeral.wrap_of_inRange h)
  case minus =>
    by_cases hv : v = -0x8000000000000000
    case pos =>
      subst hv
      exact .inr ⟨rfl, by decide⟩
    case neg =>
      unfold InRange at h
      exact .inl (Numeral.wrap_of_inRange (v := -v) ⟨by omega, by omega⟩)

theorem offset?_of_sign {s : Sign} (h : word.upper = r.name ++ s.byte :: rest) :
    offset? word = some (offset?.encode word r
      ((Numeral.read 10 rest).map fun v => Numeral.wrap (s.apply v))) := by
  unfold offset?
  rw [h, base?_append]
  cases s
  case minus => rfl
  case plus =>
    have hr : (Numeral.read 10 rest).map (fun v => Numeral.wrap (Sign.plus.apply v)) =
        Numeral.read 10 rest := by
      cases hv : Numeral.read 10 rest
      case error => rfl
      case ok v =>
        obtain ⟨_, _, _, hr⟩ := (Integer.read_eq_ok_iff (by decide)).mp hv
        rw [Except.map, Sign.apply, Numeral.wrap_of_inRange hr]
    rw [hr]
    rfl

-- A register and a sign are enough for a word to be taken or refused as one with an offset.
theorem offset?_eq_none_iff : offset? word = none ↔
    ¬∃ (r : Register) (s : Sign) (rest : Text), word.upper = r.name ++ s.byte :: rest := by
  constructor
  case mp =>
    rintro h ⟨r, s, rest, hu⟩
    rw [offset?_of_sign hu] at h
    contradiction
  case mpr =>
    intro h
    unfold offset?
    split
    case h_2 => rfl
    case h_1 r c rest hb =>
      have hu := base?_eq_some hb
      split
      case isTrue hc =>
        rw [eq_of_beq hc] at hu
        exact absurd ⟨r, .plus, rest, hu⟩ h
      case isFalse =>
        split
        case isTrue hc =>
          rw [eq_of_beq hc] at hu
          exact absurd ⟨r, .minus, rest, hu⟩ h
        case isFalse => rfl

theorem Displaces.offset?_eq (h : Displaces word.upper r o) : offset? word =
    some (if -16 ≤ o ∧ o ≤ 15 then .ok (encodeOffset o r) else .error .offsetRange) := by
  generalize ht : word.upper = t at h
  cases h
  case mk s n =>
    rw [offset?_of_sign ht, n.read_text (by decide)]
    split
    case isTrue hr =>
      rw [Except.map]
      obtain hw | ⟨hv, hw⟩ := wrap_apply s hr
      case inl => rw [hw, offset?.encode]
      case inr => rw [hw, hv, offset?.encode, if_neg (by decide), if_neg (by decide)]
    case isFalse hr =>
      have ho : ¬(-16 ≤ s.apply n.value ∧ s.apply n.value ≤ 15) := by
        unfold InRange at hr
        cases s <;> simp only [Sign.apply] <;> omega
      rw [if_neg ho, Except.map, offset?.encode]

theorem exists_of_offset? (h : offset? word = some (.ok e)) :
    ∃ r o, Displaces word.upper r o := by
  by_cases hs : ∃ (r : Register) (s : Sign) (rest : Text), word.upper = r.name ++ s.byte :: rest
  case neg =>
    rw [offset?_eq_none_iff.mpr hs] at h
    contradiction
  case pos =>
    obtain ⟨r, s, rest, hu⟩ := hs
    rw [offset?_of_sign hu] at h
    cases hv : Numeral.read 10 rest
    case error fault =>
      rw [hv] at h
      cases fault <;> cases h
    case ok v =>
      obtain ⟨n, rfl⟩ := Integer.exists_of_read hv
      exact ⟨r, _, hu ▸ Displaces.mk r s n⟩

theorem offset?_eq_ok_iff : offset? word = some (.ok e) ↔
    ∃ r o, Displaces word.upper r o ∧ -16 ≤ o ∧ o ≤ 15 ∧ Holds e r o := by
  constructor
  case mp =>
    intro h
    obtain ⟨r, o, hd⟩ := exists_of_offset? h
    rw [hd.offset?_eq] at h
    split at h <;> cases h
    case isTrue ho => exact ⟨r, o, hd, ho.left, ho.right, holds_encodeOffset r ho.left ho.right⟩
  case mpr =>
    rintro ⟨r, o, hd, hl, hu, hb⟩
    rw [hd.offset?_eq, if_pos ⟨hl, hu⟩, hb.byte_unique (holds_encodeOffset r hl hu)]

-- The byte tells words with different registers or offsets apart, however they are spelled.
theorem offset?_exactly_displaces (word : Text) :
    (∀ e, offset? word = some (.ok e) ↔
      ∃ r o, Displaces word.upper r o ∧ -16 ≤ o ∧ o ≤ 15 ∧ Holds e r o) ∧
    (∀ word' e r o r' o', offset? word = some (.ok e) → offset? word' = some (.ok e) →
      Displaces word.upper r o → Displaces word'.upper r' o' → r = r' ∧ o = o') ∧
    (∀ r o, Displaces word.upper r o → ¬(-16 ≤ o ∧ o ≤ 15) →
      offset? word = some (.error .offsetRange)) ∧
    (offset? word = none ↔
      ¬∃ (r : Register) (s : Sign) (rest : Text), word.upper = r.name ++ s.byte :: rest) := by
  have hholds {word : Text} {e : UInt8} {r : Register} {o : Int}
      (h : offset? word = some (.ok e)) (hd : Displaces word.upper r o) : Holds e r o := by
    rw [hd.offset?_eq] at h
    split at h <;> cases h
    case isTrue ho => exact holds_encodeOffset r ho.left ho.right
  refine ⟨fun e => offset?_eq_ok_iff, fun word' e r o r' o' h h' hd hd' => ?_, fun r o hd ho => ?_,
    offset?_eq_none_iff⟩
  case refine_1 => exact (hholds h hd).unique (hholds h' hd')
  case refine_2 => rw [hd.offset?_eq, if_neg ho]

-- The first letter of the first word has its upper case in ASCII, and the second word writes the
-- same offset in another way. The negative of the third offset is no 64-bit word.
theorem offset?_exactly_displaces_of_spellings :
    let word := Text.ofString "ſp-03"
    let other := Text.ofString "Sp+-3"
    let least := Text.ofString "a--9223372036854775808"
    offset? word = some (.ok 236) ∧ offset? other = some (.ok 236) ∧
      (∀ r o, Displaces other.upper r o → r = .sp ∧ o = -3) ∧
      offset? least = some (.error .offsetRange) := by
  intro word other least
  let number (sign : Option Sign) (d : Fin 10) (ds : List (Fin 10)) : Integer 10 :=
    ⟨sign, (d :: ds).map fun (d : Fin 10) => ⟨d.val, d.isLt, false⟩, by simp⟩
  have hword : Displaces word.upper .sp (-3) := by
    have hu : word.upper = Register.sp.name ++ Sign.minus.byte :: (number none 0 [3]).text := by
      decide +kernel
    rw [hu]
    exact .mk .sp .minus (number none 0 [3])
  have hother : Displaces other.upper .sp (-3) :=
    .mk .sp .plus (number (some .minus) 3 [])
  have hleast : Displaces least.upper .a 9223372036854775808 :=
    .mk .a .minus
      (number (some .minus) 9 [2, 2, 3, 3, 7, 2, 0, 3, 6, 8, 5, 4, 7, 7, 5, 8, 0, 8])
  have hholds : Holds 236 .sp (-3) := ⟨by decide, by decide⟩
  obtain ⟨hiff, hsame, _⟩ := offset?_exactly_displaces word
  obtain ⟨hiff', _⟩ := offset?_exactly_displaces other
  obtain ⟨_, _, hrange, _⟩ := offset?_exactly_displaces least
  have h := (hiff 236).mpr ⟨.sp, -3, hword, by decide, by decide, hholds⟩
  have h' := (hiff' 236).mpr ⟨.sp, -3, hother, by decide, by decide, hholds⟩
  refine ⟨h, h', fun r o hd => ?_, hrange _ _ hleast (by decide)⟩
  obtain ⟨hr, ho⟩ := hsame other 236 .sp (-3) r o h h' hword hd
  exact ⟨hr.symm, ho.symm⟩

end Word

end ByteAsm
