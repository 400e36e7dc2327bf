import ByteAsm.Proofs.Arguments

namespace ByteAsm

namespace Text

-- Text and its characters: a byte is a replacement character where no character is encoded.
inductive Decodes : Text → List Char → Prop
  | nil : Decodes [] []
  | char (c : Char) {t : Text} {cs : List Char} :
    Decodes t cs → Decodes (String.utf8EncodeChar c ++ t) (c :: cs)
  | stray {b : UInt8} {t : Text} {cs : List Char} :
    (∀ c, ¬String.utf8EncodeChar c <+: b :: t) → Decodes t cs → Decodes (b :: t) (replacement :: cs)

variable {b : UInt8} {t rest : Text} {c : Char} {cs : List Char}

theorem chars_cons (b : UInt8) (rest : Text) : chars (b :: rest) =
    (firstPiece b rest).1.toChar :: chars (rest.drop (firstPiece b rest).2) := by
  rw [chars, pieces, pieces.go, pieces_go_skip, pieces_go_done]
  rfl

theorem sequence_eq_stray {n start least m : Nat} {b' : UInt8}
    (h : firstPiece.sequence b rest n start least = (.stray b', m)) : m = 0 := by
  unfold firstPiece.sequence at h
  split at h
  case h_2 =>
    cases h
    rfl
  case h_1 =>
    split at h <;> cases h
    rfl

theorem firstPiece_eq_stray {b' : UInt8} {n : Nat} (h : firstPiece b rest = (.stray b', n)) :
    n = 0 := by
  simp only [firstPiece] at h
  split at h
  case isTrue => cases h
  case isFalse =>
    split at h
    case isTrue =>
      cases h
      rfl
    case isFalse =>
      split at h
      case isTrue => exact sequence_eq_stray h
      case isFalse => split at h <;> exact sequence_eq_stray h

-- A stray byte is one at which no character is encoded.
theorem firstPiece_of_not_isPrefix (h : ∀ c, ¬String.utf8EncodeChar c <+: b :: rest) :
    (firstPiece b rest).1.toChar = replacement ∧ (firstPiece b rest).2 = 0 := by
  cases hp : firstPiece b rest
  case mk piece n =>
    cases piece
    case char c => exact absurd ⟨_, (encode_of_firstPiece hp).symm⟩ (h c)
    case stray => exact ⟨rfl, firstPiece_eq_stray hp⟩

theorem not_isPrefix_of_stray {b' : UInt8} {n : Nat} (h : firstPiece b rest = (.stray b', n))
    (c : Char) : ¬String.utf8EncodeChar c <+: b :: rest := by
  intro ⟨rest', he⟩
  obtain ⟨b₁, bs, hb, hp⟩ := firstPiece_encode c rest'
  rw [hb, List.cons_append, List.cons.injEq] at he
  obtain ⟨rfl, rfl⟩ := he
  simp [hp] at h

theorem Decodes.chars_eq (h : Decodes t cs) : t.chars = cs := by
  induction h
  case nil => rfl
  case char c t cs _ hi =>
    rw [chars, pieces_encode_append, List.map_cons]
    exact congrArg (c :: ·) hi
  case stray b t cs hn _ hi =>
    obtain ⟨hc, hz⟩ := firstPiece_of_not_isPrefix hn
    rw [chars_cons, hc, hz, List.drop_zero, hi]

theorem decodes_chars (t : Text) : Decodes t t.chars := by
  match t with
  | [] => exact .nil
  | b :: rest =>
    have hi := decodes_chars (rest.drop (firstPiece b rest).2)
    cases hp : firstPiece b rest
    case mk piece n =>
      rw [hp] at hi
      rw [chars_cons, hp]
      cases piece
      case char c =>
        rw [encode_of_firstPiece hp]
        exact .char c hi
      case stray b' =>
        rw [firstPiece_eq_stray hp] at hi ⊢
        exact .stray (not_isPrefix_of_stray hp) hi
termination_by t.length
decreasing_by
  rw [List.length_drop, List.length_cons]
  omega

-- Text is well formed where no replacement character is read.
theorem Decodes.eq_ofChars (h : Decodes t cs) (hr : replacement ∉ cs) : t = ofChars cs := by
  induction h
  case nil => rfl
  case char c t cs _ hi =>
    rw [hi (List.not_mem_of_not_mem_cons hr)]
    rfl
  case stray => exact absurd List.mem_cons_self hr

-- A character counts twice if it is written as a pair of surrogates.
def utf16Length (cs : List Char) : Nat :=
  cs.length + cs.countP fun c => decide (0x10000 ≤ c.toNat)

theorem length_units (t : Text) : t.units.length = utf16Length t.chars := by
  rw [units]
  induction t.chars
  case nil => rfl
  case cons c cs hi =>
    rw [List.flatMap_cons, List.length_append, hi]
    simp only [utf16Length, List.length_cons, List.countP_cons, codeUnits, decide_eq_true_eq]
    by_cases hc : c.toNat < 0x10000
    case pos =>
      rw [if_pos hc, if_neg (Nat.not_le_of_lt hc), List.length_singleton]
      omega
    case neg =>
      rw [if_neg hc, if_pos (Nat.le_of_not_lt hc), List.length_cons, List.length_singleton]
      omega

-- A surrogate does not fit a byte, so the units do exactly if the characters do.
theorem units_le_iff (t : Text) : (∀ u ∈ t.units, u ≤ 255) ↔ ∀ c ∈ t.chars, c.toNat ≤ 255 := by
  have hc (c : Char) : (∀ u ∈ codeUnits c, u ≤ 255) ↔ c.toNat ≤ 255 := by
    unfold codeUnits
    split
    case isTrue => rw [List.forall_mem_singleton]
    case isFalse =>
      rw [List.forall_mem_cons]
      omega
  simp only [units, List.forall_mem_flatMap, hc]

-- Text that encodes characters, of which each fits a byte.
structure Latin (t : Text) (cs : List Char) : Prop where
  nonempty : cs ≠ []
  encoded  : t = ofChars cs
  narrow   : ∀ c ∈ cs, c.toNat ≤ 255

theorem latin_iff : Latin t cs ↔ t ≠ [] ∧ t.chars = cs ∧ ∀ u ∈ t.units, u ≤ 255 := by
  rw [units_le_iff]
  constructor
  case mp =>
    intro h
    have hc : t.chars = cs := h.encoded ▸ chars_ofChars cs
    refine ⟨fun hn => h.nonempty ?_, hc, hc ▸ h.narrow⟩
    rw [←hc, hn]
    rfl
  case mpr =>
    intro ⟨hn, hc, hu⟩
    subst hc
    have hr : replacement ∉ t.chars := fun hm => absurd (hu _ hm) (by decide)
    have he := (decodes_chars t).eq_ofChars hr
    exact ⟨fun h => hn (by rw [he, h]; rfl), he, hu⟩

theorem latin_singleton_iff : Latin t [c] ↔ c.toNat ≤ 255 ∧ t = String.utf8EncodeChar c := by
  have he : ofChars [c] = String.utf8EncodeChar c := List.flatMap_singleton _ c
  refine ⟨fun h => ⟨?_, ?_⟩, fun ⟨hn, ht⟩ => ⟨?_, ?_, ?_⟩⟩
  · exact h.narrow c List.mem_cons_self
  · exact h.encoded.trans he
  · exact List.cons_ne_nil _ _
  · exact ht.trans he.symm
  · exact List.forall_mem_singleton.mpr hn

theorem Latin.units_eq (h : Latin t cs) : t.units = cs.map Char.toNat := by
  have hu : cs.map codeUnits = cs.map fun c => [c.toNat] := by
    refine List.map_congr_left fun c hc => ?_
    have hn := h.narrow c hc
    rw [codeUnits, if_pos (by omega)]
  rw [units, h.encoded, chars_ofChars, List.flatMap_def, hu, ←List.flatMap_def]
  exact List.map_eq_flatMap.symm

def latinBytes (cs : List Char) : List UInt8 :=
  cs.map fun c => UInt8.ofNat c.toNat

-- The text of characters that are given by a byte each.
def ofLatin (bs : List UInt8) : Text :=
  ofChars (bs.map Char.ofUInt8)

theorem ofNat_toNat_ofUInt8 (b : UInt8) : UInt8.ofNat (Char.ofUInt8 b).toNat = b :=
  UInt8.ofNat_toNat

theorem latinBytes_map_ofUInt8 (bs : List UInt8) : latinBytes (bs.map Char.ofUInt8) = bs := by
  simp [latinBytes, Function.comp_def, ofNat_toNat_ofUInt8]

theorem ofUInt8_not_mem_map {b : UInt8} {bs : List UInt8} (h : b ∉ bs) :
    Char.ofUInt8 b ∉ bs.map Char.ofUInt8 := by
  intro hm
  obtain ⟨b', hm, he⟩ := List.mem_map.mp hm
  rw [←ofNat_toNat_ofUInt8 b, ←he, ofNat_toNat_ofUInt8] at h
  exact h hm

theorem Latin.ofLatin_latinBytes (h : Latin t cs) : ofLatin (latinBytes cs) = t := by
  have hc : ∀ c ∈ cs, Char.ofUInt8 (UInt8.ofNat c.toNat) = c := by
    intro c hm
    have hn := h.narrow c hm
    have ht := toNat_ofNat_add (k := c.toNat) (m := 0) (by omega)
    refine Char.toNat_inj.mp ?_
    exact ht
  rw [ofLatin, latinBytes, List.map_map, h.encoded]
  congr 1
  exact (List.map_congr_left hc).trans (List.map_id cs)

-- A text in quotes.
def inQuotes (q : Char) (t : Text) : Text :=
  q.toUInt8 :: (t ++ [q.toUInt8])

end Text

namespace Operand

open Text (inQuotes Latin latinBytes utf16Length)

variable {t : Text} {cs : List Char} {op : Operand}

theorem classify_empty_quotes {q : Char} (hq : q = '"' ∨ q = '\'') :
    classify (inQuotes q []) = .error .malformed := by
  rcases hq with rfl | rfl <;> rfl

theorem classify_latin (h : Latin t cs) :
    classify (inQuotes '"' t) = .ok { kind := .numbers, values := latinBytes cs } := by
  obtain ⟨hn, -, hu⟩ := Text.latin_iff.mp h
  have ha : t.units.all (· ≤ 255) := List.all_eq_true.mpr fun u hm => decide_eq_true (hu u hm)
  rw [inQuotes, classify_string hn, ofString, unitBytes, if_pos ha, h.units_eq, List.map_map]
  rfl

theorem classify_not_latin (hn : t ≠ []) (h : ∀ cs, ¬Latin t cs) :
    classify (inQuotes '"' t) = .error .operandRange := by
  have ha : ¬t.units.all (· ≤ 255) := by
    intro ha
    refine h t.chars (Text.latin_iff.mpr ⟨hn, rfl, fun u hu => ?_⟩)
    exact of_decide_eq_true (List.all_eq_true.mp ha u hu)
  rw [inQuotes, classify_string hn, ofString, unitBytes, if_neg ha]
  rfl

-- A string is empty, or it is made of characters that fit a byte, or it is not.
theorem classify_string_cases (t : Text) :
    t = [] ∧ classify (inQuotes '"' t) = .error .malformed ∨
    (∃ cs, Latin t cs ∧
      classify (inQuotes '"' t) = .ok { kind := .numbers, values := latinBytes cs }) ∨
    t ≠ [] ∧ (∀ cs, ¬Latin t cs) ∧ classify (inQuotes '"' t) = .error .operandRange := by
  by_cases hn : t = []
  case pos =>
    subst hn
    exact .inl ⟨rfl, classify_empty_quotes (.inl rfl)⟩
  case neg =>
    by_cases hl : ∃ cs, Latin t cs
    case pos =>
      obtain ⟨cs, hl⟩ := hl
      exact .inr (.inl ⟨cs, hl, classify_latin hl⟩)
    case neg =>
      have hl : ∀ cs, ¬Latin t cs := not_exists.mp hl
      exact .inr (.inr ⟨hn, hl, classify_not_latin hn hl⟩)

theorem classify_string_iff : classify (inQuotes '"' t) = .ok op ↔
    ∃ cs, Latin t cs ∧ op = { kind := .numbers, values := latinBytes cs } := by
  refine ⟨fun h => ?_, fun ⟨cs, hl, ho⟩ => ho ▸ classify_latin hl⟩
  rcases classify_string_cases t with ⟨-, he⟩ | ⟨cs, hl, he⟩ | ⟨-, -, he⟩ <;> cases he.symm.trans h
  exact ⟨cs, hl, rfl⟩

theorem classify_string_malformed_iff :
    classify (inQuotes '"' t) = .error .malformed ↔ t = [] := by
  refine ⟨fun h => ?_, fun hn => hn ▸ classify_empty_quotes (.inl rfl)⟩
  rcases classify_string_cases t with ⟨hn, he⟩ | ⟨cs, -, he⟩ | ⟨-, -, he⟩ <;> cases he.symm.trans h
  exact hn

theorem classify_string_range_iff :
    classify (inQuotes '"' t) = .error .operandRange ↔ t ≠ [] ∧ ∀ cs, ¬Latin t cs := by
  refine ⟨fun h => ?_, fun ⟨hn, hl⟩ => classify_not_latin hn hl⟩
  rcases classify_string_cases t with ⟨-, he⟩ | ⟨cs, -, he⟩ | ⟨hn, hl, he⟩ <;> cases he.symm.trans h
  exact ⟨hn, hl⟩

theorem classify_character_iff : classify (inQuotes '\'' t) = .ok op ↔
    ∃ c, Latin t [c] ∧ op = { kind := .number, value := UInt8.ofNat c.toNat } := by
  by_cases hn : t = []
  case pos =>
    subst hn
    rw [classify_empty_quotes (.inr rfl)]
    refine ⟨nofun, fun ⟨cs, hl, _⟩ => ?_⟩
    exact absurd rfl (Text.latin_iff.mp hl).left
  case neg =>
    rw [inQuotes, classify_character hn]
    constructor
    case mp =>
      intro h
      unfold ofCharacter at h
      split at h <;> try contradiction
      case h_1 unit hu =>
        split at h <;> cases h
        case isTrue.refl hle =>
          have hl : Latin t t.chars := Text.latin_iff.mpr ⟨hn, rfl, by simpa [hu] using hle⟩
          have hm := hl.units_eq.symm.trans hu
          obtain ⟨c, hc, he⟩ := List.map_eq_singleton_iff.mp hm
          exact ⟨c, hc ▸ hl, he ▸ rfl⟩
    case mpr =>
      intro ⟨c, hl, ho⟩
      rw [ofCharacter, hl.units_eq, ho]
      exact if_pos (hl.narrow c List.mem_cons_self)

theorem classify_character_count_iff : classify (inQuotes '\'' t) = .error .characterCount ↔
    t ≠ [] ∧ utf16Length t.chars ≠ 1 := by
  by_cases hn : t = []
  case pos =>
    subst hn
    simp [classify_empty_quotes]
  case neg =>
    rw [inQuotes, classify_character hn, ←Text.length_units, ofCharacter]
    split
    case h_1 unit hu =>
      simp only [hu]
      split <;> simp
    case h_2 hu =>
      simp only [ne_eq, hn, not_false_eq_true, true_and, true_iff]
      intro hl
      obtain ⟨unit, h⟩ := List.length_eq_one_iff.mp hl
      exact hu unit h

end Operand

end ByteAsm
